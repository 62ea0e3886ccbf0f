import MicroCisc.Text.Numeral

namespace MicroCisc

abbrev Word := UInt16

namespace Word

def signed (w : Word) : Int :=
  w.toInt16.toInt

def ofInt (n : Int) : Word :=
  UInt16.ofInt n

def high (w : Word) : UInt8 :=
  (w >>> 8).toUInt8

def low (w : Word) : UInt8 :=
  w.toUInt8

def ofBytes (high low : UInt8) : Word :=
  high.toUInt16 <<< 8 ||| low.toUInt16

def hex (w : Word) : String :=
  Numeral.text 16 4 w.toNat

def hexNumber (w : Word) : String :=
  "0x" ++ w.hex

theorem toNat_high (w : Word) : w.high.toNat = w.toNat / 256 := by
  have hw := w.toNat_lt
  simp only [Word.high, UInt16.toNat_toUInt8, UInt16.toNat_shiftRight, UInt16.reduceToNat,
    Nat.reduceMod, Nat.reducePow, Nat.shiftRight_eq_div_pow]
  omega

theorem toNat_low (w : Word) : w.low.toNat = w.toNat % 256 :=
  w.toNat_toUInt8

theorem toNat_ofBytes (high low : UInt8) :
    (ofBytes high low).toNat = 256 * high.toNat + low.toNat := by
  have hhigh := high.toNat_lt
  have hlow := low.toNat_lt
  have hshift : high.toNat <<< 8 % 2 ^ 16 = high.toNat <<< 8 := by
    rw [Nat.shiftLeft_eq]
    omega
  simp only [ofBytes, UInt16.toNat_or, UInt16.toNat_shiftLeft, UInt8.toNat_toUInt16,
    UInt16.reduceToNat, Nat.reduceMod, hshift]
  rw [← Nat.shiftLeft_add_eq_or_of_lt hlow, Nat.shiftLeft_eq]
  omega

theorem ofBytes_high_low (w : Word) : ofBytes w.high w.low = w := by
  rw [← UInt16.toNat_inj, toNat_ofBytes, toNat_high, toNat_low]
  omega

theorem high_ofBytes (high low : UInt8) : (ofBytes high low).high = high := by
  have hlow := low.toNat_lt
  rw [← UInt8.toNat_inj, toNat_high, toNat_ofBytes]
  omega

theorem low_ofBytes (high low : UInt8) : (ofBytes high low).low = low := by
  have hlow := low.toNat_lt
  rw [← UInt8.toNat_inj, toNat_low, toNat_ofBytes]
  omega

end Word

def signedNumber (n : Int) : String :=
  if n < 0 then "-" ++ toString n.natAbs else "+" ++ toString n.natAbs

end MicroCisc
