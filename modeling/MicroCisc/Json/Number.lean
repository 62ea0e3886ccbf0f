import MicroCisc.Json.Basic

namespace MicroCisc

namespace Double

def precision : Nat := 53

def limit : Nat := Nat.pow 2 1024

def maxExponent : Nat := 308

-- The nearest multiple of `unit`. Halfway between two multiples, it is the even one.
def roundTo (unit n : Nat) : Nat :=
  let below := n / unit
  let excess := n % unit
  if unit < 2 * excess || (unit == 2 * excess && below % 2 == 1) then (below + 1) * unit
  else below * unit

def round (n : Nat) : Nat :=
  roundTo (Nat.pow 2 (n.log2 + 1 - precision)) n

-- Is `significand` times a power of ten beyond double precision? Both are rounded before they are
-- multiplied.
def isBeyond (significand : Nat) (exponent : Int) : Bool :=
  if significand == 0 || exponent < 0 then false
  else if (maxExponent : Int) < exponent then true
  else limit ≤ round (round significand * round (Nat.pow 10 exponent.toNat))

end Double

structure WrittenNumber where
  negative : Bool
  whole : List Nat
  fraction? : Option (List Nat)
  exponent? : Option (Int × List Nat)
  deriving DecidableEq, Repr

namespace WrittenNumber

def extend (total : Nat) : List Nat → Nat × Nat
  | [] => (total, 0)
  | digit :: rest =>
      let longer := 10 * total + digit
      if longer < UInt64.size then extend longer rest else (total, rest.length + 1)

def maxExponent : Nat := 0x80000000

def exponent (number : WrittenNumber) : Int :=
  match number.exponent? with
  | none => 0
  | some (sign, digits) => sign * ((Numeral.extend? 10 maxExponent 0 digits).getD maxExponent : Nat)

-- The value, unless it is beyond double precision. The first digits that 64 bits hold make it up:
-- whole digits after them count as zeros, and digits of the fraction after them do not count.
def value? (number : WrittenNumber) : Option Json :=
  let fraction := number.fraction?.getD []
  let (whole, dropped) := extend 0 number.whole
  let (significand, ignored) := extend whole fraction
  let exponent := number.exponent + dropped - (fraction.length - ignored : Nat)
  let isNatural := !number.negative && number.fraction?.isNone && number.exponent?.isNone
  if isNatural && dropped == 0 then some (.natural significand)
  else if Double.isBeyond significand exponent then none
  else some (.decimal number.negative significand exponent)

theorem extend_eq {total : Nat} {digits : List Nat}
    (h : digits.foldl (fun total digit => 10 * total + digit) total < UInt64.size) :
    extend total digits = (digits.foldl (fun total digit => 10 * total + digit) total, 0) := by
  induction digits generalizing total with
  | nil => rfl
  | cons digit rest ih =>
    rw [List.foldl_cons] at h ⊢
    have hle := Numeral.le_ofDigits_foldl (by decide : 0 < 10) rest (10 * total + digit)
    rw [extend, if_pos (Nat.lt_of_le_of_lt hle h)]
    exact ih h

theorem value?_natural {digits : List Nat} (h : Numeral.ofDigits 10 digits < UInt64.size) :
    value? ⟨false, digits, none, none⟩ = some (.natural (Numeral.ofDigits 10 digits)) := by
  simp only [value?, extend_eq h, Numeral.ofDigits]
  rfl

end WrittenNumber

end MicroCisc
