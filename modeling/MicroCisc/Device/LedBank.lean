import MicroCisc.Device.Slot

namespace MicroCisc

structure LedBank where
  low : Word
  high : Word
  deriving DecidableEq, Repr

namespace LedBank

def dark : LedBank :=
  ⟨0, 0⟩

def bits (bank : LedBank) : Nat :=
  bank.high.toNat <<< 16 ||| bank.low.toNat

def isLit (bank : LedBank) (led : Nat) : Bool :=
  bank.bits.testBit led

def readSlot (bank : LedBank) : Slot → Word
  | 6 => bank.low
  | 7 => bank.high
  | _ => 0

def writeSlot (bank : LedBank) (slot : Slot) (value : Word) : LedBank :=
  match slot with
  | 6 => { bank with low := value }
  | 7 => { bank with high := value }
  | _ => bank

end LedBank

end MicroCisc
