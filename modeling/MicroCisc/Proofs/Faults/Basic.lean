import Mathlib.Algebra.Group.Int.Defs
import Mathlib.Algebra.Group.Nat.Defs
import MicroCisc.Memory
import MicroCisc.Register

namespace MicroCisc

inductive Fault where
  | register (error : RegisterError)
  | outOfBounds (index size : Nat)
  | divisionByZero
  | overflow
  -- A loop that has not come to its end when it should have.
  | endless
  deriving DecidableEq, Repr

abbrev Checked := Except Fault

namespace Checked

-- A natural number of so many bits.
def natural (bits n : Nat) : Checked Nat :=
  if n < 2 ^ bits then pure n else throw .overflow

-- A number in two's complement of 64 bits.
def integer (n : Int) : Checked Int :=
  if -2 ^ 63 ≤ n ∧ n < 2 ^ 63 then pure n else throw .overflow

def subtract (a b : Nat) : Checked Nat :=
  if b ≤ a then pure (a - b) else throw .overflow

def divide (a b : Nat) : Checked Nat :=
  if b = 0 then throw .divisionByZero else pure (a / b)

def remainder (a b : Nat) : Checked Nat :=
  if b = 0 then throw .divisionByZero else pure (a % b)

-- The quotient and the remainder of numbers in two's complement, rounded towards zero.
def divideSigned (a b : Int) : Checked (Int × Int) := do
  if b = 0 then throw .divisionByZero
  let quotient ← integer (a.tdiv b)
  return (quotient, a.tmod b)

-- How far a number of so many bits is shifted.
def places (bits amount : Nat) : Checked Nat :=
  if amount < bits then pure amount else throw .overflow

def register (number : Nat) : Checked Register :=
  (Register.ofNumber number).mapError .register

def word (words : Array Word) (index : Nat) : Checked Word :=
  match words[index]? with
  | some word => pure word
  | none => throw (.outOfBounds index words.size)

def setWord (words : Array Word) (index : Nat) (value : Word) : Checked (Array Word) :=
  if h : index < words.size then pure (words.set index value h)
  else throw (.outOfBounds index words.size)

variable {bits n a b index amount : Nat} {words : Array Word}

theorem natural_ok (h : n < 2 ^ bits) : natural bits n = pure n :=
  if_pos h

theorem integer_ok {n : Int} (h : n.natAbs < 2 ^ 63) : integer n = pure n :=
  if_pos (by omega)

theorem subtract_ok (h : b ≤ a) : subtract a b = pure (a - b) :=
  if_pos h

theorem divide_ok (h : b ≠ 0) : divide a b = pure (a / b) :=
  if_neg h

theorem remainder_ok (h : b ≠ 0) : remainder a b = pure (a % b) :=
  if_neg h

theorem divideSigned_ok {a b : Int} (hdivisor : b ≠ 0) (hdividend : a.natAbs < 2 ^ 63) :
    divideSigned a b = pure (a.tdiv b, a.tmod b) := by
  have hquotient : (a.tdiv b).natAbs < 2 ^ 63 := by
    rw [Int.natAbs_tdiv]
    exact Nat.lt_of_le_of_lt (Nat.div_le_self _ _) hdividend
  rw [divideSigned, if_neg hdivisor, integer_ok hquotient]
  rfl

theorem places_ok (h : amount < bits) : places bits amount = pure amount :=
  if_pos h

theorem register_number (register : Register) : Checked.register register.number = pure register := by
  rw [Checked.register, Register.ofNumber_number]
  rfl

theorem word_ok (h : index < words.size) : word words index = pure (words.getD index 0) := by
  simp [word, h]

theorem setWord_ok (h : index < words.size) (value : Word) :
    setWord words index value = pure (words.setIfInBounds index value) := by
  simp [setWord, h, Array.setIfInBounds]

end Checked

end MicroCisc
