import MicroCisc.Proofs.Alu.Arithmetic
import MicroCisc.Proofs.Faults.Basic

namespace MicroCisc.Alu

def checkedShiftLeft (flags : Flags) (src dst : Word) : Checked AluResult := do
  let amount ← Checked.places 64 (shiftAmount src)
  let wide ← Checked.natural 64 (dst.toNat * Nat.pow 2 amount)
  return fresh flags (.ofNat wide) (.ofNat (wide / 0x10000))

def checkedShiftRight (signed : Bool) (flags : Flags) (src dst : Word) : Checked AluResult := do
  let scaled ← Checked.integer (widen signed dst * 0x10000)
  let amount ← Checked.places 64 (shiftAmount src)
  let wide := scaled / (Nat.pow 2 amount : Nat)
  return fresh flags (.ofInt (wide / 0x10000)) (.ofInt wide)

def checkedDivide (signed : Bool) (flags : Flags) (overflow src dst : Word) : Checked AluResult :=
  if src == 0 then
    let result := fresh flags dst overflow
    return { result with flags := result.flags.put .error true }
  else do
    let (quotient, remainder) ← Checked.divideSigned (widen signed dst) (widen signed src)
    let result := arithmetic flags quotient (signed && quotient > 0x7FFF)
    let remainder : Word := .ofInt remainder
    return {
      value := result.value
      flags := result.flags |>.put .carry (remainder &&& 1 == 1) |>.put .error false
      overflow := remainder }

-- The operations on bits and bytes have no numbers that could be too large.
def checkedCompute (op : AluOp) (src dst : Word) (flags : Flags) (overflow : Word) :
    Checked AluResult :=
  let signed := flags.has .signed
  match op with
  | .shiftLeft => checkedShiftLeft flags src dst
  | .shiftRight => checkedShiftRight signed flags src dst
  | .add => return ranged signed flags (← Checked.integer (widen signed dst + widen signed src))
  | .subtract =>
      return ranged signed flags (← Checked.integer (widen signed dst - widen signed src))
  | .multiply =>
      return ranged signed flags (← Checked.integer (widen signed dst * widen signed src))
  | .divide => checkedDivide signed flags overflow src dst
  | op => return compute op src dst flags overflow

variable (signed : Bool) (flags : Flags) (overflow src dst : Word)

theorem natAbs_widen_lt (w : Word) : (widen signed w).natAbs < 2 ^ 16 := by
  have hnat := w.toNat_lt
  have hlow := w.toInt16.le_toInt
  have hhigh := w.toInt16.toInt_lt
  cases signed with
  | false => simpa [widen] using hnat
  | true =>
    simp only [widen, if_true, Word.signed]
    omega

theorem shiftAmount_lt : shiftAmount src < 64 := by
  unfold shiftAmount
  omega

theorem checkedShiftLeft_eq : checkedShiftLeft flags src dst = pure (shiftLeft flags src dst) := by
  have hwide : dst.toNat * Nat.pow 2 (shiftAmount src) < 2 ^ 64 := by
    have hdst := dst.toNat_lt
    have hpow : Nat.pow 2 (shiftAmount src) ≤ Nat.pow 2 32 :=
      Nat.pow_le_pow_right (by decide) (Nat.min_le_right _ _)
    calc dst.toNat * Nat.pow 2 (shiftAmount src)
      _ ≤ 2 ^ 16 * Nat.pow 2 32 := Nat.mul_le_mul (Nat.le_of_lt hdst) hpow
      _ < 2 ^ 64 := by decide
  rw [checkedShiftLeft, Checked.places_ok (shiftAmount_lt src), pure_bind, Checked.natural_ok hwide,
    pure_bind]
  rfl

theorem checkedShiftRight_eq :
    checkedShiftRight signed flags src dst = pure (shiftRight signed flags src dst) := by
  have hscaled : (widen signed dst * 0x10000).natAbs < 2 ^ 63 := by
    have hdst := natAbs_widen_lt signed dst
    omega
  rw [checkedShiftRight, Checked.integer_ok hscaled, pure_bind,
    Checked.places_ok (shiftAmount_lt src), pure_bind]
  rfl

theorem checkedDivide_eq :
    checkedDivide signed flags overflow src dst = pure (divide signed flags overflow src dst) := by
  have hdividend : (widen signed dst).natAbs < 2 ^ 63 := by
    have hdst := natAbs_widen_lt signed dst
    omega
  unfold checkedDivide divide
  split
  · rfl
  · next hsrc =>
    have hdivisor : widen signed src ≠ 0 := by
      rw [Ne, widen_eq_zero_iff, ← beq_iff_eq]
      exact hsrc
    rw [Checked.divideSigned_ok hdivisor hdividend, pure_bind]

theorem checkedCompute_eq (op : AluOp) :
    checkedCompute op src dst flags overflow = pure (compute op src dst flags overflow) := by
  have hdst := natAbs_widen_lt (flags.has .signed) dst
  have hsrc := natAbs_widen_lt (flags.has .signed) src
  cases op with
  | shiftLeft => exact checkedShiftLeft_eq flags src dst
  | shiftRight => exact checkedShiftRight_eq _ flags src dst
  | divide => exact checkedDivide_eq _ flags overflow src dst
  | add =>
    have hsum : (widen (flags.has .signed) dst + widen (flags.has .signed) src).natAbs < 2 ^ 63 := by
      omega
    rw [checkedCompute, Checked.integer_ok hsum, pure_bind]
    rfl
  | subtract =>
    have hdifference :
        (widen (flags.has .signed) dst - widen (flags.has .signed) src).natAbs < 2 ^ 63 := by
      omega
    rw [checkedCompute, Checked.integer_ok hdifference, pure_bind]
    rfl
  | multiply =>
    have hproduct :
        (widen (flags.has .signed) dst * widen (flags.has .signed) src).natAbs < 2 ^ 63 := by
      rw [Int.natAbs_mul]
      calc _ ≤ 2 ^ 16 * 2 ^ 16 := Nat.mul_le_mul (Nat.le_of_lt hdst) (Nat.le_of_lt hsrc)
        _ < 2 ^ 63 := by decide
    rw [checkedCompute, Checked.integer_ok hproduct, pure_bind]
    rfl
  | copy | and | or | xor | invert | swapBytes | highByte | lowByte | pageMask | overflowAnd => rfl

end MicroCisc.Alu
