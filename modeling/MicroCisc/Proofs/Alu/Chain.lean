import Mathlib.Data.List.Induction
import MicroCisc.Proofs.Alu.Arithmetic

namespace MicroCisc

-- The flags that operations set and clear.
def Flag.status : List Flag :=
  [.zero, .negative, .carry, .overflow, .error]

-- The negative flag is the sign in two's complement.
theorem Word.and_sign_bne_zero (w : Word) : (w &&& 0x8000 != 0) = decide (w.signed < 0) := by
  have hlt := w.toNat_lt
  have hbit : w.toBitVec.getLsbD 15 = decide (0x8000 ≤ w.toNat) :=
    BitVec.msb_eq_decide w.toBitVec
  have hmask : (0x8000 : Word).toBitVec = BitVec.twoPow 16 15 := rfl
  have hnonzero : BitVec.twoPow 16 15 ≠ (0 : Word).toBitVec := by decide
  rw [Bool.eq_iff_iff, bne_iff_ne, Ne, ← UInt16.toBitVec_inj, UInt16.toBitVec_and, hmask,
    BitVec.and_twoPow, decide_eq_true_eq, Word.signed_eq]
  cases hsign : w.toBitVec.getLsbD 15 with
  | false =>
    have hless : ¬0x8000 ≤ w.toNat := of_decide_eq_false (hbit.symm.trans hsign)
    rw [if_neg Bool.false_ne_true, if_pos (by omega)]
    exact ⟨fun hne => absurd rfl hne, fun hneg => by omega⟩
  | true =>
    have hle : 0x8000 ≤ w.toNat := of_decide_eq_true (hbit.symm.trans hsign)
    rw [if_pos rfl, if_neg (by omega)]
    exact ⟨fun _ => by omega, fun _ => hnonzero⟩

namespace Alu

-- An operation with its source.
structure Step where
  op : AluOp
  src : Word
  deriving DecidableEq, Repr

def Step.divisor? (step : Step) : Option Word :=
  if step.op = .divide then some step.src else none

-- The destination is the value that was left before.
def apply (before : AluResult) (step : Step) : AluResult :=
  compute step.op step.src before.value before.flags before.overflow

def chain (start : AluResult) (steps : List Step) : AluResult :=
  steps.foldl apply start

theorem chain_snoc (start : AluResult) (steps : List Step) (step : Step) :
    chain start (steps ++ [step]) = apply (chain start steps) step := by
  rw [chain, List.foldl_append]
  rfl

-- The exact result of an arithmetic operation, if it has one.
def exactOf? : AluOp → Int → Int → Option Int
  | .add, a, b => some (a + b)
  | .subtract, a, b => some (a - b)
  | .multiply, a, b => some (a * b)
  | .divide, a, b => if b = 0 then none else some (a.tdiv b)
  | _, _, _ => none

/-! ### One operation -/

section Operation

variable (op : AluOp) (src dst : Word) (flags : Flags) (overflow : Word)

theorem testBit_freshFlags (value : Word) {place : Nat}
    (h : ∀ flag ∈ Flag.status, place ≠ flag.bit) :
    (freshFlags flags value overflow).testBit place = flags.testBit place := by
  have hzero := h .zero (by decide)
  have hnegative := h .negative (by decide)
  have hcarry := h .carry (by decide)
  have hoverflow := h .overflow (by decide)
  simp only [freshFlags, Flags.testBit_put, hzero, hnegative, hcarry, hoverflow, if_false]

-- Only flags that operations set can change.
theorem testBit_compute {place : Nat} (h : ∀ flag ∈ Flag.status, place ≠ flag.bit) :
    (compute op src dst flags overflow).flags.testBit place = flags.testBit place := by
  have hfresh (value overflow : Word) := testBit_freshFlags flags overflow value h
  have hcarry := h .carry (by decide)
  have hoverflow := h .overflow (by decide)
  have herror := h .error (by decide)
  have hranged (signed : Bool) (exact : Int) :
      (ranged signed flags exact).flags.testBit place = flags.testBit place := by
    simp only [ranged, arithmetic, Flags.testBit_put, hoverflow, if_false]
    exact hfresh _ _
  cases op with
  | copy => rfl
  | add | subtract | multiply => exact hranged _ _
  | divide =>
    simp only [compute, divide_eq]
    split
    · simp only [Flags.testBit_put, herror, if_false]
      exact hfresh _ _
    · simp only [Flags.testBit_put, hcarry, herror, if_false]
      exact hranged _ _
  | and | or | xor | invert | shiftLeft | shiftRight | swapBytes | highByte | lowByte | pageMask
  | overflowAnd => exact hfresh _ _

-- The flags but for those of overflow and error are those of the value and the overflow register.
theorem has_compute (hop : op ≠ .copy) {flag : Flag} (hoverflow : flag ≠ .overflow)
    (herror : flag ≠ .error) :
    let result := compute op src dst flags overflow
    result.flags.has flag = (freshFlags flags result.value result.overflow).has flag := by
  have hranged (signed : Bool) (exact : Int) :
      (ranged signed flags exact).flags.has flag =
        (freshFlags flags (.ofInt exact) (.ofInt (exact / 0x10000))).has flag := by
    rw [ranged, has_arithmetic, if_neg hoverflow]
  cases op with
  | copy => exact absurd rfl hop
  | add | subtract | multiply => exact hranged _ _
  | divide =>
    simp only [compute, divide_eq]
    split
    · simp only [Flags.has_put, herror, if_false]
      rfl
    · simp only [Flags.has_put, herror, if_false, hranged, has_freshFlags]
      cases flag <;> simp_all [ranged, arithmetic, fresh]
  | and | or | xor | invert | shiftLeft | shiftRight | swapBytes | highByte | lowByte | pageMask
  | overflowAnd => rfl

theorem has_overflow_compute (hop : op ≠ .copy) :
    let signed := flags.has .signed
    (compute op src dst flags overflow).flags.has .overflow = true ↔
      ∃ exact, exactOf? op (widen signed dst) (widen signed src) = some exact ∧
        ¬Representable signed exact := by
  intro signed
  have hfresh (value overflow : Word) :
      (freshFlags flags value overflow).has .overflow = true ↔
        ∃ exact, (none : Option Int) = some exact ∧ ¬Representable signed exact := by
    simp [has_freshFlags]
  have hranged (exact : Int) :
      (ranged signed flags exact).flags.has .overflow = true ↔
        ∃ result, some exact = some result ∧ ¬Representable signed result := by
    simp [ranged, has_arithmetic, representable_iff]
  cases op with
  | copy => exact absurd rfl hop
  | add | subtract | multiply => exact hranged _
  | divide =>
    simp only [compute, divide_eq, exactOf?, beq_iff_eq, widen_eq_zero_iff]
    split
    · simpa [Flags.has_put, fresh] using hfresh dst overflow
    · simp only [Flags.has_put, reduceCtorEq, if_false]
      exact hranged _
  | and | or | xor | invert | shiftLeft | shiftRight | swapBytes | highByte | lowByte | pageMask
  | overflowAnd => exact hfresh _ _

-- Only a division touches the error flag.
theorem has_error_compute :
    (compute op src dst flags overflow).flags.has .error =
      if op = .divide then src == 0 else flags.has .error := by
  have hfresh (value overflow : Word) :
      (freshFlags flags value overflow).has .error = flags.has .error := by
    simp [has_freshFlags]
  have hranged (signed : Bool) (exact : Int) :
      (ranged signed flags exact).flags.has .error = flags.has .error := by
    rw [ranged, has_arithmetic, if_neg (by decide)]
    exact hfresh _ _
  cases op with
  | copy => rfl
  | add | subtract | multiply => exact hranged _ _
  | divide =>
    simp only [compute, divide_eq, if_true]
    split <;> simp_all [Flags.has_put]
  | and | or | xor | invert | shiftLeft | shiftRight | swapBytes | highByte | lowByte | pageMask
  | overflowAnd => exact hfresh _ _

end Operation

/-! ### Chains -/

-- What the flags tell after a step: all about its result, or nothing new after a copy.
structure Describes (before : AluResult) (step : Step) (after : AluResult) : Prop where
  copy : step.op = .copy → after.flags = before.flags ∧ after.overflow = before.overflow
  zero : step.op ≠ .copy → (after.flags.has .zero = true ↔ after.value = 0)
  negative : step.op ≠ .copy → (after.flags.has .negative = true ↔ after.value.signed < 0)
  carry : step.op ≠ .copy → after.flags.has .carry = after.overflow.toNat.testBit 0
  overflow : step.op ≠ .copy →
    (after.flags.has .overflow = true ↔
      ∃ exact, exactOf? step.op (widen (before.flags.has .signed) before.value)
          (widen (before.flags.has .signed) step.src) = some exact ∧
        ¬Representable (before.flags.has .signed) exact)

theorem describes_apply (before : AluResult) (step : Step) :
    Describes before step (apply before step) := by
  have hflags (hop : step.op ≠ .copy) {flag : Flag} (hoverflow : flag ≠ .overflow)
      (herror : flag ≠ .error) :
      (apply before step).flags.has flag =
        (freshFlags before.flags (apply before step).value (apply before step).overflow).has flag :=
    has_compute step.op step.src before.value before.flags before.overflow hop hoverflow herror
  constructor
  · intro hcopy
    simp only [apply, compute, hcopy]
    trivial
  · intro hop
    rw [hflags hop (by decide) (by decide), has_freshFlags, beq_iff_eq]
  · intro hop
    rw [hflags hop (by decide) (by decide), has_freshFlags, Word.and_sign_bne_zero,
      decide_eq_true_eq]
  · intro hop
    rw [hflags hop (by decide) (by decide), has_freshFlags, and_one_beq_one]
  · intro hop
    exact has_overflow_compute step.op step.src before.value before.flags before.overflow hop

theorem testBit_chain (start : AluResult) (steps : List Step) {place : Nat}
    (h : ∀ flag ∈ Flag.status, place ≠ flag.bit) :
    (chain start steps).flags.testBit place = start.flags.testBit place := by
  induction steps using List.reverseRecOn with
  | nil => rfl
  | append_singleton steps step ih =>
    rw [chain_snoc, apply, testBit_compute _ _ _ _ _ h, ih]

-- The divisor of the last division decides, if there is one.
theorem has_error_chain (start : AluResult) (steps : List Step) :
    (chain start steps).flags.has .error =
      match (steps.filterMap Step.divisor?).getLast? with
      | some divisor => divisor == 0
      | none => start.flags.has .error := by
  induction steps using List.reverseRecOn with
  | nil => rfl
  | append_singleton steps step ih =>
    rw [chain_snoc, apply, has_error_compute, List.filterMap_append]
    by_cases hop : step.op = .divide
    · simp [hop, Step.divisor?]
    · simp [hop, Step.divisor?, ih]

-- Along any chain of operations, the flags that no operation sets stay as they were at the start,
-- and so do the bits that are no flags. After each step the other flags describe its result, or are
-- as before if it is a copy. At the end the error flag is set exactly if the last division was one
-- by zero, or was set at the start if there is none.
theorem flags_chain (start : AluResult) (steps : List Step) :
    (∀ earlier, earlier <+: steps → ∀ place, (∀ flag ∈ Flag.status, place ≠ flag.bit) →
        (chain start earlier).flags.testBit place = start.flags.testBit place) ∧
      (∀ earlier step, earlier ++ [step] <+: steps →
        Describes (chain start earlier) step (chain start (earlier ++ [step]))) ∧
      (chain start steps).flags.has .error =
        match (steps.filterMap Step.divisor?).getLast? with
        | some divisor => divisor == 0
        | none => start.flags.has .error := by
  refine ⟨fun earlier _ place h => testBit_chain start earlier h, fun earlier step _ => ?_,
    has_error_chain start steps⟩
  rw [chain_snoc]
  exact describes_apply _ step

-- A division by zero, a sum that is too large and a copy: the error flag stays, and so do the flags
-- of the sum, and the signed flag and a bit without a meaning come through.
theorem flags_chain_overflow :
    let start : AluResult := ⟨0x7FFF, ⟨0x8100⟩, 0⟩
    let steps : List Step := [⟨.divide, 0⟩, ⟨.add, 1⟩, ⟨.copy, 5⟩]
    [⟨.divide, 0⟩] ++ [⟨.add, 1⟩] <+: steps ∧ (∀ flag ∈ Flag.status, 15 ≠ flag.bit) ∧
      (chain start steps).flags.testBit 15 = true ∧
      (chain start [⟨.divide, 0⟩, ⟨.add, 1⟩]).flags.has .overflow = true ∧
      (chain start steps).flags.has .error = true := by
  intro start steps
  have hsteps : [⟨.divide, 0⟩] ++ [⟨.add, 1⟩] <+: steps := ⟨[⟨.copy, 5⟩], rfl⟩
  have hplace : ∀ flag ∈ Flag.status, 15 ≠ flag.bit := by decide
  obtain ⟨hkept, hdescribes, herror⟩ := flags_chain start steps
  have hadd := hdescribes [⟨.divide, 0⟩] ⟨.add, 1⟩ hsteps
  refine ⟨hsteps, hplace, ?_, ?_, herror⟩
  · rw [hkept steps (List.prefix_refl steps) 15 hplace]
    decide
  · apply (hadd.overflow (by decide)).2
    refine ⟨0x8000, by decide, ?_⟩
    rw [representable_iff]
    decide

end Alu

end MicroCisc
