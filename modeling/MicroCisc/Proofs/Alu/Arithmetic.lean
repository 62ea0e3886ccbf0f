import Mathlib.Data.Int.ModEq
import MicroCisc.Alu

namespace MicroCisc

namespace Word

theorem toNat_ofInt (n : Int) : ((ofInt n).toNat : Int) = n % 0x10000 := by
  unfold ofInt UInt16.ofInt
  rw [UInt16.toNat_ofNat']
  omega

theorem signed_eq (w : Word) :
    w.signed = if w.toNat < 0x8000 then (w.toNat : Int) else w.toNat - 0x10000 := by
  show w.toBitVec.toInt = _
  rw [BitVec.toInt_eq_toNat_cond, UInt16.toNat_toBitVec]
  split <;> split <;> omega

end Word

namespace Alu

-- Is `n` what some word stands for in this mode?
def Representable (signed : Bool) (n : Int) : Prop :=
  ∃ w, widen signed w = n

-- A word and the number that it is made of.
theorem toNat_ofInt_modEq (n : Int) : (Word.ofInt n).toNat ≡ n [ZMOD 2 ^ 16] := by
  have hword := Word.toNat_ofInt n
  show ((Word.ofInt n).toNat : Int) % 2 ^ 16 = n % 2 ^ 16
  omega

section Words

variable (signed : Bool)

-- In either mode a word stands for its number modulo 2^16.
theorem widen_emod (w : Word) : widen signed w % 0x10000 = w.toNat := by
  have hlt := w.toNat_lt
  cases signed with
  | false =>
    simp only [widen, Bool.false_eq_true, if_false]
    omega
  | true =>
    simp only [widen, if_true, Word.signed_eq]
    split <;> omega

theorem fits_widen (w : Word) : fits signed (widen signed w) = true := by
  have hlt := w.toNat_lt
  cases signed with
  | false =>
    simp only [fits, widen, Bool.false_eq_true, if_false, Bool.and_eq_true, decide_eq_true_eq]
    omega
  | true =>
    simp only [fits, widen, if_true, Word.signed_eq, Bool.and_eq_true, decide_eq_true_eq]
    split <;> omega

-- A number is read back from its word exactly if it fits.
theorem widen_ofInt_eq_iff (n : Int) :
    widen signed (.ofInt n) = n ↔ fits signed n = true := by
  have hword := Word.toNat_ofInt n
  cases signed with
  | false =>
    simp only [fits, widen, Bool.false_eq_true, if_false, Bool.and_eq_true, decide_eq_true_eq]
    omega
  | true =>
    simp only [fits, widen, if_true, Word.signed_eq, Bool.and_eq_true, decide_eq_true_eq]
    split <;> omega

theorem representable_iff (n : Int) : Representable signed n ↔ fits signed n = true := by
  constructor
  · rintro ⟨w, rfl⟩
    exact fits_widen signed w
  · intro hfits
    exact ⟨.ofInt n, (widen_ofInt_eq_iff signed n).2 hfits⟩

-- Zero is the only word that stands for zero.
theorem widen_eq_zero_iff (w : Word) : widen signed w = 0 ↔ w = 0 := by
  have hword := widen_emod signed w
  constructor
  · intro hzero
    rw [hzero] at hword
    apply UInt16.toNat_inj.1
    rw [UInt16.toNat_zero]
    omega
  · rintro rfl
    cases signed <;> rfl

end Words

/-! ### Flags -/

theorem has_freshFlags (flags : Flags) (value overflow : Word) (flag : Flag) :
    (freshFlags flags value overflow).has flag =
      match flag with
      | .zero => value == 0
      | .negative => value &&& 0x8000 != 0
      | .carry => overflow &&& 1 == 1
      | .overflow => false
      | other => flags.has other := by
  simp only [freshFlags, Flags.has_put]
  cases flag <;> simp

-- The carry flag is the lowest bit of the overflow register.
theorem and_one_beq_one (w : Word) : (w &&& 1 == 1) = w.toNat.testBit 0 := by
  rw [Bool.eq_iff_iff, beq_iff_eq, ← UInt16.toNat_inj, UInt16.toNat_and, Nat.testBit_zero,
    decide_eq_true_eq]
  exact Iff.of_eq (congrArg (· = 1) (Nat.and_one_is_mod w.toNat))

theorem has_arithmetic (flags : Flags) (exact : Int) (outOfRange : Bool) (flag : Flag) :
    (arithmetic flags exact outOfRange).flags.has flag =
      if flag = .overflow then outOfRange
      else (freshFlags flags (.ofInt exact) (.ofInt (exact / 0x10000))).has flag :=
  Flags.has_put _ _ _ _

/-! ### Sums, differences and products -/

-- The words of a result are the exact number modulo 2^32, and the overflow flag is set unless its
-- value alone stands for that.
structure IsExact (signed : Bool) (exact : Int) (result : AluResult) : Prop where
  words : (result.overflow.toNat * 2 ^ 16 + result.value.toNat : Int) ≡ exact [ZMOD 2 ^ 32]
  overflow : result.flags.has .overflow = true ↔ widen signed result.value ≠ exact

theorem isExact_ranged (signed : Bool) (flags : Flags) (exact : Int) :
    IsExact signed exact (ranged signed flags exact) := by
  constructor
  · have hlow := Word.toNat_ofInt exact
    have hhigh := Word.toNat_ofInt (exact / 0x10000)
    show ((Word.ofInt (exact / 0x10000)).toNat * 2 ^ 16 + (Word.ofInt exact).toNat : Int) % 2 ^ 32 =
      exact % 2 ^ 32
    omega
  · rw [ranged, has_arithmetic, if_pos rfl, Bool.not_eq_true', ← Bool.not_eq_true, ← widen_ofInt_eq_iff]
    exact Iff.rfl

/-! ### Divisions -/

-- Division that rounds towards zero, so that the remainder has the sign of the dividend.
structure Truncates (dividend divisor quotient remainder : Int) : Prop where
  exact : dividend = quotient * divisor + remainder
  small : |remainder| < |divisor|
  sign : remainder = 0 ∨ remainder.sign = dividend.sign

theorem truncates_tdiv (dividend : Int) {divisor : Int} (hdivisor : divisor ≠ 0) :
    Truncates dividend divisor (dividend.tdiv divisor) (dividend.tmod divisor) := by
  refine ⟨(Int.tdiv_mul_add_tmod dividend divisor).symm, ?_, ?_⟩
  · have hnatAbs := Int.natAbs_tmod dividend divisor
    have hless := Nat.mod_lt dividend.natAbs (Int.natAbs_pos.2 hdivisor)
    rw [Int.abs_eq_natAbs, Int.abs_eq_natAbs]
    omega
  · have hsign := Int.sign_tmod dividend divisor
    by_cases hdvd : divisor ∣ dividend
    · rw [if_pos hdvd] at hsign
      exact .inl (Int.sign_eq_zero_iff_zero.1 hsign)
    · rw [if_neg hdvd] at hsign
      exact .inr hsign

-- The value is the quotient and the overflow register the remainder, as far as words can be, and
-- the flags tell whether the quotient is more than a word can be.
def IsDivision (signed : Bool) (dividend divisor : Int) (result : AluResult) : Prop :=
  ∃ quotient remainder, Truncates dividend divisor quotient remainder ∧
    result.value.toNat ≡ quotient [ZMOD 2 ^ 16] ∧
    result.overflow.toNat ≡ remainder [ZMOD 2 ^ 16] ∧
    (result.flags.has .overflow = true ↔ ¬Representable signed quotient) ∧
    result.flags.has .error = false ∧
    result.flags.has .carry = result.overflow.toNat.testBit 0

variable (signed : Bool) (flags : Flags) (overflow src dst : Word)

-- A quotient is no further from zero than its dividend: all that a quotient can be besides a word is
-- one too large in two's complement.
theorem outOfRange_tdiv :
    (signed && (widen signed dst).tdiv (widen signed src) > 0x7FFF) =
      !(fits signed ((widen signed dst).tdiv (widen signed src))) := by
  have hfits := fits_widen signed dst
  have hnatAbs := Int.natAbs_tdiv (widen signed dst) (widen signed src)
  have hle := Nat.div_le_self (widen signed dst).natAbs (widen signed src).natAbs
  change _ = (widen signed dst).natAbs / (widen signed src).natAbs at hnatAbs
  cases signed with
  | false =>
    have hdst : 0 ≤ widen false dst := Int.natCast_nonneg _
    have hsrc : 0 ≤ widen false src := Int.natCast_nonneg _
    have hnonneg := Int.tdiv_nonneg hdst hsrc
    simp only [fits, Bool.false_eq_true, if_false, Bool.and_eq_true, decide_eq_true_eq] at hfits
    have hquotient : fits false ((widen false dst).tdiv (widen false src)) = true := by
      simp only [fits, Bool.false_eq_true, if_false, Bool.and_eq_true, decide_eq_true_eq]
      omega
    rw [hquotient]
    rfl
  | true =>
    simp only [fits, if_true, Bool.and_eq_true, decide_eq_true_eq] at hfits
    rw [Bool.eq_iff_iff]
    simp only [fits, if_true, Bool.true_and, Bool.not_eq_true', Bool.and_eq_false_iff,
      decide_eq_true_eq, decide_eq_false_iff_not]
    omega

-- Whether a quotient is out of range can be asked as for a sum.
theorem divide_eq :
    divide signed flags overflow src dst =
      if src == 0 then
        let result := fresh flags dst overflow
        { result with flags := result.flags.put .error true }
      else
        let result := ranged signed flags ((widen signed dst).tdiv (widen signed src))
        let remainder : Word := .ofInt ((widen signed dst).tmod (widen signed src))
        { value := result.value
          flags := result.flags |>.put .carry (remainder &&& 1 == 1) |>.put .error false
          overflow := remainder } := by
  unfold divide ranged
  rw [← outOfRange_tdiv]

theorem divide_zero :
    divide signed flags overflow 0 dst =
      ⟨dst, (freshFlags flags dst overflow).put .error true, overflow⟩ :=
  rfl

theorem isDivision_divide (hsrc : src ≠ 0) :
    IsDivision signed (widen signed dst) (widen signed src)
      (divide signed flags overflow src dst) := by
  have hdivisor : widen signed src ≠ 0 := fun h => hsrc ((widen_eq_zero_iff signed src).1 h)
  rw [divide_eq, if_neg (by simpa using hsrc)]
  refine ⟨_, _, truncates_tdiv (widen signed dst) hdivisor, toNat_ofInt_modEq _,
    toNat_ofInt_modEq _, ?_, ?_, ?_⟩
  · simp only [Flags.has_put, ranged, has_arithmetic]
    rw [representable_iff]
    simp
  · simp [Flags.has_put]
  · simp only [Flags.has_put, ← and_one_beq_one]
    rfl

-- Whatever the operands, the flags and the overflow register are, sums, differences and products of
-- the operands as the mode reads them are exact in both words of the result, and so are quotients
-- and remainders, each in its word. A division by zero keeps the dividend and the overflow register
-- and sets the error flag.
theorem arithmetic_exact :
    let signed := flags.has .signed
    let a := widen signed dst
    let b := widen signed src
    let result op := compute op src dst flags overflow
    IsExact signed (a + b) (result .add) ∧
      IsExact signed (a - b) (result .subtract) ∧
      IsExact signed (a * b) (result .multiply) ∧
      if b = 0 then
        (result .divide).value = dst ∧ (result .divide).overflow = overflow ∧
          (result .divide).flags.has .error = true
      else IsDivision signed a b (result .divide) := by
  intro signed a b result
  refine ⟨isExact_ranged _ _ _, isExact_ranged _ _ _, isExact_ranged _ _ _, ?_⟩
  split
  · next hzero =>
    obtain rfl : src = 0 := (widen_eq_zero_iff signed src).1 hzero
    simp only [result, compute, divide_zero, Flags.has_put]
    trivial
  · next hdivisor =>
    apply isDivision_divide
    rintro rfl
    exact hdivisor ((widen_eq_zero_iff signed 0).2 rfl)

-- The least number divided by -1 in two's complement: the quotient is one too large for a word.
example :
    compute .divide 0xFFFF 0x8000 .initial 0x1234 = ⟨0x8000, ⟨0x010A⟩, 0⟩ := by
  decide

end Alu

end MicroCisc
