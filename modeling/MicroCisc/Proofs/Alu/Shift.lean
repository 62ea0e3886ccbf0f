import MicroCisc.Proofs.Alu.Arithmetic

namespace MicroCisc.Alu

-- A shift by any number of places, in numbers without bound.
def shiftLeftBy (flags : Flags) (dst : Word) (places : Nat) : AluResult :=
  let wide := dst.toNat * 2 ^ places
  fresh flags (.ofNat wide) (.ofNat (wide / 2 ^ 16))

-- The quotient is rounded down, also that of a negative number.
def shiftRightBy (signed : Bool) (flags : Flags) (dst : Word) (places : Nat) : AluResult :=
  let wide := widen signed dst * 2 ^ 16 / 2 ^ places
  fresh flags (.ofInt (wide / 2 ^ 16)) (.ofInt wide)

/-! ### The amount -/

theorem toNat_word_ofNat (n : Nat) : (UInt16.ofNat n).toNat = n % 2 ^ 16 :=
  UInt16.toNat_ofNat'

-- Two numbers without any of their lowest 32 bits leave the same words, which are zero.
theorem words_of_two_pow_mul (m : Nat) :
    UInt16.ofNat (2 ^ 32 * m) = 0 ∧ UInt16.ofNat (2 ^ 32 * m / 2 ^ 16) = 0 := by
  constructor
  · rw [← UInt16.toNat_inj, toNat_word_ofNat, UInt16.toNat_zero]
    omega
  · rw [← UInt16.toNat_inj, toNat_word_ofNat, UInt16.toNat_zero]
    omega

-- What is left of a number of 32 bits and its sign after 32 places or more is its sign.
theorem ediv_of_two_pow_le {n divisor : Int} (hn : -2 ^ 32 ≤ n ∧ n < 2 ^ 32)
    (hdivisor : 2 ^ 32 ≤ divisor) : n / divisor = if n < 0 then -1 else 0 := by
  split
  · next hneg => exact Int.ediv_eq_neg_one_of_neg_of_le hneg (by omega)
  · next hnonneg => exact Int.ediv_eq_zero_of_lt (by omega) (by omega)

theorem two_pow_le_two_pow {places : Nat} (h : 32 ≤ places) : (2 ^ 32 : Int) ≤ 2 ^ places := by
  have hle : 2 ^ 32 ≤ 2 ^ places := Nat.pow_le_pow_right (by decide) h
  exact_mod_cast hle

variable (signed : Bool) (flags : Flags) (src dst : Word)

theorem shiftLeft_eq : shiftLeft flags src dst = shiftLeftBy flags dst src.toNat := by
  unfold shiftLeft shiftLeftBy shiftAmount
  by_cases hsrc : src.toNat ≤ 32
  · rw [Nat.min_eq_left hsrc]
    rfl
  · obtain ⟨more, hmore⟩ := Nat.exists_eq_add_of_le (Nat.le_of_not_le hsrc)
    have hclamped : dst.toNat * Nat.pow 2 32 = 2 ^ 32 * dst.toNat := Nat.mul_comm _ _
    have hplaces : dst.toNat * 2 ^ src.toNat = 2 ^ 32 * (dst.toNat * 2 ^ more) := by
      rw [hmore, Nat.pow_add, Nat.mul_left_comm]
    obtain ⟨hvalue, hoverflow⟩ := words_of_two_pow_mul dst.toNat
    obtain ⟨hvalue', hoverflow'⟩ := words_of_two_pow_mul (dst.toNat * 2 ^ more)
    rw [Nat.min_eq_right (Nat.le_of_not_le hsrc), hclamped, hplaces]
    dsimp only
    rw [hvalue, hvalue', hoverflow', show (0x10000 : Nat) = 2 ^ 16 from rfl, hoverflow]

-- The range of an operand in either mode.
theorem widen_bounds : -2 ^ 16 ≤ widen signed dst ∧ widen signed dst < 2 ^ 16 := by
  have hfits := fits_widen signed dst
  unfold fits at hfits
  split at hfits <;>
    simp only [Bool.and_eq_true, decide_eq_true_eq] at hfits <;> omega

theorem shiftRight_eq :
    shiftRight signed flags src dst = shiftRightBy signed flags dst src.toNat := by
  have hwide : widen signed dst * 0x10000 / (Nat.pow 2 (shiftAmount src) : Nat) =
      widen signed dst * 2 ^ 16 / 2 ^ src.toNat := by
    unfold shiftAmount
    by_cases hsrc : src.toNat ≤ 32
    · rw [Nat.min_eq_left hsrc]
      push_cast
      rfl
    · have hle := Nat.le_of_not_le hsrc
      have hbounds := widen_bounds signed dst
      have hnumber : -2 ^ 32 ≤ widen signed dst * 2 ^ 16 ∧ widen signed dst * 2 ^ 16 < 2 ^ 32 := by
        omega
      rw [Nat.min_eq_right hle, ediv_of_two_pow_le hnumber (two_pow_le_two_pow hle)]
      exact ediv_of_two_pow_le hnumber (Int.le_refl _)
  unfold shiftRight shiftRightBy
  rw [hwide]
  rfl

/-! ### The bits that leave the word -/

section Bits

variable {places : Nat} (h : places ≤ 16)

include h

-- The highest bits of the operand.
theorem overflow_shiftLeftBy :
    (shiftLeftBy flags dst places).overflow.toNat = dst.toNat / 2 ^ (16 - places) := by
  have hlt := dst.toNat_lt
  have hpow : 2 ^ 16 = 2 ^ (16 - places) * 2 ^ places := by
    rw [← Nat.pow_add, Nat.sub_add_cancel h]
  have hwide : dst.toNat * 2 ^ places / 2 ^ 16 = dst.toNat / 2 ^ (16 - places) := by
    rw [hpow, Nat.mul_div_mul_right _ _ (Nat.two_pow_pos places)]
  have hle : dst.toNat / 2 ^ (16 - places) ≤ dst.toNat := Nat.div_le_self _ _
  show (UInt16.ofNat (dst.toNat * 2 ^ places / 2 ^ 16)).toNat = _
  rw [hwide, toNat_word_ofNat, Nat.mod_eq_of_lt (by omega)]

-- The lowest bits of the operand, at the top of the register.
theorem overflow_shiftRightBy :
    (shiftRightBy signed flags dst places).overflow.toNat =
      dst.toNat % 2 ^ places * 2 ^ (16 - places) := by
  have hpow : (2 ^ 16 : Int) = 2 ^ (16 - places) * 2 ^ places := by
    rw [← pow_add, Nat.sub_add_cancel h]
  have hwide : widen signed dst * 2 ^ 16 / 2 ^ places = widen signed dst * 2 ^ (16 - places) := by
    rw [hpow, ← Int.mul_assoc, Int.mul_ediv_cancel _ (pow_ne_zero places (by decide))]
  have hmodulus : (2 ^ 16 : Nat) = 2 ^ places * 2 ^ (16 - places) := by
    rw [← Nat.pow_add, Nat.add_sub_cancel' h]
  -- The two readings of the operand differ by a multiple of 2^16.
  have hreading : widen signed dst * 2 ^ (16 - places) ≡ dst.toNat * 2 ^ (16 - places)
      [ZMOD 2 ^ 16] := by
    apply Int.ModEq.mul_right
    show widen signed dst % 2 ^ 16 = dst.toNat % 2 ^ 16
    have hwiden := widen_emod signed dst
    omega
  have hword : ((shiftRightBy signed flags dst places).overflow.toNat : Int) =
      (dst.toNat * 2 ^ (16 - places) % 2 ^ 16 : Nat) := by
    show ((Word.ofInt (widen signed dst * 2 ^ 16 / 2 ^ places)).toNat : Int) = _
    rw [hwide, Word.toNat_ofInt]
    push_cast
    exact hreading
  rw [Int.ofNat_inj.1 hword, hmodulus, Nat.mul_mod_mul_right]

end Bits

theorem words_shiftLeftBy (places : Nat) :
    (shiftLeftBy flags dst places).overflow.toNat * 2 ^ 16 +
        (shiftLeftBy flags dst places).value.toNat ≡ dst.toNat * 2 ^ places [MOD 2 ^ 32] := by
  generalize hwide : dst.toNat * 2 ^ places = wide
  simp only [shiftLeftBy, hwide, fresh, toNat_word_ofNat]
  show _ % _ = _ % _
  omega

theorem words_shiftRightBy (places : Nat) :
    ((shiftRightBy signed flags dst places).value.toNat * 2 ^ 16 +
        (shiftRightBy signed flags dst places).overflow.toNat : Int) ≡
      widen signed dst * 2 ^ 16 / 2 ^ places [ZMOD 2 ^ 32] := by
  generalize hwide : widen signed dst * 2 ^ 16 / 2 ^ places = wide
  simp only [shiftRightBy, hwide, fresh, Word.toNat_ofInt]
  show _ % _ = _ % _
  omega

-- Whatever the operand, the amount and the mode are, both words of a shift together are the exact
-- number modulo 2^32, and up to 16 places the overflow register holds the bits that left the word
-- and no others. The result, with its flags, is that of a shift by all the places asked for.
theorem shifts_exact (overflow : Word) :
    let signed := flags.has .signed
    let left := compute .shiftLeft src dst flags overflow
    let right := compute .shiftRight src dst flags overflow
    left.overflow.toNat * 2 ^ 16 + left.value.toNat ≡ dst.toNat * 2 ^ src.toNat [MOD 2 ^ 32] ∧
      (right.value.toNat * 2 ^ 16 + right.overflow.toNat : Int) ≡
        widen signed dst * 2 ^ 16 / 2 ^ src.toNat [ZMOD 2 ^ 32] ∧
      (src.toNat ≤ 16 →
        left.overflow.toNat = dst.toNat / 2 ^ (16 - src.toNat) ∧
          right.overflow.toNat = dst.toNat % 2 ^ src.toNat * 2 ^ (16 - src.toNat)) ∧
      left = shiftLeftBy flags dst src.toNat ∧
      right = shiftRightBy signed flags dst src.toNat := by
  intro signed left right
  have hleft : left = shiftLeftBy flags dst src.toNat := shiftLeft_eq flags src dst
  have hright : right = shiftRightBy signed flags dst src.toNat :=
    shiftRight_eq signed flags src dst
  rw [hleft, hright]
  refine ⟨words_shiftLeftBy flags dst _, words_shiftRightBy signed flags dst _, fun hsrc => ?_,
    rfl, rfl⟩
  exact ⟨overflow_shiftLeftBy flags dst hsrc, overflow_shiftRightBy signed flags dst hsrc⟩

-- Four bits leave a negative word at either end.
theorem shifts_exact_four_places :
    (4 : Word).toNat ≤ 16 ∧
      (compute .shiftLeft 4 0x8421 .initial 0).overflow.toNat = 0x8 ∧
      (compute .shiftRight 4 0x8421 .initial 0).overflow.toNat = 0x1000 := by
  have hplaces : (4 : Word).toNat ≤ 16 := by decide
  obtain ⟨-, -, hbits, -, -⟩ := shifts_exact .initial 4 0x8421 0
  obtain ⟨hleft, hright⟩ := hbits hplaces
  exact ⟨hplaces, hleft, hright⟩

end MicroCisc.Alu
