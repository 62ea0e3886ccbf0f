import Mathlib.Data.List.Forall2
import MicroCisc.Proofs.Text.Numeral

namespace MicroCisc.Numeral

variable {radix limit : Nat}

-- Digits above nine are letters of either case.
def IsDigit (radix : Nat) (c : Char) (value : Nat) : Prop :=
  value < radix ∧ (c = value.digitChar ∨ c = value.digitChar.toUpper)

def Spells (radix : Nat) (text : List Char) (n : Nat) : Prop :=
  ∃ digits values, (text = digits ∨ text = '+' :: digits) ∧ digits ≠ [] ∧
    List.Forall₂ (IsDigit radix) digits values ∧ ofDigits radix values = n

-- What is written of a number spells it.
theorem spells_digits (htwo : 2 ≤ radix) (width n : Nat) :
    Spells radix (digits radix width n) n := by
  obtain ⟨values, hdigits, hvalues, hvalue⟩ := digits_eq_map htwo width n
  refine ⟨_, values, .inl rfl, digits_ne_nil width n, ?_, hvalue⟩
  rw [hdigits, List.forall₂_map_left_iff, List.forall₂_same]
  exact fun value hmem => ⟨hvalues value hmem, .inl rfl⟩

theorem digitValue?_toUpper (hradix : radix ≤ 16) {digit : Nat} (hdigit : digit < radix) :
    digitValue? radix digit.digitChar.toUpper = some digit := by
  have hvalue : ∀ digit : Fin 16, digitValue? 16 digit.val.digitChar.toUpper = some digit.val := by
    decide
  have hsixteen := hvalue ⟨digit, by omega⟩
  simp only [digitValue?, Option.filter_eq_some_iff] at hsixteen ⊢
  exact ⟨hsixteen.1, by simpa using hdigit⟩

-- The characters that the reader takes for digits are in three ranges. Within each the characters
-- and the digits' values go up together.
theorem isDigit_of_digitValue? {c : Char} {value : Nat} (h : digitValue? radix c = some value) :
    IsDigit radix c value := by
  have hdecimal : ∀ i < 10, (Nat.digitChar i).toNat = 48 + i := by decide
  have hlower : ∀ i < 6, (Nat.digitChar (i + 10)).toNat = 97 + i := by decide
  have hupper : ∀ i < 6, (Nat.digitChar (i + 10)).toUpper.toNat = 65 + i := by decide
  simp only [digitValue?, Option.filter_eq_some_iff, decide_eq_true_eq] at h
  obtain ⟨hrange, hlt⟩ := h
  refine ⟨hlt, ?_⟩
  split at hrange
  · next hc =>
    have hfirst : 48 ≤ c.toNat := UInt32.le_iff_toNat_le.1 hc.1
    have hlast : c.toNat ≤ 57 := UInt32.le_iff_toNat_le.1 hc.2
    obtain rfl : c.toNat - 48 = value := Option.some.inj hrange
    have hdigit := hdecimal (c.toNat - 48) (by omega)
    exact .inl (Char.toNat_inj.1 (by omega))
  split at hrange
  · next hc =>
    have hfirst : 97 ≤ c.toNat := UInt32.le_iff_toNat_le.1 hc.1
    have hlast : c.toNat ≤ 102 := UInt32.le_iff_toNat_le.1 hc.2
    obtain rfl : c.toNat - 97 + 10 = value := Option.some.inj hrange
    have hdigit := hlower (c.toNat - 97) (by omega)
    exact .inl (Char.toNat_inj.1 (by omega))
  split at hrange
  · next hc =>
    have hfirst : 65 ≤ c.toNat := UInt32.le_iff_toNat_le.1 hc.1
    have hlast : c.toNat ≤ 70 := UInt32.le_iff_toNat_le.1 hc.2
    obtain rfl : c.toNat - 65 + 10 = value := Option.some.inj hrange
    have hdigit := hupper (c.toNat - 65) (by omega)
    exact .inr (Char.toNat_inj.1 (by omega))
  · cases hrange

theorem digitValue?_eq_some_iff (hradix : radix ≤ 16) {c : Char} {value : Nat} :
    digitValue? radix c = some value ↔ IsDigit radix c value := by
  constructor
  · exact isDigit_of_digitValue?
  · rintro ⟨hlt, rfl | rfl⟩
    · exact digitValue?_digitChar hradix hlt
    · exact digitValue?_toUpper hradix hlt

theorem mapM_digitValue?_eq_some_iff (hradix : radix ≤ 16) {digits : List Char}
    {values : List Nat} : digits.mapM (digitValue? radix) = some values ↔
      List.Forall₂ (IsDigit radix) digits values := by
  induction digits generalizing values with
  | nil => simp [List.forall₂_nil_left_iff, eq_comm]
  | cons c rest ih =>
    simp only [List.mapM_cons, bind, pure, Option.bind_eq_some_iff, Option.some.injEq,
      digitValue?_eq_some_iff hradix, ih, List.forall₂_cons_left_iff]
    constructor
    · rintro ⟨value, hvalue, others, hothers, rfl⟩
      exact ⟨value, others, hvalue, hothers, rfl⟩
    · rintro ⟨value, others, hvalue, hothers, rfl⟩
      exact ⟨value, hvalue, others, hothers, rfl⟩

theorem withoutPlus_eq_self {text : List Char} (h : text.head? ≠ some '+') :
    withoutPlus text = text := by
  unfold withoutPlus
  split
  · simp at h
  · rfl

theorem eq_or_eq_cons_withoutPlus (text : List Char) :
    text = withoutPlus text ∨ text = '+' :: withoutPlus text := by
  unfold withoutPlus
  split
  · exact .inr rfl
  · exact .inl rfl

theorem not_isDigit (hradix : radix ≤ 16) {c : Char} (hc : digitValue? radix c = none)
    (value : Nat) : ¬ IsDigit radix c value := by
  rw [← digitValue?_eq_some_iff hradix, hc]
  exact nofun

theorem head?_ne_plus (hradix : radix ≤ 16) {digits : List Char} {values : List Nat}
    (hdigits : List.Forall₂ (IsDigit radix) digits values) : digits.head? ≠ some '+' := by
  intro hhead
  obtain ⟨rest, rfl⟩ := List.head?_eq_some_iff.1 hhead
  obtain ⟨value, -, hplus, -, -⟩ := List.forall₂_cons_left_iff.1 hdigits
  exact not_isDigit hradix rfl value hplus

-- The sign is no digit, and so there is one way to take it off.
theorem spells_iff (hradix : radix ≤ 16) {text : List Char} {n : Nat} :
    Spells radix text n ↔ withoutPlus text ≠ [] ∧
      ∃ values, List.Forall₂ (IsDigit radix) (withoutPlus text) values ∧
        ofDigits radix values = n := by
  constructor
  · rintro ⟨digits, values, htext, hne, hdigits, hvalue⟩
    have hwithout : withoutPlus text = digits := by
      rcases htext with rfl | rfl
      · exact withoutPlus_eq_self (head?_ne_plus hradix hdigits)
      · rfl
    rw [hwithout]
    exact ⟨hne, values, hdigits, hvalue⟩
  · rintro ⟨hne, values, hdigits, hvalue⟩
    exact ⟨withoutPlus text, values, eq_or_eq_cons_withoutPlus text, hne, hdigits, hvalue⟩

theorem read?_eq_some_iff (hzero : 0 < radix) (hradix : radix ≤ 16) (hlimit : 0 < limit)
    {text : List Char} {n : Nat} :
    read? radix limit text = some n ↔ Spells radix text n ∧ n < limit := by
  rw [spells_iff hradix, read?]
  cases hdigits : withoutPlus text with
  | nil => simp
  | cons c rest =>
    simp only [bind, Option.bind_eq_some_iff, mapM_digitValue?_eq_some_iff hradix,
      extend?_zero hzero hlimit, Option.filter_eq_some_iff, Option.some.injEq, decide_eq_true_eq]
    constructor
    · rintro ⟨values, hvalues, hvalue, hlt⟩
      exact ⟨⟨List.cons_ne_nil c rest, values, hvalues, hvalue⟩, hlt⟩
    · rintro ⟨⟨-, values, hvalues, hvalue⟩, hlt⟩
      exact ⟨values, hvalues, hvalue, hlt⟩

end MicroCisc.Numeral
