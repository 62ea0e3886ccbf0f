import MicroCisc.Word

namespace MicroCisc

namespace Numeral

variable {radix : Nat}

theorem digitValue?_digitChar (hradix : radix ≤ 16) {digit : Nat} (hdigit : digit < radix) :
    digitValue? radix digit.digitChar = some digit := by
  have hvalue : ∀ digit : Fin 16, digitValue? 16 digit.val.digitChar = some digit.val := by decide
  have hsixteen := hvalue ⟨digit, by omega⟩
  simp only [digitValue?, Option.filter_eq_some_iff] at hsixteen ⊢
  exact ⟨hsixteen.1, by simpa using hdigit⟩

theorem mapM_digitValue? (hradix : radix ≤ 16) {values : List Nat}
    (hvalues : ∀ value ∈ values, value < radix) :
    (values.map Nat.digitChar).mapM (digitValue? radix) = some values := by
  induction values with
  | nil => rfl
  | cons value rest ih =>
    obtain ⟨hvalue, hrest⟩ := List.forall_mem_cons.1 hvalues
    simp [digitValue?_digitChar hradix hvalue, ih hrest]

theorem ofDigits_append (values : List Nat) (value : Nat) :
    ofDigits radix (values ++ [value]) = radix * ofDigits radix values + value := by
  simp [ofDigits]

theorem ofDigits_zeros (count : Nat) (values : List Nat) :
    ofDigits radix (List.replicate count 0 ++ values) = ofDigits radix values := by
  induction count with
  | zero => rfl
  | succ count ih => simpa [ofDigits, List.replicate_succ] using ih

-- Digits that are not padded, by induction on the number: its last digit stands behind those of the
-- number without it.
theorem toDigits_eq_map (htwo : 2 ≤ radix) (n : Nat) :
    ∃ values, Nat.toDigits radix n = values.map Nat.digitChar ∧
      (∀ value ∈ values, value < radix) ∧ ofDigits radix values = n := by
  induction n using Nat.strongRecOn with
  | ind n ih =>
    by_cases hn : n < radix
    · exact ⟨[n], by simp [Nat.toDigits_of_lt_base hn], by simpa using hn, by simp [ofDigits]⟩
    · obtain ⟨values, hdigits, hvalues, hquotient⟩ :=
        ih (n / radix) (Nat.div_lt_self (by omega) htwo)
      have hlast : n % radix < radix := Nat.mod_lt n (by omega)
      refine ⟨values ++ [n % radix], ?_, ?_, ?_⟩
      · rw [Nat.toDigits_of_base_le htwo (by omega), hdigits]
        simp
      · rw [List.forall_mem_append]
        exact ⟨hvalues, by simpa using hlast⟩
      · rw [ofDigits_append, hquotient]
        exact Nat.div_add_mod n radix

-- Only the number zero starts with a zero.
theorem head?_toDigits_ne (htwo : 2 ≤ radix) {n : Nat} (hn : n ≠ 0) :
    (Nat.toDigits radix n).head? ≠ some '0' := by
  induction n using Nat.strongRecOn with
  | ind n ih =>
    by_cases hlast : n < radix
    · simpa [Nat.toDigits_of_lt_base hlast] using hn
    · have hpositive : 0 < n / radix := Nat.div_pos (by omega) (by omega)
      have hquotient := ih (n / radix) (Nat.div_lt_self (by omega) htwo) (by omega)
      obtain ⟨c, rest, hcons⟩ :=
        List.exists_cons_of_ne_nil (Nat.toDigits_ne_nil (b := radix) (n := n / radix))
      rw [Nat.toDigits_of_base_le htwo (by omega), hcons]
      rwa [hcons] at hquotient

theorem digits_eq_map (htwo : 2 ≤ radix) (width n : Nat) :
    ∃ values, digits radix width n = values.map Nat.digitChar ∧
      (∀ value ∈ values, value < radix) ∧ ofDigits radix values = n := by
  obtain ⟨values, hdigits, hvalues, hvalue⟩ := toDigits_eq_map htwo n
  refine ⟨List.replicate (width - (Nat.toDigits radix n).length) 0 ++ values, ?_, ?_, ?_⟩
  · have hzero : Nat.digitChar 0 = '0' := rfl
    simp [digits, List.leftpad, hdigits, hzero]
  · rw [List.forall_mem_append]
    refine ⟨fun value hmem => ?_, hvalues⟩
    have hvalue := List.eq_of_mem_replicate hmem
    omega
  · rw [ofDigits_zeros, hvalue]

theorem digits_inj (htwo : 2 ≤ radix) (hradix : radix ≤ 16) {width n m : Nat}
    (h : digits radix width n = digits radix width m) : n = m := by
  obtain ⟨values, hdigits, hvalues, hn⟩ := digits_eq_map htwo width n
  obtain ⟨values', hdigits', hvalues', hm⟩ := digits_eq_map htwo width m
  have hsame : some values = some values' := by
    rw [← mapM_digitValue? hradix hvalues, ← mapM_digitValue? hradix hvalues', ← hdigits, h, hdigits']
  rw [← hn, ← hm, Option.some.inj hsame]

-- What is no digit stands in no numeral.
theorem not_mem_digits (htwo : 2 ≤ radix) (hradix : radix ≤ 16) {c : Char}
    (hc : digitValue? radix c = none) (width n : Nat) : c ∉ digits radix width n := by
  obtain ⟨values, hdigits, hvalues, _⟩ := digits_eq_map htwo width n
  rw [hdigits, List.mem_map]
  rintro ⟨value, hmem, rfl⟩
  rw [digitValue?_digitChar hradix (hvalues value hmem)] at hc
  cases hc

theorem forall_mem_digits (htwo : 2 ≤ radix) {p : Char → Prop}
    (hp : ∀ digit < radix, p digit.digitChar) (width n : Nat) :
    ∀ c ∈ digits radix width n, p c := by
  obtain ⟨values, hdigits, hvalues, _⟩ := digits_eq_map htwo width n
  rw [hdigits]
  intro c hc
  obtain ⟨value, hmem, rfl⟩ := List.mem_map.1 hc
  exact hp value (hvalues value hmem)

theorem digits_ne_nil (width n : Nat) : digits radix width n ≠ [] := by
  simp [digits, List.leftpad, Nat.toDigits_ne_nil]

end Numeral

namespace Word

theorem signed_inj {w w' : Word} (h : w.signed = w'.signed) : w = w' := by
  have htwo : w.toInt16 = w'.toInt16 := Int16.toInt_inj.1 h
  simpa using congrArg Int16.toUInt16 htwo

end Word

-- A sign and the digits behind it.
theorem toList_signedNumber (n : Int) :
    (signedNumber n).toList = (if n < 0 then '-' else '+') :: Numeral.digits 10 0 n.natAbs := by
  unfold signedNumber
  split <;> simp [Numeral.digits, List.leftpad, String.toList_append]

theorem signedNumber_inj {n m : Int} (h : signedNumber n = signedNumber m) : n = m := by
  have hlist := congrArg String.toList h
  rw [toList_signedNumber, toList_signedNumber, List.cons.injEq] at hlist
  obtain ⟨hsign, hdigits⟩ := hlist
  have hnat := Numeral.digits_inj (by decide) (by decide) hdigits
  by_cases hn : n < 0 <;> by_cases hm : m < 0 <;> simp [hn, hm] at hsign <;> omega

end MicroCisc
