import Mathlib.Data.List.Nodup
import MicroCisc.Program

namespace MicroCisc

namespace Expectation

theorem lookup_cons (entry : Expectation) (rest : List Expectation) (offset : Word) :
    (entry :: rest).lookup offset = if entry.1 = offset then some entry.2 else rest.lookup offset := by
  obtain ⟨start, expected⟩ := entry
  by_cases h : start = offset
  · simp [h]
  · simp [List.lookup_cons, h, beq_eq_false_iff_ne.2 (Ne.symm h)]

theorem lookup_eq (entries : List Expectation) (offset : Word) :
    entries.lookup offset = (entries.filter (·.1 == offset)).head?.map (·.2) := by
  induction entries with
  | nil => rfl
  | cons entry rest ih =>
    rw [lookup_cons, ih]
    by_cases h : entry.1 = offset
    · simp [h]
    · simp [h]

theorem lookup_reverse_eq (entries : List Expectation) (offset : Word) :
    entries.reverse.lookup offset = (entries.filter (·.1 == offset)).getLast?.map (·.2) := by
  rw [lookup_eq, List.filter_reverse, List.head?_reverse]

theorem lookup_eq_none {entries : List Expectation} {offset : Word}
    (h : ∀ entry ∈ entries, entry.1 ≠ offset) : entries.lookup offset = none := by
  rw [List.lookup_eq_none_iff]
  intro entry hentry
  simpa using (h entry hentry).symm

-- Entries for one offset are in order wherever they stand, and so the sort leaves them in the order
-- they had.
theorem filter_mergeSort (entries : List Expectation) (offset : Word) :
    (entries.mergeSort (·.1 ≤ ·.1)).filter (·.1 == offset) = entries.filter (·.1 == offset) := by
  have hordered : (entries.filter (·.1 == offset)).Pairwise fun a b => decide (a.1 ≤ b.1) := by
    rw [List.pairwise_filter]
    refine List.pairwise_of_forall fun a b => ?_
    intro ha hb
    rw [eq_of_beq ha, eq_of_beq hb]
    simp
  have hsub := List.sublist_mergeSort decide_le_trans decide_le_total hordered List.filter_sublist
  have hkept := hsub.filter (·.1 == offset)
  simp only [List.filter_filter, Bool.and_self] at hkept
  have hperm := (List.mergeSort_perm entries (·.1 ≤ ·.1)).filter (·.1 == offset)
  exact (hkept.eq_of_length hperm.length_eq.symm).symm

-- By induction from the end of the list: an entry is dropped only in front of one for its offset,
-- which counts before it.
theorem lookup_keepLast {entries : List Expectation} (h : entries.Pairwise (·.1 ≤ ·.1))
    (offset : Word) : (keepLast entries).lookup offset = entries.reverse.lookup offset := by
  induction entries with
  | nil => rfl
  | cons first rest ih =>
    have hsorted := sorted_keepLast h
    have hrest := ih (List.pairwise_cons.1 h).2
    rw [List.reverse_cons, List.lookup_append, ← hrest]
    simp only [keepLast, List.foldr_cons] at hsorted ⊢
    generalize List.foldr _ [] rest = kept at hsorted ⊢
    rw [lookup_cons, List.lookup_nil]
    split at hsorted
    · next hhead =>
      -- the head of what is kept is for the offset of `first`
      rw [if_pos hhead]
      obtain ⟨next, hnext, hsame⟩ : ∃ next, kept.head? = some next ∧ next.1 = first.1 := by
        simpa using hhead
      obtain ⟨others, rfl⟩ := List.head?_eq_some_iff.1 hnext
      rw [lookup_cons, hsame]
      split
      · rfl
      · rw [Option.or_none]
    · next hhead =>
      -- whatever is kept is for higher offsets
      rw [if_neg hhead, lookup_cons]
      by_cases hoffset : first.1 = offset
      · have hnone : kept.lookup offset = none := lookup_eq_none fun entry hentry =>
          hoffset ▸ (UInt16.ne_of_lt ((List.pairwise_cons.1 hsorted).1 entry hentry)).symm
        rw [if_pos hoffset, if_pos hoffset, hnone, Option.none_or]
      · rw [if_neg hoffset, if_neg hoffset, Option.or_none]

theorem keepLast_eq_self {entries : List Expectation} (h : Sorted entries) :
    keepLast entries = entries := by
  induction entries with
  | nil => rfl
  | cons first rest ih =>
    obtain ⟨hfirst, hrest⟩ := List.pairwise_cons.1 h
    have hkept := ih hrest
    simp only [keepLast, List.foldr_cons] at hkept ⊢
    rw [hkept, if_neg]
    cases rest with
    | nil => simp
    | cons next others =>
      have hlt : first.1 < next.1 := hfirst next List.mem_cons_self
      simpa using (UInt16.ne_of_lt hlt).symm

end Expectation

namespace Expectations

-- Expectations that are in order already stay as they are.
theorem ofList_entries (tests : Expectations) : ofList tests.entries = tests := by
  obtain ⟨entries, hsorted⟩ := tests
  have hle : entries.Pairwise fun a b => decide (a.1 ≤ b.1) = true :=
    hsorted.imp fun h => decide_eq_true (UInt16.le_of_lt h)
  simp only [ofList, List.mergeSort_of_pairwise hle, Expectation.keepLast_eq_self hsorted]

theorem get?_ofList (entries : List Expectation) (offset : Word) :
    (ofList entries).get? offset = entries.reverse.lookup offset := by
  rw [get?, ofList, Expectation.lookup_keepLast (Expectation.pairwise_mergeSort entries),
    Expectation.lookup_reverse_eq, Expectation.filter_mergeSort, Expectation.lookup_reverse_eq]

-- What counts for an offset is its last entry.
theorem get?_ofList_eq_some_iff {entries : List Expectation} {offset expected : Word} :
    (ofList entries).get? offset = some expected ↔
      ∃ before after, entries = before ++ (offset, expected) :: after ∧
        ∀ entry ∈ after, entry.1 ≠ offset := by
  have hne (after : List Expectation) :
      (∀ entry ∈ after, (offset != entry.1) = true) ↔ ∀ entry ∈ after, entry.1 ≠ offset := by
    simp only [bne_iff_ne, ne_comm]
  rw [get?_ofList, List.lookup_eq_some_iff]
  constructor
  · rintro ⟨after, before, hentries, hafter⟩
    refine ⟨before.reverse, after.reverse, ?_, ?_⟩
    · rw [← List.reverse_inj, hentries]
      simp
    · simpa using (hne after).1 hafter
  · rintro ⟨before, after, rfl, hafter⟩
    refine ⟨after.reverse, before.reverse, by simp, ?_⟩
    rw [hne]
    simpa using hafter

theorem mem_entries_iff {tests : Expectations} {offset expected : Word} :
    (offset, expected) ∈ tests.entries ↔ tests.get? offset = some expected := by
  rw [get?, List.lookup_eq_some_iff]
  constructor
  · intro hmem
    obtain ⟨before, after, hentries⟩ := List.append_of_mem hmem
    refine ⟨before, after, hentries, fun entry hentry => ?_⟩
    have hsorted := tests.sorted
    rw [hentries] at hsorted
    have hlt : entry.1 < offset :=
      (List.pairwise_append.1 hsorted).2.2 entry hentry _ List.mem_cons_self
    simpa using (UInt16.ne_of_lt hlt).symm
  · rintro ⟨before, after, hentries, -⟩
    rw [hentries]
    simp

theorem nodup_entries (tests : Expectations) : tests.entries.Nodup :=
  tests.sorted.imp fun {entry other} hlt (heq : entry = other) =>
    UInt16.lt_irrefl entry.1 (heq ▸ hlt)

theorem ext_get? {tests others : Expectations}
    (h : ∀ offset, tests.get? offset = others.get? offset) : tests = others := by
  have hmem : ∀ entry, entry ∈ tests.entries ↔ entry ∈ others.entries := by
    rintro ⟨offset, expected⟩
    rw [mem_entries_iff, mem_entries_iff, h]
  have hperm := (List.perm_ext_iff_of_nodup tests.nodup_entries others.nodup_entries).2 hmem
  have hentries : tests.entries = others.entries :=
    hperm.eq_of_pairwise (fun a b _ _ hab hba => absurd hba (UInt16.lt_asymm hab))
      tests.sorted others.sorted
  obtain ⟨entries, _⟩ := tests
  cases hentries
  rfl

-- There is one entry for an offset at most, and so the last is the first.
theorem lookup_reverse_entries (tests : Expectations) (offset : Word) :
    tests.entries.reverse.lookup offset = tests.get? offset := by
  rw [← get?_ofList, ofList_entries]

end Expectations

end MicroCisc
