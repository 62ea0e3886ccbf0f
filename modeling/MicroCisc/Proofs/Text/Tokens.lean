import MicroCisc.Proofs.Text.Lines

namespace MicroCisc.Text

-- The text that comes after a word starts with a blank, unless it is empty.
def StartsBlank (text : List Char) : Prop :=
  ∀ c ∈ text.head?, isBlank c = true

-- A text consists of words and of blanks that keep them apart.
inductive IsCutInto : List Char → List (List Char) → Prop
  | blank {text : List Char} (htext : ∀ c ∈ text, isBlank c = true) : IsCutInto text []
  | word {lead word rest : List Char} {words : List (List Char)}
      (hlead : ∀ c ∈ lead, isBlank c = true) (hne : word ≠ [])
      (hword : ∀ c ∈ word, isBlank c = false) (hrest : StartsBlank rest)
      (hwords : IsCutInto rest words) : IsCutInto (lead ++ (word ++ rest)) (word :: words)

theorem tokens_append_of_forall_isBlank {lead : List Char} (hlead : ∀ c ∈ lead, isBlank c = true)
    (rest : List Char) : tokens (lead ++ rest) = tokens rest := by
  induction lead with
  | nil => rfl
  | cons c others ih =>
    obtain ⟨hc, hothers⟩ := List.forall_mem_cons.1 hlead
    rw [List.cons_append, tokens_cons_of_isBlank hc, ih hothers]

theorem tokens_append_of_startsBlank {word rest : List Char} (hne : word ≠ [])
    (hword : ∀ c ∈ word, isBlank c = false) (hrest : StartsBlank rest) :
    tokens (word ++ rest) = word :: tokens rest := by
  cases rest with
  | nil => rw [List.append_nil, tokens_eq_singleton hne hword]; rfl
  | cons blank others =>
    have hblank : isBlank blank = true := hrest blank rfl
    rw [tokens_append_cons hne hword hblank, tokens_cons_of_isBlank hblank]

theorem IsCutInto.tokens_eq {text : List Char} {words : List (List Char)}
    (h : IsCutInto text words) : tokens text = words := by
  induction h with
  | @blank text htext =>
    have hnone := tokens_append_of_forall_isBlank htext []
    rwa [List.append_nil] at hnone
  | word hlead hne hword hrest _ ih =>
    rw [tokens_append_of_forall_isBlank hlead, tokens_append_of_startsBlank hne hword hrest, ih]

theorem IsCutInto.cons_of_isBlank {c : Char} (hc : isBlank c = true) {text : List Char}
    {words : List (List Char)} (h : IsCutInto text words) : IsCutInto (c :: text) words := by
  cases h with
  | blank htext => exact .blank (List.forall_mem_cons.2 ⟨hc, htext⟩)
  | @word lead word rest _ hlead hne hword hrest hwords =>
    show IsCutInto (c :: lead ++ (word ++ rest)) _
    exact .word (List.forall_mem_cons.2 ⟨hc, hlead⟩) hne hword hrest hwords

-- A character that is no blank makes the word longer that stands right behind it, and is a word of
-- its own if none does.
theorem IsCutInto.exists_cons {c : Char} (hc : isBlank c = false) {text : List Char}
    {words : List (List Char)} (h : IsCutInto text words) : ∃ words', IsCutInto (c :: text) words' := by
  have hnone : ∀ d ∈ ([] : List Char), isBlank d = true := nofun
  have hsingle : ∀ d ∈ [c], isBlank d = false := by simpa using hc
  have alone (hstart : StartsBlank text) : ∃ words', IsCutInto (c :: text) words' :=
    ⟨_, .word hnone (List.cons_ne_nil c []) hsingle hstart h⟩
  cases h with
  | blank htext => exact alone fun d hd => htext d (List.mem_of_mem_head? hd)
  | @word lead word rest _ hlead hne hword hrest hwords =>
    cases lead with
    | nil =>
      have hlonger : ∀ d ∈ c :: word, isBlank d = false := List.forall_mem_cons.2 ⟨hc, hword⟩
      exact ⟨_, .word hnone (List.cons_ne_nil c word) hlonger hrest hwords⟩
    | cons d lead => exact alone (by simpa [StartsBlank] using hlead d List.mem_cons_self)

theorem exists_isCutInto (text : List Char) : ∃ words, IsCutInto text words := by
  induction text with
  | nil => exact ⟨[], .blank (by simp)⟩
  | cons c rest ih =>
    obtain ⟨words, hwords⟩ := ih
    by_cases hc : isBlank c = true
    · exact ⟨words, hwords.cons_of_isBlank hc⟩
    · exact hwords.exists_cons (Bool.eq_false_iff.2 hc)

-- There is one way to cut a text at its blanks, and it gives the tokens.
theorem isCutInto_iff {text : List Char} {words : List (List Char)} :
    IsCutInto text words ↔ words = tokens text := by
  constructor
  · exact fun h => h.tokens_eq.symm
  · rintro rfl
    obtain ⟨words, hwords⟩ := exists_isCutInto text
    rwa [hwords.tokens_eq]

end MicroCisc.Text
