import MicroCisc.Text.Blank

namespace MicroCisc.Text

variable {α : Type} {cut : α → Bool}

theorem pieces_of_forall {piece : List α} (hpiece : ∀ item ∈ piece, cut item = false) :
    pieces cut piece = [piece] := by
  induction piece with
  | nil => rfl
  | cons item rest ih =>
    obtain ⟨hitem, hrest⟩ := List.forall_mem_cons.1 hpiece
    simp [pieces_cons, hitem, ih hrest]

theorem pieces_append_cons {piece : List α} (hpiece : ∀ item ∈ piece, cut item = false) {mark : α}
    (hmark : cut mark = true) (rest : List α) :
    pieces cut (piece ++ mark :: rest) = piece :: pieces cut rest := by
  induction piece with
  | nil => simp [pieces_cons, hmark]
  | cons item others ih =>
    obtain ⟨hitem, hothers⟩ := List.forall_mem_cons.1 hpiece
    simp [pieces_cons, hitem, ih hothers]

/-! ### Lines -/

section Lines

variable [BEq α] [LawfulBEq α] {newline carriageReturn : α}

theorem not_cut {line : List α} (hline : newline ∉ line) :
    ∀ item ∈ line, (item == newline) = false := by
  intro item hitem
  rw [beq_eq_false_iff_ne]
  rintro rfl
  exact hline hitem

theorem endedLine_eq_self {line : List α} (hline : line.getLast? ≠ some carriageReturn) :
    endedLine carriageReturn line = line :=
  if_neg fun hlast => hline (eq_of_beq hlast)

theorem endedLine_append_singleton (line : List α) :
    endedLine carriageReturn (line ++ [carriageReturn]) = line := by
  simp [endedLine]

theorem lines_of_not_mem {line : List α} (hne : line ≠ []) (hline : newline ∉ line) :
    lines newline carriageReturn line = [line] := by
  obtain ⟨first, rest, rfl⟩ := List.exists_cons_of_ne_nil hne
  simp [lines, pieces_of_forall (not_cut hline)]

theorem lines_append_cons {line : List α} (hline : newline ∉ line) (rest : List α) :
    lines newline carriageReturn (line ++ newline :: rest) =
      endedLine carriageReturn line :: lines newline carriageReturn rest := by
  have hpieces := pieces_append_cons (not_cut hline) (beq_self_eq_true newline) rest
  obtain ⟨first, others, hfound⟩ := List.exists_cons_of_ne_nil (pieces_ne_nil (· == newline) rest)
  simp only [lines, hpieces, hfound, List.dropLast_cons_cons, List.map_cons,
    List.getLast?_cons_cons]
  split <;> rfl

omit [BEq α] [LawfulBEq α] in
@[elab_as_elim]
theorem induction_on_lines {motive : List α → Prop} (newline : α)
    (last : ∀ line, newline ∉ line → motive line)
    (ended : ∀ line rest, newline ∉ line → motive rest → motive (line ++ newline :: rest))
    (items : List α) : motive items := by
  -- `front` is what stands before `items` on its line.
  have hfront : ∀ front, newline ∉ front → motive (front ++ items) := by
    induction items with
    | nil =>
      intro front hfront
      rw [List.append_nil]
      exact last front hfront
    | cons item rest ih =>
      intro front hfront
      by_cases hitem : item = newline
      · rw [hitem]
        exact ended front rest hfront (ih [] List.not_mem_nil)
      · have hlonger : newline ∉ front ++ [item] := by
          rw [List.mem_append, List.mem_singleton, not_or]
          exact ⟨hfront, Ne.symm hitem⟩
        rw [List.append_cons]
        exact ih (front ++ [item]) hlonger
  exact hfront [] List.not_mem_nil

-- Nothing stands behind the last newline.
def Whole (newline : α) (items : List α) : Prop :=
  ∀ last ∈ items.getLast?, last = newline

instance (newline : α) (items : List α) [DecidableEq α] : Decidable (Whole newline items) :=
  inferInstanceAs (Decidable (∀ last ∈ items.getLast?, last = newline))

omit [BEq α] [LawfulBEq α] in
theorem whole_append_cons_iff {line rest : List α} :
    Whole newline (line ++ newline :: rest) ↔ Whole newline rest := by
  have hlast : (line ++ newline :: rest).getLast? = some (rest.getLast?.getD newline) := by
    rw [List.getLast?_append, List.getLast?_cons, Option.some_or]
  unfold Whole
  rw [hlast]
  cases rest.getLast? <;> simp

theorem lines_append {items : List α} (hwhole : Whole newline items) (rest : List α) :
    lines newline carriageReturn (items ++ rest) =
      lines newline carriageReturn items ++ lines newline carriageReturn rest := by
  induction items using induction_on_lines newline with
  | last line hline =>
    -- A line that no newline ends can only be empty here.
    cases hlast : line.getLast? with
    | none =>
      rw [List.getLast?_eq_none_iff.1 hlast]
      rfl
    | some last => exact absurd (hwhole last hlast ▸ List.mem_of_getLast? hlast) hline
  | ended line others hline ih =>
    rw [List.append_assoc, List.cons_append, lines_append_cons hline, lines_append_cons hline,
      ih (whole_append_cons_iff.1 hwhole), List.cons_append]

theorem lines_flatMap_newline {texts : List (List α)}
    (htexts : ∀ text ∈ texts, newline ∉ text ∧ carriageReturn ∉ text) :
    lines newline carriageReturn (texts.flatMap (· ++ [newline])) = texts := by
  induction texts with
  | nil => rfl
  | cons text rest ih =>
    obtain ⟨⟨hnewline, hcarriageReturn⟩, hrest⟩ := List.forall_mem_cons.1 htexts
    have hself : endedLine carriageReturn text = text :=
      endedLine_eq_self fun hlast => hcarriageReturn (List.mem_of_getLast? hlast)
    rw [List.flatMap_cons, List.append_assoc, List.singleton_append, lines_append_cons hnewline,
      hself, ih hrest]

end Lines

/-! ### Tokens -/

theorem tokens_cons_of_isBlank {blank : Char} (hblank : isBlank blank = true) (rest : List Char) :
    tokens (blank :: rest) = tokens rest := by
  simp [tokens, pieces_cons, hblank]

theorem tokens_eq_singleton {word : List Char} (hne : word ≠ [])
    (hword : ∀ c ∈ word, isBlank c = false) : tokens word = [word] := by
  simp [tokens, pieces_of_forall hword, hne]

theorem tokens_append_cons {word : List Char} (hne : word ≠ [])
    (hword : ∀ c ∈ word, isBlank c = false) {blank : Char} (hblank : isBlank blank = true) (rest : List Char) :
    tokens (word ++ blank :: rest) = word :: tokens rest := by
  simp [tokens, pieces_append_cons hword hblank, hne]

theorem forall_mem_intercalate {p : α → Prop} {separator : List α}
    (hseparator : ∀ a ∈ separator, p a) {words : List (List α)} (hwords : ∀ word ∈ words, ∀ a ∈ word, p a) :
    ∀ a ∈ separator.intercalate words, p a := by
  induction words with
  | nil => simp
  | cons word others ih =>
    obtain ⟨hword, hothers⟩ := List.forall_mem_cons.1 hwords
    cases others with
    | nil => rwa [List.intercalate_singleton]
    | cons next others =>
      rw [List.intercalate_cons_cons]
      simp only [List.forall_mem_append]
      exact ⟨⟨hword, hseparator⟩, ih hothers⟩

theorem tokens_intercalate {words : List (List Char)}
    (hwords : ∀ word ∈ words, word ≠ [] ∧ ∀ c ∈ word, isBlank c = false) (rest : List Char) :
    tokens ([' '].intercalate words ++ ' ' :: rest) = words ++ tokens rest := by
  have hblank : isBlank ' ' = true := rfl
  induction words with
  | nil => exact tokens_cons_of_isBlank hblank rest
  | cons word others ih =>
    obtain ⟨⟨hne, hword⟩, hothers⟩ := List.forall_mem_cons.1 hwords
    cases others with
    | nil =>
      rw [List.intercalate_singleton]
      exact tokens_append_cons hne hword hblank rest
    | cons next others =>
      rw [List.intercalate_cons_cons, List.append_assoc, List.append_assoc, List.singleton_append,
        tokens_append_cons hne hword hblank, ih hothers]
      rfl

end MicroCisc.Text
