import MicroCisc.Proofs.Image.Lines
import MicroCisc.Proofs.Text.Numeral

namespace MicroCisc

namespace Words

-- Rows of two words, the last of which may hold one, are the words again.
theorem flatMap_rows (words : List Word) : (rows words).flatMap (·.2) = words := by
  have htake (count : Nat) : ((List.range count).flatMap fun i =>
      (words.toArray.extract (2 * i) (2 * i + 2)).toList) = words.take (2 * count) := by
    induction count with
    | zero => rfl
    | succ count ih =>
      rw [List.range_succ, List.flatMap_append, ih, List.flatMap_singleton]
      simp [List.take_add, Nat.mul_add]
  have hall := htake ((words.length + 1) / 2)
  rw [List.take_of_length_le (by omega)] at hall
  rw [rows, List.flatMap_map]
  exact hall

end Words

namespace ImageLine

theorem isWord_hex (w : Word) : IsWord w.hex.toList w := by
  rw [Word.hex, Numeral.text, String.toList_ofList]
  exact ⟨_, .inl rfl, Numeral.spells_digits (by decide) 4 w.toNat⟩

theorem isNumber_hexNumber (w : Word) : IsNumber w.hexNumber.toList w := by
  have hmark : IsMarked w.hexNumber.toList (Numeral.digits 16 4 w.toNat) :=
    .inl (by simp [Word.hexNumber, Word.hex, Numeral.text])
  exact .inl ⟨_, hmark, Numeral.spells_digits (by decide) 4 w.toNat⟩

theorem ofTokens_hex (row : List Word) :
    ofTokens (row.map fun w => w.hex.toList) = .ok (.words row) := by
  refine ofTokens_eq_ok_iff.2 (.words ?_)
  rw [List.forall₂_map_left_iff, List.forall₂_same]
  exact fun w _ => isWord_hex w

theorem ofTokens_test (offset expected : Word) :
    ofTokens ["test".toList, offset.hexNumber.toList, expected.hexNumber.toList] =
      .ok (.test offset expected) := by
  have htest : isTest "test".toList = true := by decide
  exact ofTokens_eq_ok_iff.2 <|
    .test (isTest_iff.1 htest) (isNumber_hexNumber offset) (isNumber_hexNumber expected)

/-! ### The lines of an image -/

-- A character that neither ends a token nor starts a comment.
def isPlain (c : Char) : Bool :=
  !Text.isBlank c && c != '#' && c != ';'

def Plain (word : List Char) : Prop :=
  ∀ c ∈ word, isPlain c = true

theorem Plain.isBlank {word : List Char} (h : Plain word) : ∀ c ∈ word, Text.isBlank c = false := by
  intro c hc
  have hplain := h c hc
  simp only [isPlain, Bool.and_eq_true, Bool.not_eq_true'] at hplain
  exact hplain.1.1

theorem plain_hex (w : Word) : Plain w.hex.toList := by
  rw [Word.hex, Numeral.text, String.toList_ofList]
  exact Numeral.forall_mem_digits (by decide) (by decide) 4 w.toNat

theorem plain_test : Plain "test".toList :=
  List.all_eq_true.1 (by decide)

theorem plain_hexNumber (w : Word) : Plain w.hexNumber.toList := by
  have hmark : Plain "0x".toList := List.all_eq_true.1 (by decide)
  rw [Word.hexNumber, String.toList_append]
  exact List.forall_mem_append.2 ⟨hmark, plain_hex w⟩

theorem hex_ne_nil (w : Word) : w.hex.toList ≠ [] := by
  rw [Word.hex, Numeral.text, String.toList_ofList]
  exact Numeral.digits_ne_nil 4 w.toNat

theorem code_append {text : List Char} (htext : ∀ c ∈ text, c ≠ '#' ∧ c ≠ ';')
    (comment : List Char) : code (text ++ ';' :: comment) = text :=
  (isCode_iff.1 ⟨';' :: comment, rfl, htext, by simp⟩).symm

theorem code_eq_self {text : List Char} (htext : ∀ c ∈ text, c ≠ '#' ∧ c ≠ ';') :
    code text = text :=
  (isCode_iff.1 ⟨[], (List.append_nil text).symm, htext, nofun⟩).symm

theorem Plain.code {word : List Char} (h : Plain word) : ∀ c ∈ word, c ≠ '#' ∧ c ≠ ';' := by
  intro c hc
  have hplain := h c hc
  simp only [isPlain, Bool.and_eq_true, bne_iff_ne] at hplain
  exact ⟨hplain.1.2, hplain.2⟩

theorem Plain.inline {word : List Char} (h : Plain word) : ∀ c ∈ word, c ≠ '\n' ∧ c ≠ '\r' := by
  intro c hc
  have hplain := h c hc
  constructor
  · rintro rfl
    cases hplain
  · rintro rfl
    cases hplain

theorem ofText_comment (comment : List Char) : ofText ('#' :: comment) = .ok (.words []) :=
  rfl

theorem toList_test (offset expected : Word) :
    s!"test {offset.hexNumber} {expected.hexNumber}".toList =
      "test".toList ++ ' ' :: (offset.hexNumber.toList ++ ' ' :: expected.hexNumber.toList) := by
  simp only [String.toList_append, List.append_assoc]
  rfl

theorem ofText_test (offset expected : Word) :
    ofText s!"test {offset.hexNumber} {expected.hexNumber}".toList =
      .ok (.test offset expected) := by
  have hblank : Text.isBlank ' ' = true := rfl
  have hne (w : Word) : w.hexNumber.toList ≠ [] := by
    simp [Word.hexNumber, String.toList_append]
  have hcode : ∀ c ∈ "test".toList ++ ' ' :: (offset.hexNumber.toList ++ ' ' ::
      expected.hexNumber.toList), c ≠ '#' ∧ c ≠ ';' := by
    simp only [List.forall_mem_append, List.forall_mem_cons]
    exact ⟨plain_test.code, by decide, (plain_hexNumber offset).code, by decide,
      (plain_hexNumber expected).code⟩
  rw [ofText, toList_test, code_eq_self hcode,
    Text.tokens_append_cons (by decide) plain_test.isBlank hblank,
    Text.tokens_append_cons (hne offset) (plain_hexNumber offset).isBlank hblank,
    Text.tokens_eq_singleton (hne expected) (plain_hexNumber expected).isBlank, ofTokens_test]

theorem ofText_words (row : List Word) (comment : List Char) :
    ofText ([' '].intercalate (row.map fun w => w.hex.toList) ++ ' ' :: ';' :: comment) =
      .ok (.words row) := by
  have hwords : ∀ word ∈ row.map fun w => w.hex.toList,
      word ≠ [] ∧ ∀ c ∈ word, Text.isBlank c = false := by
    simp only [List.forall_mem_map]
    exact fun w _ => ⟨hex_ne_nil w, (plain_hex w).isBlank⟩
  have hcode : ∀ c ∈ [' '].intercalate (row.map fun w => w.hex.toList) ++ [' '],
      c ≠ '#' ∧ c ≠ ';' := by
    refine List.forall_mem_append.2 ⟨Text.forall_mem_intercalate (by simp) ?_, by simp⟩
    simp only [List.forall_mem_map]
    exact fun w _ => (plain_hex w).code
  have htokens := Text.tokens_intercalate hwords []
  rw [ofText, ← List.singleton_append (l := ';' :: comment), ← List.append_assoc, code_append hcode,
    htokens]
  show ofTokens (_ ++ []) = _
  rw [List.append_nil, ofTokens_hex]

end ImageLine

namespace Image

-- The lines of the image of a program, and what each of them says.
def written (program : Program) : List (String × ImageLine) :=
  [("# uCISC image", .words []), (s!"# {program.words.length} words", .words [])]
    ++ program.tests.entries.map (fun (offset, expected) =>
      (s!"test {offset.hexNumber} {expected.hexNumber}", .test offset expected))
    ++ [("", .words [])]
    ++ (Words.rows program.words).map fun (address, row) =>
      (" ".intercalate (row.map Word.hex) ++ s!" ; {Numeral.text 16 4 address}", .words row)

theorem header_eq (count : Nat) :
    s!"# uCISC image\n# {count} words\n" =
      "# uCISC image" ++ "\n" ++ (s!"# {count} words" ++ "\n") := by
  have hfirst : "# uCISC image" ++ "\n" ++ "# " = "# uCISC image\n# " := by decide
  have hlast : " words" ++ "\n" = " words\n" := by decide
  show "# uCISC image\n# " ++ toString count ++ " words\n" =
    "# uCISC image" ++ "\n" ++ ("# " ++ toString count ++ " words" ++ "\n")
  simp only [← hfirst, ← hlast, String.append_assoc]

theorem format_eq (program : Program) :
    format program = String.join ((written program).map fun line => line.1 ++ "\n") := by
  let ended (line : String × ImageLine) : String := line.1 ++ "\n"
  have hheader : String.join ([("# uCISC image", .words []),
      (s!"# {program.words.length} words", .words [])].map ended) =
        s!"# uCISC image\n# {program.words.length} words\n" := by
    rw [header_eq]
    simp only [ended, List.map_cons, List.map_nil, String.join_cons, String.join_nil,
      String.append_empty]
  have hempty : String.join ([("", .words [])].map ended) = "\n" := by decide
  have hrows : ((Words.rows program.words).map fun (address, row) => wordsLine address row) =
      (Words.rows program.words).map (ended ∘ fun (address, row) =>
        (" ".intercalate (row.map Word.hex) ++ s!" ; {Numeral.text 16 4 address}", .words row)) :=
    List.map_congr_left fun line _ => String.append_assoc.symm
  rw [written, List.map_append, List.map_append, List.map_append, String.join_append,
    String.join_append, String.join_append, hheader, hempty, List.map_map, List.map_map, ← hrows]
  rfl

theorem toList_format (program : Program) :
    (format program).toList =
      ((written program).map fun line => line.1.toList).flatMap (· ++ ['\n']) := by
  rw [format_eq, String.toList_join, List.flatMap_map, List.flatMap_map]
  simp [String.toList_append]

-- A text is one line of an image, and is read as what it was written for.
structure ReadsAs (text : String) (line : ImageLine) : Prop where
  inline : ∀ c ∈ text.toList, c ≠ '\n' ∧ c ≠ '\r'
  ofText : ImageLine.ofText text.toList = .ok line

theorem readsAs_count (count : Nat) : ReadsAs s!"# {count} words" (.words []) := by
  have hdigits : ∀ c ∈ Numeral.digits 10 0 count, c ≠ '\n' ∧ c ≠ '\r' :=
    Numeral.forall_mem_digits (by decide) (by decide) 0 count
  have htext : s!"# {count} words".toList =
      '#' :: ' ' :: (Numeral.digits 10 0 count ++ " words".toList) := by
    have hcount : (toString count).toList = Numeral.digits 10 0 count := by
      simp [Numeral.digits, List.leftpad]
    simp only [String.toList_append, List.append_assoc, hcount]
    rfl
  constructor
  · rw [htext]
    simp only [List.forall_mem_cons, List.forall_mem_append]
    exact ⟨by decide, by decide, hdigits, by simp⟩
  · rw [htext, ImageLine.ofText_comment]

theorem readsAs_test (offset expected : Word) :
    ReadsAs s!"test {offset.hexNumber} {expected.hexNumber}" (.test offset expected) := by
  constructor
  · rw [ImageLine.toList_test]
    simp only [List.forall_mem_append, List.forall_mem_cons]
    exact ⟨ImageLine.plain_test.inline, by decide, (ImageLine.plain_hexNumber offset).inline,
      by decide, (ImageLine.plain_hexNumber expected).inline⟩
  · exact ImageLine.ofText_test offset expected

theorem readsAs_row (address : Nat) (row : List Word) :
    ReadsAs (" ".intercalate (row.map Word.hex) ++ s!" ; {Numeral.text 16 4 address}")
      (.words row) := by
  have hdigits : ∀ c ∈ Numeral.digits 16 4 address, c ≠ '\n' ∧ c ≠ '\r' :=
    Numeral.forall_mem_digits (by decide) (by decide) 4 address
  have htext : (" ".intercalate (row.map Word.hex) ++ s!" ; {Numeral.text 16 4 address}").toList =
      [' '].intercalate (row.map fun w => w.hex.toList)
        ++ ' ' :: ';' :: ' ' :: Numeral.digits 16 4 address := by
    have haddress : (toString (Numeral.text 16 4 address)).toList = Numeral.digits 16 4 address :=
      String.toList_ofList
    rw [String.toList_append, String.toList_intercalate, List.map_map, String.toList_append,
      haddress]
    rfl
  constructor
  · rw [htext]
    simp only [List.forall_mem_append, List.forall_mem_cons]
    refine ⟨Text.forall_mem_intercalate (by simp) ?_, by decide, by decide, by decide, hdigits⟩
    simp only [List.forall_mem_map]
    exact fun w _ => (ImageLine.plain_hex w).inline
  · rw [htext, ImageLine.ofText_words]

theorem readsAs_written (program : Program) : ∀ line ∈ written program, ReadsAs line.1 line.2 := by
  simp only [written, List.forall_mem_append, List.forall_mem_cons, List.forall_mem_map]
  have htitle : ReadsAs "# uCISC image" (.words []) := ⟨by simp, rfl⟩
  have hempty : ReadsAs "" (.words []) := ⟨by simp, rfl⟩
  exact ⟨⟨⟨⟨htitle, readsAs_count _, by simp⟩, fun entry _ => readsAs_test entry.1 entry.2⟩,
    hempty, by simp⟩, fun line _ => readsAs_row line.1 line.2⟩

-- Lines that can be read make up a program.
theorem readLines_eq {lines : List (String × ImageLine)}
    (hlines : ∀ line ∈ lines, ReadsAs line.1 line.2) :
    readLines .ok (lines.map fun line => line.1.toList) =
      .ok (.ofImageLines (lines.map (·.2))) := by
  refine readLines_eq_ok_iff.2 ⟨_, ?_, rfl⟩
  rw [List.forall₂_map_left_iff, List.forall₂_map_right_iff, List.forall₂_same]
  exact fun line hline => reads_ok_iff.2 (ImageLine.ofText_eq_ok_iff.1 (hlines line hline).ofText)

theorem ofImageLines_written (program : Program) :
    Program.ofImageLines ((written program).map (·.2)) = program := by
  have hmeaning : (written program).map (·.2) =
      [.words [], .words []]
        ++ program.tests.entries.map (fun entry => .test entry.1 entry.2)
        ++ [.words []]
        ++ (Words.rows program.words).map fun row => .words row.2 := by
    simp only [written, List.map_append, List.map_map]
    rfl
  have hnoWords : (program.tests.entries.flatMap fun _ => ([] : List Word)) = [] :=
    List.flatMap_eq_nil_iff.2 fun _ _ => rfl
  have hnoTests :
      ((Words.rows program.words).filterMap fun _ => (none : Option Expectation)) = [] :=
    List.filterMap_eq_nil_iff.2 fun _ _ => rfl
  have htests : program.tests.entries.filterMap (fun entry => some (entry.1, entry.2)) =
      program.tests.entries :=
    List.filterMap_some
  rw [hmeaning]
  simp only [Program.ofImageLines, List.flatMap_append, List.filterMap_append, List.flatMap_map,
    List.filterMap_map, Function.comp_def, hnoWords, hnoTests, htests, Words.flatMap_rows]
  show Program.mk program.words (.ofList (program.tests.entries ++ [] ++ [])) = program
  rw [List.append_nil, List.append_nil, program.tests.ofList_entries]

-- The image of a program is read as that program.
theorem parse_format (program : Program) : parse (format program) = .ok program := by
  have hreads := readsAs_written program
  have hlines : Text.lines '\n' '\r' (format program).toList =
      (written program).map fun line => line.1.toList := by
    rw [toList_format]
    apply Text.lines_flatMap_newline
    simp only [List.forall_mem_map]
    intro line hline
    have hinline := (hreads line hline).inline
    exact ⟨fun h => (hinline _ h).1 rfl, fun h => (hinline _ h).2 rfl⟩
  rw [parse, hlines, readLines_eq hreads, ofImageLines_written]

end Image

end MicroCisc
