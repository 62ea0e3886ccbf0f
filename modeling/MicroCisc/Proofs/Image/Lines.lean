import MicroCisc.Proofs.Image.Grammar
import MicroCisc.Proofs.Program.Expectations

namespace MicroCisc

namespace ImageLine

-- The words that a line lists.
def listed : ImageLine → List Word
  | .words row => row
  | .test _ _ => []

-- The test that a line is a directive for.
def expectation? : ImageLine → Option Expectation
  | .words _ => none
  | .test offset expected => some (offset, expected)

theorem expectation?_eq_some_iff {line : ImageLine} {offset expected : Word} :
    line.expectation? = some (offset, expected) ↔ line = .test offset expected := by
  cases line <;> simp [expectation?]

end ImageLine

namespace Program

theorem words_ofImageLines (lines : List ImageLine) :
    (ofImageLines lines).words = lines.flatMap (·.listed) := by
  have hlisted (line : ImageLine) : line.listed = match line with
      | .words row => row
      | .test _ _ => [] := by
    cases line <;> rfl
  exact List.flatMap_congr fun line _ => (hlisted line).symm

theorem tests_ofImageLines (lines : List ImageLine) :
    (ofImageLines lines).tests = .ofList (lines.filterMap (·.expectation?)) := by
  have hlist : (lines.filterMap fun
      | .words _ => none
      | .test offset expected => some (offset, expected)) = lines.filterMap (·.expectation?) := by
    refine List.filterMap_congr fun line _ => ?_
    cases line <;> rfl
  rw [← hlist]
  rfl

-- The last directive for an offset counts.
theorem get?_ofImageLines_eq_some_iff {lines : List ImageLine} {offset expected : Word} :
    (ofImageLines lines).tests.get? offset = some expected ↔
      ∃ before after, lines = before ++ .test offset expected :: after ∧
        ∀ other, .test offset other ∉ after := by
  rw [tests_ofImageLines, Expectations.get?_ofList_eq_some_iff]
  constructor
  · rintro ⟨entries, later, hentries, hlater⟩
    obtain ⟨first, rest, rfl, -, hrest⟩ := List.filterMap_eq_append_iff.1 hentries
    obtain ⟨skipped, line, after, rfl, -, hline, hafter⟩ := List.filterMap_eq_cons_iff.1 hrest
    obtain rfl := ImageLine.expectation?_eq_some_iff.1 hline
    refine ⟨first ++ skipped, after, by simp, fun other hother => ?_⟩
    have hmem : (offset, other) ∈ later :=
      hafter ▸ List.mem_filterMap.2 ⟨_, hother, rfl⟩
    exact hlater _ hmem rfl
  · rintro ⟨before, after, rfl, hafter⟩
    refine ⟨before.filterMap (·.expectation?), after.filterMap (·.expectation?), ?_, ?_⟩
    · simp [ImageLine.expectation?]
    · rintro ⟨_, other⟩ hother rfl
      obtain ⟨line, hline, hexpectation⟩ := List.mem_filterMap.1 hother
      exact hafter other (ImageLine.expectation?_eq_some_iff.1 hexpectation ▸ hline)

end Program

namespace Image

variable {α : Type} {read : α → Except FileError (List Char)}

-- One line with its number.
def readLine (read : α → Except FileError (List Char)) (line : α) (number : Nat) :
    Except ImageError ImageLine := do
  let text ← (read line).mapError .file
  (ImageLine.ofText text).mapError (.line number)

-- A line can be read, and fits the grammar.
def Reads (read : α → Except FileError (List Char)) (line : α) (meaning : ImageLine) : Prop :=
  ∃ text, read line = .ok text ∧ ImageLine.Says text meaning

theorem readLine_eq_ok_iff {line : α} {number : Nat} {meaning : ImageLine} :
    readLine read line number = .ok meaning ↔ Reads read line meaning := by
  simp only [readLine, bind_eq_ok_iff, mapError_eq_ok_iff, ImageLine.ofText_eq_ok_iff, Reads]

theorem readLines_eq_mapM (lines : List α) :
    readLines read lines = ((lines.zipIdx 1).mapM fun line => readLine read line.1 line.2) >>=
      fun found => .ok (.ofImageLines found) :=
  rfl

theorem readLines_eq_ok_iff {lines : List α} {program : Program} :
    readLines read lines = .ok program ↔
      ∃ meanings, List.Forall₂ (Reads read) lines meanings ∧
        program = .ofImageLines meanings := by
  have hlines (meanings : List ImageLine) :
      List.Forall₂ (fun line meaning => Reads read line.1 meaning) (lines.zipIdx 1) meanings ↔
        List.Forall₂ (Reads read) lines meanings := by
    rw [← List.forall₂_map_left_iff, List.zipIdx_map_fst]
  rw [readLines_eq_mapM, bind_eq_ok_iff]
  simp only [mapM_eq_ok_iff, readLine_eq_ok_iff, hlines, Except.ok.injEq]
  constructor
  · rintro ⟨meanings, hmeanings, rfl⟩
    exact ⟨meanings, hmeanings, rfl⟩
  · rintro ⟨meanings, hmeanings, rfl⟩
    exact ⟨meanings, hmeanings, rfl⟩

-- Whether a line can be read does not depend on its number.
theorem readLines_eq_error_iff {lines : List α} {error : ImageError} :
    readLines read lines = .error error ↔
      ∃ before line after, lines = before ++ line :: after ∧
        (∀ earlier ∈ before, ∃ meaning, Reads read earlier meaning) ∧
        readLine read line (before.length + 1) = .error error := by
  rw [readLines_eq_mapM, bind_eq_error_iff, mapM_eq_error_iff]
  simp only [readLine_eq_ok_iff, reduceCtorEq, and_false, exists_false, or_false]
  constructor
  · rintro ⟨before, ⟨line, number⟩, after, hnumbered, hbefore, herror⟩
    obtain ⟨first, rest, rfl, rfl, hrest⟩ := List.zipIdx_eq_append_iff.1 hnumbered
    obtain ⟨_, after, rfl, hline, -⟩ := List.zipIdx_eq_cons_iff.1 hrest.symm
    cases hline
    refine ⟨first, line, after, rfl, fun earlier hearlier => ?_, Nat.add_comm 1 _ ▸ herror⟩
    rw [← List.zipIdx_map_fst 1 first] at hearlier
    obtain ⟨numbered, hmem, rfl⟩ := List.mem_map.1 hearlier
    exact hbefore numbered hmem
  · rintro ⟨before, line, after, rfl, hbefore, herror⟩
    refine ⟨before.zipIdx 1, (line, before.length + 1), after.zipIdx (before.length + 2), ?_,
      fun earlier hearlier => hbefore earlier.1 (List.fst_mem_of_mem_zipIdx hearlier), herror⟩
    rw [List.zipIdx_append, List.zipIdx_cons, Nat.add_comm 1]

theorem readLines_map {β : Type} (f : β → α) (lines : List β) :
    readLines read (lines.map f) = readLines (fun line => read (f line)) lines := by
  rw [readLines_eq_mapM, readLines_eq_mapM, List.zipIdx_map, List.mapM_map]
  rfl

/-! ### Texts -/

-- The lines of a text.
def linesOf (text : String) : List (List Char) :=
  Text.lines '\n' '\r' text.toList

theorem reads_ok_iff {line : List Char} {meaning : ImageLine} :
    Reads .ok line meaning ↔ ImageLine.Says line meaning := by
  simp [Reads]

theorem parse_eq_ok_iff {text : String} {program : Program} :
    parse text = .ok program ↔ ∃ meanings,
      List.Forall₂ ImageLine.Says (linesOf text) meanings ∧ program = .ofImageLines meanings := by
  have hreads : Reads (.ok : List Char → _) = ImageLine.Says :=
    funext₂ fun _ _ => propext reads_ok_iff
  rw [← hreads]
  exact readLines_eq_ok_iff

theorem readLine_ok_eq_error_iff {line : List Char} {number : Nat} {error : ImageError} :
    readLine .ok line number = .error error ↔
      ∃ cause, ImageLine.ofText line = .error cause ∧ error = .line number cause := by
  show (ImageLine.ofText line).mapError (.line number) = .error error ↔ _
  exact mapError_eq_error_iff

theorem parse_eq_error_iff {text : String} {error : ImageError} :
    parse text = .error error ↔
      ∃ before line after cause, linesOf text = before ++ line :: after ∧
        (∀ earlier ∈ before, ImageLine.Fits earlier) ∧
        ImageLine.ofText line = .error cause ∧ error = .line (before.length + 1) cause := by
  refine readLines_eq_error_iff.trans ?_
  simp only [readLine_ok_eq_error_iff, reads_ok_iff]
  constructor
  · rintro ⟨before, line, after, hlines, hbefore, cause, hcause, herror⟩
    exact ⟨before, line, after, cause, hlines, hbefore, hcause, herror⟩
  · rintro ⟨before, line, after, cause, hlines, hbefore, hcause, herror⟩
    exact ⟨before, line, after, hlines, hbefore, cause, hcause, herror⟩

theorem not_fits_iff {line : List Char} :
    ¬ ImageLine.Fits line ↔ ∃ cause, ImageLine.ofText line = .error cause := by
  simp only [ImageLine.Fits, ← ImageLine.ofText_eq_ok_iff]
  cases ImageLine.ofText line <;> simp

-- A text image is read exactly if each of its lines fits the grammar. Its words are then those that
-- the lines list, in their order, and for each offset the last directive counts. The error of an
-- image that is not read has the number of the first line that does not fit, and any image that has
-- the same lines up to there gets the same error.
theorem parse_accepts_grammar (text : String) :
    ((∃ program, parse text = .ok program) ↔ ∀ line ∈ linesOf text, ImageLine.Fits line) ∧
    (∀ program, parse text = .ok program →
      ∃ meanings, List.Forall₂ ImageLine.Says (linesOf text) meanings ∧
        program.words = meanings.flatMap (·.listed) ∧
        ∀ offset expected, program.tests.get? offset = some expected ↔
          ∃ before after, meanings = before ++ .test offset expected :: after ∧
            ∀ other, .test offset other ∉ after) ∧
    ∀ error, parse text = .error error →
      ∃ before line after cause, linesOf text = before ++ line :: after ∧
        (∀ earlier ∈ before, ImageLine.Fits earlier) ∧ ¬ ImageLine.Fits line ∧
        ImageLine.ofText line = .error cause ∧ error = .line (before.length + 1) cause ∧
        ∀ other, before ++ [line] <+: linesOf other → parse other = .error error := by
  refine ⟨?_, ?_, ?_⟩
  · simp only [parse_eq_ok_iff, ImageLine.Fits, ← exists_forall₂_iff]
    constructor
    · rintro ⟨program, meanings, hmeanings, -⟩
      exact ⟨meanings, hmeanings⟩
    · rintro ⟨meanings, hmeanings⟩
      exact ⟨_, meanings, hmeanings, rfl⟩
  · intro program hparse
    obtain ⟨meanings, hmeanings, rfl⟩ := parse_eq_ok_iff.1 hparse
    exact ⟨meanings, hmeanings, Program.words_ofImageLines meanings,
      fun _ _ => Program.get?_ofImageLines_eq_some_iff⟩
  · intro error hparse
    obtain ⟨before, line, after, cause, hlines, hbefore, hcause, herror⟩ :=
      parse_eq_error_iff.1 hparse
    refine ⟨before, line, after, cause, hlines, hbefore, not_fits_iff.2 ⟨cause, hcause⟩, hcause,
      herror, ?_⟩
    rintro other ⟨rest, hother⟩
    refine parse_eq_error_iff.2 ⟨before, line, rest, cause, ?_, hbefore, hcause, herror⟩
    rw [← hother, List.append_assoc, List.singleton_append]

-- Both directives are for one offset. With one digit more the second line lists no word, and then
-- what comes after it has no part in the error.
theorem parse_accepts_grammar_two_directives :
    (∃ program, parse "TEST +0 0x42 # halts\r\n41c0 0X0042\ntest 0 7" = .ok program ∧
      program.words = [0x41C0, 0x42] ∧ program.tests.get? 0 = some 7) ∧
    ∀ other, ["TEST +0 0x42 # halts".toList, "41c0 0X10042".toList] <+: linesOf other →
      parse other = .error (.line 2 (.notAWord "0X10042".toList)) := by
  have htest : ImageLine.ofText "TEST +0 0x42 # halts".toList = .ok (.test 0 0x42) := by
    decide +kernel
  have hwords : ImageLine.ofText "41c0 0X0042".toList = .ok (.words [0x41C0, 0x42]) := by
    decide +kernel
  have hagain : ImageLine.ofText "test 0 7".toList = .ok (.test 0 7) := by decide +kernel
  constructor
  · have hlines : linesOf "TEST +0 0x42 # halts\r\n41c0 0X0042\ntest 0 7" =
        ["TEST +0 0x42 # halts".toList, "41c0 0X0042".toList, "test 0 7".toList] := by
      decide +kernel
    obtain ⟨haccepts, hprogram, -⟩ :=
      parse_accepts_grammar "TEST +0 0x42 # halts\r\n41c0 0X0042\ntest 0 7"
    obtain ⟨program, hparse⟩ := haccepts.2 <| by
      rw [hlines]
      simp only [ImageLine.Fits, ← ImageLine.ofText_eq_ok_iff, List.forall_mem_cons]
      exact ⟨⟨_, htest⟩, ⟨_, hwords⟩, ⟨_, hagain⟩, List.forall_mem_nil _⟩
    obtain ⟨meanings, hmeanings, hlisted, hexpected⟩ := hprogram program hparse
    rw [hlines] at hmeanings
    simp only [List.forall₂_cons_left_iff, List.forall₂_nil_left_iff,
      ← ImageLine.ofText_eq_ok_iff, htest, hwords, hagain, Except.ok.injEq] at hmeanings
    obtain ⟨_, _, rfl, ⟨_, _, rfl, ⟨_, _, rfl, rfl, rfl⟩, rfl⟩, rfl⟩ := hmeanings
    exact ⟨program, hparse, hlisted, (hexpected 0 7).2
      ⟨[.test 0 0x42, .words [0x41C0, 0x42]], [], rfl, by simp⟩⟩
  · have hlines : linesOf "TEST +0 0x42 # halts\r\n41c0 0X10042\ntest 0 7" =
        ["TEST +0 0x42 # halts".toList, "41c0 0X10042".toList, "test 0 7".toList] := by
      decide +kernel
    have herror : parse "TEST +0 0x42 # halts\r\n41c0 0X10042\ntest 0 7" =
        .error (.line 2 (.notAWord "0X10042".toList)) := by
      decide +kernel
    obtain ⟨before, line, after, cause, hsplit, -, -, -, hnumber, hsame⟩ :=
      (parse_accepts_grammar "TEST +0 0x42 # halts\r\n41c0 0X10042\ntest 0 7").2.2 _ herror
    have hlength : before.length = 1 := (Nat.succ.inj (ImageError.line.inj hnumber).1).symm
    obtain ⟨first, rfl⟩ := List.length_eq_one_iff.1 hlength
    rw [hlines] at hsplit
    obtain ⟨rfl, hrest⟩ := List.cons.inj hsplit
    obtain ⟨rfl, -⟩ := List.cons.inj hrest
    exact hsame

end Image

end MicroCisc
