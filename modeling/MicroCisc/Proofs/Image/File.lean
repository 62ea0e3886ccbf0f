import MicroCisc.Proofs.Image.Lines
import MicroCisc.Proofs.Text.Utf8

namespace MicroCisc.Image

-- The characters of a line in a file.
def decode (line : List UInt8) : Except FileError (List Char) :=
  match Text.ofBytes? line with
  | some text => .ok text.toList
  | none => .error .notText

theorem decode_encode (line : List Char) : decode (Text.encode line) = .ok line := by
  rw [decode, Text.ofBytes?_encode]
  exact congrArg Except.ok String.toList_ofList

theorem decode_of_notText {line : List UInt8} (hline : Text.ofBytes? line = none) :
    decode line = .error .notText := by
  rw [decode, hline]

theorem parseBytes_eq (bytes : List UInt8) :
    parseBytes bytes = readLines decode (Text.lines 10 13 bytes) :=
  rfl

theorem readLines_encode (lines : List (List Char)) :
    readLines decode (lines.map Text.encode) = readLines .ok lines := by
  rw [readLines_map]
  exact congrArg (fun read => readLines read lines) (funext decode_encode)

theorem parseBytes_toBytes (text : String) : parseBytes (Text.toBytes text) = parse text := by
  rw [parseBytes_eq, Text.lines_toBytes, readLines_encode]
  rfl

/-! ### Bytes that are not text -/

variable {α : Type} {read : α → Except FileError (List Char)} {lines : List α}

-- The lines after an error have no part in it.
theorem readLines_append_of_error {error : ImageError} (herror : readLines read lines = .error error)
    (others : List α) : readLines read (lines ++ others) = .error error := by
  obtain ⟨before, line, after, rfl, hbefore, hline⟩ := readLines_eq_error_iff.1 herror
  exact readLines_eq_error_iff.2 ⟨before, line, after ++ others, by simp, hbefore, hline⟩

theorem readLines_append_cons_of_unread {program : Program} (hlines : readLines read lines = .ok program)
    {line : α} {cause : FileError} (hline : read line = .error cause) (others : List α) :
    readLines read (lines ++ line :: others) = .error (.file cause) := by
  obtain ⟨meanings, hmeanings, -⟩ := readLines_eq_ok_iff.1 hlines
  refine readLines_eq_error_iff.2 ⟨lines, line, others, rfl, ?_, ?_⟩
  · exact exists_forall₂_iff.1 ⟨meanings, hmeanings⟩
  · rw [readLine, hline]
    rfl

theorem parseBytes_of_firstBadLine {bytes line below : List UInt8} {above : String}
    (hbytes : Text.FirstBadLine bytes above line below) :
    parseBytes bytes = match parse above with
      | .ok _ => .error (.file .notText)
      | .error error => .error error := by
  obtain ⟨bad, others, hbad, hlines⟩ := hbytes.lines_eq
  have habove : readLines decode ((linesOf above).map Text.encode) = parse above :=
    readLines_encode (linesOf above)
  rw [parseBytes_eq, hlines]
  cases hparse : parse above with
  | ok program =>
    exact readLines_append_cons_of_unread (habove.trans hparse) (decode_of_notText hbad) others
  | error error => exact readLines_append_of_error (habove.trans hparse) (bad :: others)

-- A file of text is read as that text is. A file of anything else has a first line that is not text,
-- and is read up to there: the first line that does not fit the grammar is its error, and without
-- one it is an error that the line is not text.
theorem parseBytes_agrees_with_parse (bytes : List UInt8) :
    (∀ text, Text.ofBytes? bytes = some text → parseBytes bytes = parse text) ∧
    (Text.ofBytes? bytes = none → ∃ above line below, Text.FirstBadLine bytes above line below) ∧
    ∀ above line below, Text.FirstBadLine bytes above line below →
      ((∀ earlier ∈ linesOf above, ImageLine.Fits earlier) →
        parseBytes bytes = .error (.file .notText)) ∧
      ∀ before faulty after cause, linesOf above = before ++ faulty :: after →
        (∀ earlier ∈ before, ImageLine.Fits earlier) → ImageLine.ofText faulty = .error cause →
        parseBytes bytes = .error (.line (before.length + 1) cause) := by
  refine ⟨?_, Text.exists_firstBadLine, ?_⟩
  · intro text htext
    rw [Text.ofBytes?_eq_some_iff.1 htext, parseBytes_toBytes]
  · intro above line below hbytes
    have hread := parseBytes_of_firstBadLine hbytes
    constructor
    · intro hfits
      obtain ⟨meanings, hmeanings⟩ := exists_forall₂_iff.2 hfits
      rw [hread, parse_eq_ok_iff.2 ⟨meanings, hmeanings, rfl⟩]
    · intro before faulty after cause hlines hbefore hcause
      rw [hread, parse_eq_error_iff.2 ⟨before, faulty, after, cause, hlines, hbefore, hcause, rfl⟩]

-- The carriage return before a newline belongs to no line, and any other is a blank. In the other
-- files a line is the byte 0xFF, which is in no text.
theorem parseBytes_agrees_with_parse_line_ends :
    parseBytes [0x34, 0x31, 0x63, 0x30, 13, 10, 0x30, 13, 0x7A, 0x7A, 13] =
      .error (.line 2 (.notAWord ['z', 'z'])) ∧
    parseBytes [0x34, 0x31, 0x63, 0x30, 13, 10, 0xFF, 10, 0x7A] = .error (.file .notText) ∧
    parseBytes [0x7A, 0x7A, 10, 0xFF] = .error (.line 1 (.notAWord ['z', 'z'])) := by
  refine ⟨?_, ?_, ?_⟩
  · have htext : Text.ofBytes? [0x34, 0x31, 0x63, 0x30, 13, 10, 0x30, 13, 0x7A, 0x7A, 13] =
        some "41c0\r\n0\rzz\r" := Text.ofBytes?_eq_some_iff.2 rfl
    rw [(parseBytes_agrees_with_parse _).1 _ htext]
    decide +kernel
  · have hbad : Text.FirstBadLine [0x34, 0x31, 0x63, 0x30, 13, 10, 0xFF, 10, 0x7A] "41c0\r\n" [0xFF]
        [10, 0x7A] :=
      ⟨rfl, by decide, by decide +kernel, by decide, .inr ⟨[0x7A], rfl⟩⟩
    refine ((parseBytes_agrees_with_parse _).2.2 _ _ _ hbad).1 ?_
    have hlines : linesOf "41c0\r\n" = [['4', '1', 'c', '0']] := by decide +kernel
    have hword : ImageLine.ofText ['4', '1', 'c', '0'] = .ok (.words [0x41C0]) := by decide +kernel
    rw [hlines]
    exact List.forall_mem_singleton.2 ⟨_, ImageLine.ofText_eq_ok_iff.1 hword⟩
  · have hbad : Text.FirstBadLine [0x7A, 0x7A, 10, 0xFF] "zz\n" [0xFF] [] :=
      ⟨rfl, by decide, by decide +kernel, by decide, .inl rfl⟩
    have hlines : linesOf "zz\n" = [] ++ ['z', 'z'] :: [] := by decide +kernel
    have hfaulty : ImageLine.ofText ['z', 'z'] = .error (.notAWord ['z', 'z']) := by decide +kernel
    exact ((parseBytes_agrees_with_parse _).2.2 _ _ _ hbad).2 _ _ _ _ hlines nofun hfaulty

end MicroCisc.Image
