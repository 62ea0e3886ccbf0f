import MicroCisc.Json.Reader
import MicroCisc.Proofs.Json.Format
import MicroCisc.Proofs.Json.Written
import MicroCisc.Proofs.Text.Numeral

namespace MicroCisc

namespace JsonReader

open Json (Clean Plain PlainScalar written lead lines inner ending quoted)

variable {α β σ ι : Type}

theorem run_bind_of_run {reader : JsonReader α} {next : α → JsonReader β} {text rest : List Char}
    {found : α} (h : reader.run text = .ok (found, rest)) :
    (reader >>= next).run text = (next found).run rest := by
  rw [StateT.run_bind, h]
  rfl

/-! ### Blanks and signs -/

def Blank (text : List Char) : Prop :=
  ∀ c ∈ text, isBlank c = true

theorem Blank.nil : Blank [] := by
  simp [Blank]

theorem Blank.cons {c : Char} (hc : isBlank c = true) {text : List Char} (h : Blank text) :
    Blank (c :: text) :=
  List.forall_mem_cons.2 ⟨hc, h⟩

theorem Blank.inner {margin : List Char} (h : Blank margin) : Blank (Json.inner margin) := by
  have hstep : Blank [' ', ' '] := .cons rfl (.cons rfl .nil)
  exact List.forall_mem_append.2 ⟨h, hstep⟩

theorem Blank.ending {margin : List Char} (h : Blank margin) (parts : List (List Char)) :
    Blank (Json.ending margin parts) := by
  unfold Json.ending
  split
  · exact .nil
  · exact .cons rfl h

theorem run_peek? {blanks : List Char} (hblanks : Blank blanks) {c : Char}
    (hc : isBlank c = false) (rest : List Char) :
    peek?.run (blanks ++ c :: rest) = .ok (some c, c :: rest) := by
  have hdrop : (blanks ++ c :: rest).dropWhile isBlank = c :: rest := by
    rw [List.dropWhile_append_of_pos hblanks, List.dropWhile_cons_of_neg (by simp [hc])]
  simp only [peek?, skipBlanks, StateT.run_bind, StateT.run_modify, hdrop]
  rfl

theorem run_peek {blanks : List Char} (hblanks : Blank blanks) {c : Char}
    (hc : isBlank c = false) (rest : List Char) :
    peek.run (blanks ++ c :: rest) = .ok (c, c :: rest) := by
  rw [peek, run_bind_of_run (run_peek? hblanks hc rest)]
  rfl

theorem run_peek_cons {c : Char} (hc : isBlank c = false) (rest : List Char) :
    peek.run (c :: rest) = .ok (c, c :: rest) :=
  run_peek .nil hc rest

theorem run_dropOne (c : Char) (rest : List Char) : dropOne.run (c :: rest) = .ok ((), rest) :=
  rfl

theorem run_expect {blanks : List Char} (hblanks : Blank blanks) {c : Char}
    (hc : isBlank c = false) (rest : List Char) :
    (expect c).run (blanks ++ c :: rest) = .ok ((), rest) := by
  rw [expect, run_bind_of_run (run_peek hblanks hc rest), if_pos (beq_self_eq_true c)]
  rfl

/-! ### Numbers -/

-- A number that stands before this text ends there.
def Ends (rest : List Char) : Prop :=
  ∀ c ∈ rest.head?, c.isDigit = false ∧ c ≠ '.' ∧ c ≠ 'e' ∧ c ≠ 'E'

theorem Ends.nil : Ends [] := by
  simp [Ends]

theorem ends_of_isBlank {c : Char} (hc : isBlank c = true) (rest : List Char) :
    Ends (c :: rest) := by
  simp only [isBlank, Bool.or_eq_true, beq_iff_eq] at hc
  rcases hc with ((rfl | rfl) | rfl) | rfl <;> simp [Ends]

-- The digits of a number, which starts with a zero only if it is one.
structure AreWhole (values : List Nat) : Prop where
  lt_ten : ∀ value ∈ values, value < 10
  ne_nil : values ≠ []
  lead_zero : values.head? = some 0 → values = [0]

theorem exists_areWhole (n : Nat) :
    ∃ values, AreWhole values ∧ Nat.toDigits 10 n = values.map Nat.digitChar ∧
      Numeral.ofDigits 10 values = n := by
  obtain ⟨values, hdigits, hvalues, hvalue⟩ := Numeral.toDigits_eq_map (by decide : 2 ≤ 10) n
  refine ⟨values, ⟨hvalues, ?_, ?_⟩, hdigits, hvalue⟩
  · rintro rfl
    exact Nat.toDigits_ne_nil hdigits
  · intro hzero
    by_cases hn : n = 0
    · have hlength := congrArg List.length hdigits
      rw [hn, List.length_map] at hlength
      obtain ⟨value, rfl⟩ := List.length_eq_one_iff.1 hlength.symm
      simpa using hzero
    · have hlead := Numeral.head?_toDigits_ne (by decide : 2 ≤ 10) hn
      simp [hdigits, hzero] at hlead

theorem isDigit_digitChar {value : Nat} (h : value < 10) : value.digitChar.isDigit = true := by
  have hall : ∀ value : Fin 10, value.val.digitChar.isDigit = true := by decide
  exact hall ⟨value, h⟩

theorem toNat_digitChar {value : Nat} (h : value < 10) :
    value.digitChar.toNat - '0'.toNat = value := by
  have hall : ∀ value : Fin 10, value.val.digitChar.toNat - '0'.toNat = value.val := by decide
  exact hall ⟨value, h⟩

theorem run_digits {values : List Nat} (hvalues : ∀ value ∈ values, value < 10)
    {rest : List Char} (hrest : Ends rest) :
    digits.run (values.map Nat.digitChar ++ rest) = .ok (values, rest) := by
  have hdigits : ∀ c ∈ values.map Nat.digitChar, c.isDigit = true := by
    intro c hc
    obtain ⟨value, hmem, rfl⟩ := List.mem_map.1 hc
    exact isDigit_digitChar (hvalues value hmem)
  have hstop : rest.takeWhile Char.isDigit = [] ∧ rest.dropWhile Char.isDigit = rest := by
    cases rest with
    | nil => simp
    | cons c more => simp [hrest c rfl]
  have hback : (values.map Nat.digitChar).map (fun c => c.toNat - '0'.toNat) = values := by
    rw [List.map_map]
    exact (List.map_congr_left fun value hmem => toNat_digitChar (hvalues value hmem)).trans
      (List.map_id values)
  simp only [digits, StateT.run_bind, StateT.run_get]
  show Except.ok _ = _
  rw [List.takeWhile_append_of_pos hdigits, List.dropWhile_append_of_pos hdigits, hstop.1, hstop.2,
    List.append_nil, hback]

theorem AreWhole.run_someDigits {values : List Nat} (h : AreWhole values) (reading : Reading)
    {rest : List Char} (hrest : Ends rest) :
    (someDigits reading).run (values.map Nat.digitChar ++ rest) = .ok (values, rest) := by
  rw [someDigits, run_bind_of_run (run_digits h.lt_ten hrest)]
  cases values with
  | nil => exact absurd rfl h.ne_nil
  | cons value values => rfl

theorem AreWhole.run_wholeDigits {values : List Nat} (h : AreWhole values) (reading : Reading)
    {rest : List Char} (hrest : Ends rest) :
    (wholeDigits reading).run (values.map Nat.digitChar ++ rest) = .ok (values, rest) := by
  rw [wholeDigits, run_bind_of_run (h.run_someDigits reading hrest)]
  have hlead := h.lead_zero
  split
  · simp at hlead
  · rfl

theorem run_minus {c : Char} (hc : c ≠ '-') (rest : List Char) :
    minus.run (c :: rest) = .ok (false, c :: rest) := by
  simp only [minus, StateT.run_bind, StateT.run_get, pure_bind]
  split
  · next heq => exact absurd (List.cons.inj heq).1 hc
  · rfl

theorem run_fraction? (reading : Reading) {rest : List Char} (hrest : Ends rest) :
    (fraction? reading).run rest = .ok (none, rest) := by
  simp only [fraction?, StateT.run_bind, StateT.run_get, pure_bind]
  split
  · exact absurd rfl (hrest '.' rfl).2.1
  · rfl

theorem run_exponent? (reading : Reading) {rest : List Char} (hrest : Ends rest) :
    (exponent? reading).run rest = .ok (none, rest) := by
  simp only [exponent?, StateT.run_bind, StateT.run_get, pure_bind]
  split
  · exact absurd rfl (hrest 'e' rfl).2.2.1
  · exact absurd rfl (hrest 'E' rfl).2.2.2
  · rfl

theorem AreWhole.run_number {values : List Nat} (h : AreWhole values) (reading : Reading)
    {rest : List Char} (hrest : Ends rest) :
    (number reading).run (values.map Nat.digitChar ++ rest) =
      .ok (⟨false, values, none, none⟩, rest) := by
  have hminus : minus.run (values.map Nat.digitChar ++ rest) =
      .ok (false, values.map Nat.digitChar ++ rest) := by
    obtain ⟨value, more, rfl⟩ := List.exists_cons_of_ne_nil h.ne_nil
    have hdigit := isDigit_digitChar (h.lt_ten value List.mem_cons_self)
    refine run_minus ?_ _
    intro hsign
    rw [hsign] at hdigit
    cases hdigit
  rw [number, run_bind_of_run hminus, run_bind_of_run (h.run_wholeDigits reading hrest),
    run_bind_of_run (run_fraction? reading hrest), run_bind_of_run (run_exponent? reading hrest)]
  rfl

theorem run_numberValue {n : Nat} (hn : n < UInt64.size) {rest : List Char} (hrest : Ends rest) :
    numberValue.run (Nat.toDigits 10 n ++ rest) = .ok (.natural n, rest) := by
  obtain ⟨values, hwhole, hdigits, hvalue⟩ := exists_areWhole n
  have hbelow : Numeral.ofDigits 10 values < UInt64.size := by rwa [hvalue]
  rw [hdigits, numberValue, run_bind_of_run (hwhole.run_number .kept hrest),
    WrittenNumber.value?_natural hbelow, hvalue]
  rfl

/-! ### Texts -/

theorem textBody_append {body : List Char} (hbody : ∀ c ∈ body, c ≠ '"' ∧ c ≠ '\\' ∧ ¬ c < ' ')
    (reading : Reading) (found rest : List Char) :
    textBody reading found (body ++ '"' :: rest) = .ok (found.reverse ++ body, rest) := by
  induction body generalizing found with
  | nil => simp [textBody]
  | cons c body ih =>
    obtain ⟨⟨hquote, hslash, hcontrol⟩, hbody⟩ := List.forall_mem_cons.1 hbody
    simp [textBody, hslash, hcontrol, ih hbody]

theorem run_text {name : String} (hname : Clean name) (rest : List Char) :
    (text .kept).run (quoted name ++ rest) = .ok (name, rest) := by
  have hquoted : quoted name ++ rest = '"' :: (name.toList ++ '"' :: rest) := by
    simp [quoted]
  rw [hquoted]
  refine (run_bind_of_run (run_expect .nil rfl _)).trans ?_
  simp only [StateT.run_bind, StateT.run_get, pure_bind, textBody_append hname, List.reverse_nil,
    List.nil_append]
  show Except.ok (String.ofList name.toList, rest) = .ok (name, rest)
  rw [String.ofList_toList]

/-! ### Scalars -/

theorem ne_of_isDigit {c d : Char} (hc : c.isDigit = true) (hd : d.isDigit = false) : c ≠ d := by
  rintro rfl
  simp [hc] at hd

theorem isBlank_of_isDigit {c : Char} (hc : c.isDigit = true) : isBlank c = false := by
  simp [isBlank, ne_of_isDigit hc]

theorem word?_of_isDigit {c : Char} (hc : c.isDigit = true) : word? c = none := by
  unfold word?
  split <;> first | cases hc | rfl

theorem head?_toDigits (n : Nat) :
    ∃ c, (Nat.toDigits 10 n).head? = some c ∧ c.isDigit = true := by
  obtain ⟨values, hwhole, hdigits, -⟩ := exists_areWhole n
  obtain ⟨value, more, rfl⟩ := List.exists_cons_of_ne_nil hwhole.ne_nil
  exact ⟨value.digitChar, by rw [hdigits]; rfl,
    isDigit_digitChar (hwhole.lt_ten value List.mem_cons_self)⟩

-- The bracket that a value is written in.
def bracket? : Json → Option Bracket
  | .list _ => some .list
  | .object _ => some .object
  | .null | .bool _ | .natural _ | .decimal .. | .text _ => none

theorem openedBy?_of_isDigit {c : Char} (hc : c.isDigit = true) : openedBy? c = none := by
  unfold openedBy?
  split <;> first | cases hc | rfl

-- The first character of a value opens its bracket, and ends no list.
theorem head?_written (value : Json) :
    ∃ c, (∀ margin, (value.written margin).head? = some c) ∧ isBlank c = false ∧ c ≠ ']' ∧
      openedBy? c = bracket? value := by
  cases value with
  | null => exact ⟨'n', fun _ => rfl, by decide, by decide, rfl⟩
  | bool value =>
    cases value with
    | true => exact ⟨'t', fun _ => rfl, by decide, by decide, rfl⟩
    | false => exact ⟨'f', fun _ => rfl, by decide, by decide, rfl⟩
  | natural value =>
    obtain ⟨c, hhead, hdigit⟩ := head?_toDigits value
    exact ⟨c, fun _ => hhead, isBlank_of_isDigit hdigit, ne_of_isDigit hdigit rfl,
      openedBy?_of_isDigit hdigit⟩
  | decimal negative significand exponent =>
    cases negative with
    | true =>
      refine ⟨'-', fun _ => ?_, by decide, by decide, rfl⟩
      simp [written, Json.decimalText]
    | false =>
      obtain ⟨c, hhead, hdigit⟩ := head?_toDigits significand
      refine ⟨c, fun _ => ?_, isBlank_of_isDigit hdigit, ne_of_isDigit hdigit rfl,
        openedBy?_of_isDigit hdigit⟩
      simp [written, Json.decimalText, toString, Nat.repr, List.head?_append, hhead]
  | text value => exact ⟨'"', fun _ => rfl, by decide, by decide, rfl⟩
  | list items => exact ⟨'[', fun _ => rfl, by decide, by decide, rfl⟩
  | object members => exact ⟨'\x7b', fun _ => rfl, by decide, by decide, rfl⟩

-- A value at the front of a text, with blanks before it.
theorem run_peek_written {margin blanks : List Char} (hblanks : Blank blanks) {value : Json} {c : Char}
    (hhead : (value.written margin).head? = some c) (hc : isBlank c = false) (rest : List Char) :
    peek.run (blanks ++ (value.written margin ++ rest)) =
      .ok (c, value.written margin ++ rest) := by
  obtain ⟨more, hmore⟩ := List.head?_eq_some_iff.1 hhead
  rw [hmore, List.cons_append]
  exact run_peek hblanks hc (more ++ rest)

theorem run_scalar {value : Json} (h : PlainScalar value) (margin : List Char) {rest : List Char}
    (hrest : Ends rest) : scalar.run (value.written margin ++ rest) = .ok (value, rest) := by
  obtain ⟨c, hhead, hc, -⟩ := head?_written value
  refine (run_bind_of_run (run_peek_written .nil (hhead margin) hc rest)).trans ?_
  cases h with
  | null =>
    obtain rfl : 'n' = c := Option.some.inj (hhead margin)
    rfl
  | bool value =>
    cases value with
    | true =>
      obtain rfl : 't' = c := Option.some.inj (hhead margin)
      rfl
    | false =>
      obtain rfl : 'f' = c := Option.some.inj (hhead margin)
      rfl
  | @natural n hn =>
    obtain ⟨d, hdigits, hdigit⟩ := head?_toDigits n
    obtain rfl : d = c := Option.some.inj (hdigits.symm.trans (hhead margin))
    have hquote : d ≠ '"' := ne_of_isDigit hdigit rfl
    simp only [word?_of_isDigit hdigit, startsNumber, hdigit, beq_eq_false_iff_ne.2 hquote,
      Bool.or_true, if_true]
    exact run_numberValue hn hrest
  | @text text htext =>
    obtain rfl : '"' = c := Option.some.inj (hhead margin)
    show (Json.text <$> JsonReader.text .kept).run (quoted text ++ rest) = _
    rw [StateT.run_map, run_text htext]
    rfl

/-! ### Lists and objects -/

-- What a reader finds at the front of a text, in which the value is written.
def Finds (read : List Char → JsonInput × Rest) (value : Json) : Prop :=
  ∀ margin blanks rest, Blank margin → Blank blanks → Ends rest →
    read (blanks ++ (value.written margin ++ rest)) = (.ofJson value, .ok rest)

section

variable {margin : List Char}

theorem run_anotherItem_end {blanks : List Char} (hblanks : Blank blanks) (isFirst : Bool)
    (rest : List Char) : (anotherItem isFirst).run (blanks ++ ']' :: rest) = .ok (false, rest) := by
  rw [anotherItem, run_bind_of_run (run_peek hblanks rfl rest)]
  rfl

theorem run_anotherMember_end {blanks : List Char} (hblanks : Blank blanks) (isFirst : Bool)
    (rest : List Char) :
    (anotherMember isFirst).run (blanks ++ '\x7d' :: rest) = .ok (false, rest) := by
  rw [anotherMember, run_bind_of_run (run_peek hblanks rfl rest)]
  rfl

theorem run_anotherItem_lead (hmargin : Blank margin) (isFirst : Bool) (value : Json)
    (rest : List Char) :
    (anotherItem isFirst).run (lead margin isFirst ++ (value.written margin ++ rest)) =
      .ok (true, value.written margin ++ rest) := by
  obtain ⟨c, hhead, hblank, hclosing, -⟩ := head?_written value
  obtain ⟨more, hmore⟩ := List.head?_eq_some_iff.1 (hhead margin)
  have hline : Blank ('\n' :: margin) := .cons rfl hmargin
  rw [hmore]
  cases isFirst with
  | true =>
    refine (run_bind_of_run (run_peek hline hblank _)).trans ?_
    rw [if_neg (by simpa using hclosing)]
    rfl
  | false =>
    refine (run_bind_of_run (run_peek_cons (c := ',') rfl _)).trans ?_
    refine (run_bind_of_run (run_dropOne _ _)).trans ?_
    refine (run_bind_of_run (run_peek? hline hblank _)).trans ?_
    rw [if_neg (by simpa using hclosing)]
    rfl

theorem run_anotherMember_lead (hmargin : Blank margin) (isFirst : Bool) (name : String)
    (rest : List Char) :
    (anotherMember isFirst).run (lead margin isFirst ++ (quoted name ++ rest)) =
      .ok (true, quoted name ++ rest) := by
  have hline : Blank ('\n' :: margin) := .cons rfl hmargin
  have hlook := run_peek hline (rfl : isBlank '"' = false) (name.toList ++ ['"'] ++ rest)
  have hquote := run_peek_cons (rfl : isBlank '"' = false) (name.toList ++ ['"'] ++ rest)
  cases isFirst with
  | true => exact (run_bind_of_run hlook).trans ((run_bind_of_run hquote).trans rfl)
  | false =>
    refine (run_bind_of_run (run_peek_cons (c := ',') rfl _)).trans ?_
    refine (run_bind_of_run (run_dropOne _ _)).trans ?_
    exact (run_bind_of_run hlook).trans rfl

-- Behind an entry comes a comma or the end of the block.
theorem ends_lines {blanks : List Char} (hblanks : Blank blanks) {closing : Char}
    (hclosing : Ends [closing]) (margin : List Char) (parts : List (List Char))
    (rest : List Char) : Ends (lines margin false parts ++ (blanks ++ closing :: rest)) := by
  cases parts with
  | cons part parts => simp [lines, lead, Ends]
  | nil =>
    cases blanks with
    | nil => exact hclosing
    | cons c blanks => exact ends_of_isBlank (hblanks c List.mem_cons_self) _

variable {read : List Char → JsonInput × Rest}

theorem itemInputs_lines {items : List Json} (hitems : ∀ item ∈ items, Finds read item)
    (hmargin : Blank margin) {fuel : List Char} (hfuel : items.length < fuel.length)
    (isFirst : Bool) (found : List JsonInput) {blanks : List Char} (hblanks : Blank blanks)
    (rest : List Char) :
    itemInputs read fuel isFirst found
      (lines margin isFirst (Json.writtenItems margin items) ++ (blanks ++ ']' :: rest)) =
        (found.reverse ++ JsonInput.ofItems items, .ok rest) := by
  have hclosing : Ends [']'] := by simp [Ends]
  induction items generalizing fuel isFirst found with
  | nil =>
    obtain ⟨c, fuel, rfl⟩ := List.exists_cons_of_length_pos hfuel
    have hend := run_anotherItem_end hblanks isFirst rest
    simp [itemInputs, Json.writtenItems, lines, hend, JsonInput.ofItems]
  | cons item others ih =>
    obtain ⟨c, fuel, rfl⟩ := List.exists_cons_of_length_pos (Nat.zero_lt_of_lt hfuel)
    obtain ⟨hitem, hothers⟩ := List.forall_mem_cons.1 hitems
    have hread := hitem margin [] _ hmargin .nil
      (ends_lines hblanks hclosing margin (Json.writtenItems margin others) rest)
    rw [List.nil_append] at hread
    have hrest := ih hothers (by simpa using hfuel) false (.ofJson item :: found)
    rw [Json.writtenItems, lines, List.append_assoc, List.append_assoc, itemInputs,
      run_anotherItem_lead hmargin]
    simpa only [hread, JsonInput.ofItems, List.reverse_cons, List.append_assoc,
      List.singleton_append] using hrest

theorem memberName_quoted {name : String} (hname : Clean name) (rest : List Char) :
    memberName (quoted name ++ ':' :: rest) = (.ok name, .ok rest) := by
  have hcolon : (expect ':').run (':' :: rest) = .ok ((), rest) := run_expect .nil rfl rest
  simp only [memberName, run_text hname, restOf, hcolon, Except.map]

theorem memberInputs_lines {members : List (String × Json)}
    (hnames : ∀ member ∈ members, Clean member.1) (hvalues : ∀ member ∈ members, Finds read member.2)
    (hmargin : Blank margin) {fuel : List Char} (hfuel : members.length < fuel.length)
    (isFirst : Bool) (found : List (Except JsonError String × JsonInput)) {blanks : List Char}
    (hblanks : Blank blanks) (rest : List Char) :
    memberInputs read fuel isFirst found
      (lines margin isFirst (Json.writtenMembers margin members) ++ (blanks ++ '\x7d' :: rest)) =
        (found.reverse ++ JsonInput.ofMembers members, .ok rest) := by
  have hclosing : Ends ['\x7d'] := by simp [Ends]
  have hspace : Blank [' '] := .cons rfl .nil
  induction members generalizing fuel isFirst found with
  | nil =>
    obtain ⟨c, fuel, rfl⟩ := List.exists_cons_of_length_pos hfuel
    have hend := run_anotherMember_end hblanks isFirst rest
    simp [memberInputs, Json.writtenMembers, lines, hend, JsonInput.ofMembers]
  | cons member others ih =>
    obtain ⟨c, fuel, rfl⟩ := List.exists_cons_of_length_pos (Nat.zero_lt_of_lt hfuel)
    obtain ⟨name, value⟩ := member
    obtain ⟨hname, hnames⟩ := List.forall_mem_cons.1 hnames
    obtain ⟨hvalue, hvalues⟩ := List.forall_mem_cons.1 hvalues
    have hread := hvalue margin [' '] _ hmargin hspace
      (ends_lines hblanks hclosing margin (Json.writtenMembers margin others) rest)
    rw [List.singleton_append] at hread
    have hrest := ih hnames hvalues (by simpa using hfuel) false ((.ok name, .ofJson value) :: found)
    simp only [Json.writtenMembers, lines, List.append_assoc, List.cons_append]
    rw [memberInputs, run_anotherMember_lead hmargin isFirst name]
    dsimp only
    rw [memberName_quoted hname]
    dsimp only [readOn]
    rw [hread]
    simpa only [JsonInput.ofMembers, List.reverse_cons, List.append_assoc,
      List.singleton_append] using hrest

end

-- The text behind an opening bracket is long enough for every entry.
theorem length_lt_of_block (margin : List Char) (parts : List (List Char)) (blanks rest : List Char)
    (closing : Char) :
    parts.length < (lines margin true parts ++ (blanks ++ closing :: rest)).length := by
  have hlines := Json.length_le_length_lines margin true parts
  simp only [List.length_append, List.length_cons]
  omega

/-! ### Any value -/

theorem finds_scalar {value : Json} (h : PlainScalar value) (depth : Nat) :
    Finds (input depth) value := by
  intro margin blanks rest hmargin hblanks hrest
  obtain ⟨c, hhead, hc, -, hopened⟩ := head?_written value
  have hnone : openedBy? c = none := by
    rw [hopened]
    cases h <;> rfl
  rw [input, run_peek_written hblanks (hhead margin) hc]
  simp only [hnone, scalarInput, run_scalar h margin hrest, JsonInput.ofJson_of_plainScalar h]

theorem finds_list {items : List Json} {depth : Nat}
    (hitems : ∀ item ∈ items, Finds (input depth) item) :
    Finds (input (depth + 1)) (.list items) := by
  intro margin blanks rest hmargin hblanks _
  let parts := Json.writtenItems (inner margin) items
  have hlong := length_lt_of_block (inner margin) parts (ending margin parts) rest ']'
  have hfuel : items.length = parts.length := by
    simp only [parts, Json.writtenItems_eq_map, List.length_map]
  have hfound := itemInputs_lines hitems hmargin.inner (hfuel ▸ hlong) true []
    (hmargin.ending parts) rest
  rw [input, run_peek_written (c := '[') hblanks rfl rfl]
  simp only [openedBy?, bracketInput, written, Json.block_append, List.tail_cons]
  rw [hfound]
  rfl

theorem finds_object {members : List (String × Json)} {depth : Nat}
    (hnames : ∀ member ∈ members, Clean member.1)
    (hvalues : ∀ member ∈ members, Finds (input depth) member.2) :
    Finds (input (depth + 1)) (.object members) := by
  intro margin blanks rest hmargin hblanks _
  let parts := Json.writtenMembers (inner margin) members
  have hlong := length_lt_of_block (inner margin) parts (ending margin parts) rest '\x7d'
  have hfuel : members.length = parts.length := by
    simp only [parts, Json.writtenMembers_eq_map, List.length_map]
  have hfound := memberInputs_lines hnames hvalues hmargin.inner (hfuel ▸ hlong) true []
    (hmargin.ending parts) rest
  rw [input, run_peek_written (c := '\x7b') hblanks rfl rfl]
  simp only [openedBy?, bracketInput, written, Json.block_append, List.tail_cons]
  rw [hfound]
  rfl

theorem finds_input {value : Json} (h : Plain value) {depth : Nat} (hdepth : value.depth ≤ depth) :
    Finds (input depth) value := by
  induction h generalizing depth with
  | scalar h => exact finds_scalar h depth
  | @list items _ ih =>
    cases depth with
    | zero => exact absurd hdepth (Nat.not_succ_le_zero _)
    | succ depth =>
      refine finds_list fun item hitem => ih item hitem ?_
      exact Nat.le_of_lt_succ (Nat.lt_of_lt_of_le (Json.depth_item_lt hitem) hdepth)
  | @object members hnames _ ih =>
    cases depth with
    | zero => exact absurd hdepth (Nat.not_succ_le_zero _)
    | succ depth =>
      refine finds_object hnames fun member hmember => ih member hmember ?_
      exact Nat.le_of_lt_succ (Nat.lt_of_lt_of_le (Json.depth_member_lt hmember) hdepth)

end JsonReader

-- The format of the command line finds the values that it has written.
theorem Json.readsBack_pretty : JsonFormat.ReadsBack JsonReader.maxDepth := by
  intro value hplain hdepth
  have hread := JsonReader.finds_input hplain hdepth [] [] [] .nil .nil .nil
  rw [List.nil_append, List.append_nil, ← Json.toList_pretty] at hread
  show JsonReader.read value.pretty = _
  rw [JsonReader.read, hread]
  rfl

end MicroCisc
