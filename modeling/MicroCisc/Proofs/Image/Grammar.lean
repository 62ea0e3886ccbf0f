import Mathlib.Data.List.TakeWhile
import MicroCisc.Image
import MicroCisc.Proofs.Except
import MicroCisc.Proofs.Text.Spelling
import MicroCisc.Proofs.Text.Tokens

namespace MicroCisc.ImageLine

/-! ### Tokens -/

-- A token that consists of `0x` or `0X` and digits.
def IsMarked (token digits : List Char) : Prop :=
  token = '0' :: 'x' :: digits ∨ token = '0' :: 'X' :: digits

-- A word in hexadecimal, with the mark or without.
def IsWord (token : List Char) (word : Word) : Prop :=
  ∃ digits, (token = digits ∨ IsMarked token digits) ∧ Numeral.Spells 16 digits word.toNat

-- A number of a directive, in hexadecimal with the mark and in decimal without.
def IsNumber (token : List Char) (number : Word) : Prop :=
  (∃ digits, IsMarked token digits ∧ Numeral.Spells 16 digits number.toNat) ∨
    Numeral.Spells 10 token number.toNat

-- The word `test`, each letter in lower or upper case.
def IsDirective (token : List Char) : Prop :=
  List.Forall₂ (fun c letter => c = letter ∨ c = letter.toUpper) token ['t', 'e', 's', 't']

theorem hexDigits?_eq_some_iff {token digits : List Char} :
    hexDigits? token = some digits ↔ IsMarked token digits := by
  constructor
  · unfold hexDigits?
    split
    · rintro ⟨⟩
      exact .inl rfl
    · rintro ⟨⟩
      exact .inr rfl
    · rintro ⟨⟩
  · rintro (rfl | rfl)
    · rfl
    · rfl

-- The second character of a token with the mark is no digit.
theorem hexDigits?_of_spells {radix : Nat} (hradix : radix ≤ 16) {token : List Char} {n : Nat}
    (h : Numeral.Spells radix token n) : hexDigits? token = none := by
  rw [Option.eq_none_iff_forall_ne_some]
  intro digits hmark
  obtain ⟨-, values, hdigits, -⟩ := (Numeral.spells_iff hradix).1 h
  rcases hexDigits?_eq_some_iff.1 hmark with rfl | rfl
  · obtain ⟨_, _, _, hrest, -⟩ := List.forall₂_cons_left_iff.1 hdigits
    obtain ⟨value, _, hx, -, -⟩ := List.forall₂_cons_left_iff.1 hrest
    exact Numeral.not_isDigit hradix rfl value hx
  · obtain ⟨_, _, _, hrest, -⟩ := List.forall₂_cons_left_iff.1 hdigits
    obtain ⟨value, _, hx, -, -⟩ := List.forall₂_cons_left_iff.1 hrest
    exact Numeral.not_isDigit hradix rfl value hx

theorem map_read?_eq_some_iff {radix : Nat} (hzero : 0 < radix) (hradix : radix ≤ 16)
    {text : List Char} {word : Word} :
    (Numeral.read? radix 0x10000 text).map UInt16.ofNat = some word ↔
      Numeral.Spells radix text word.toNat := by
  simp only [Option.map_eq_some_iff, Numeral.read?_eq_some_iff hzero hradix (by decide : 0 < 0x10000)]
  constructor
  · rintro ⟨n, ⟨hspells, hlt⟩, rfl⟩
    rwa [UInt16.toNat_ofNat_of_lt' hlt]
  · intro hspells
    exact ⟨word.toNat, ⟨hspells, word.toNat_lt⟩, UInt16.ofNat_toNat⟩

theorem word?_eq_some_iff {token : List Char} {word : Word} :
    word? token = some word ↔ IsWord token word := by
  rw [word?, map_read?_eq_some_iff (by decide) (by decide)]
  constructor
  · intro hspells
    cases hmark : hexDigits? token with
    | none => exact ⟨token, .inl rfl, by simpa [hmark] using hspells⟩
    | some digits =>
      exact ⟨digits, .inr (hexDigits?_eq_some_iff.1 hmark), by simpa [hmark] using hspells⟩
  · rintro ⟨digits, rfl | hmark, hspells⟩
    · rwa [hexDigits?_of_spells (by decide) hspells, Option.getD_none]
    · rwa [hexDigits?_eq_some_iff.2 hmark, Option.getD_some]

theorem number?_eq_some_iff {token : List Char} {number : Word} :
    number? token = some number ↔ IsNumber token number := by
  rw [number?]
  constructor
  · cases hmark : hexDigits? token with
    | none => exact fun h => .inr ((map_read?_eq_some_iff (by decide) (by decide)).1 h)
    | some digits =>
      exact fun h => .inl ⟨digits, hexDigits?_eq_some_iff.1 hmark,
        (map_read?_eq_some_iff (by decide) (by decide)).1 h⟩
  · rintro (⟨digits, hmark, hspells⟩ | hspells)
    · rw [hexDigits?_eq_some_iff.2 hmark]
      exact (map_read?_eq_some_iff (by decide) (by decide)).2 hspells
    · rw [hexDigits?_of_spells (by decide) hspells]
      exact (map_read?_eq_some_iff (by decide) (by decide)).2 hspells

theorem toNat_toLower (c : Char) :
    c.toLower.toNat = if 65 ≤ c.toNat ∧ c.toNat ≤ 90 then c.toNat + 32 else c.toNat := by
  have hrange : (c.val ≥ 'A'.val ∧ c.val ≤ 'Z'.val) ↔ 65 ≤ c.toNat ∧ c.toNat ≤ 90 := by
    simp only [ge_iff_le, UInt32.le_iff_toNat_le]
    exact Iff.rfl
  unfold Char.toLower
  split
  · next h =>
    have hlast : c.val.toNat ≤ 90 := (hrange.1 h).2
    have hsum : (c.val + 32).toNat = (c.val.toNat + 32) % 2 ^ 32 := UInt32.toNat_add c.val 32
    rw [if_pos (hrange.1 h)]
    show (c.val + 32).toNat = c.val.toNat + 32
    omega
  · next h => rw [if_neg (mt hrange.2 h)]

theorem toLower_eq_iff {c letter : Char} (hfirst : 97 ≤ letter.toNat) (hlast : letter.toNat ≤ 122)
    (hupper : letter.toUpper.toNat + 32 = letter.toNat) :
    c.toLower = letter ↔ c = letter ∨ c = letter.toUpper := by
  have hc := toNat_toLower c
  simp only [← Char.toNat_inj, hc]
  split
  · omega
  · omega

theorem isTest_iff {token : List Char} : isTest token = true ↔ IsDirective token := by
  have hletters : ∀ letter ∈ ['t', 'e', 's', 't'], 97 ≤ letter.toNat ∧ letter.toNat ≤ 122 ∧
      letter.toUpper.toNat + 32 = letter.toNat := by
    simp only [List.forall_mem_cons]
    exact ⟨by decide, by decide, by decide, by decide, List.forall_mem_nil _⟩
  rw [isTest, beq_iff_eq, IsDirective]
  generalize ['t', 'e', 's', 't'] = letters at hletters
  induction letters generalizing token with
  | nil => simp
  | cons letter rest ih =>
    obtain ⟨⟨hfirst, hlast, hupper⟩, hrest⟩ := List.forall_mem_cons.1 hletters
    simp only [List.map_eq_cons_iff, List.forall₂_cons_right_iff,
      toLower_eq_iff hfirst hlast hupper, ih hrest]
    constructor
    · rintro ⟨c, others, rfl, hc, hothers⟩
      exact ⟨c, others, hc, hothers, rfl⟩
    · rintro ⟨c, others, hc, hothers, rfl⟩
      exact ⟨c, others, rfl, hc, hothers⟩

-- A directive starts with a letter, and that is no digit.
theorem not_isWord_of_isDirective {token : List Char} (h : IsDirective token) (word : Word) :
    ¬ IsWord token word := by
  obtain ⟨c, rest, hc, -, rfl⟩ := List.forall₂_cons_right_iff.1 h
  have hnone : word? (c :: rest) = none := by
    rcases hc with rfl | rfl
    · rfl
    · rfl
  rw [← word?_eq_some_iff, hnone]
  exact nofun

/-! ### Lines -/

-- What the tokens of a line mean.
inductive Means : List (List Char) → ImageLine → Prop
  | test {directive offsetToken expectedToken : List Char} {offset expected : Word}
      (hdirective : IsDirective directive) (hoffset : IsNumber offsetToken offset)
      (hexpected : IsNumber expectedToken expected) :
      Means [directive, offsetToken, expectedToken] (.test offset expected)
  | words {tokens : List (List Char)} {words : List Word}
      (hwords : List.Forall₂ IsWord tokens words) : Means tokens (.words words)

-- The part of a line before the first `#` or `;`.
def IsCode (line code : List Char) : Prop :=
  ∃ comment, line = code ++ comment ∧ (∀ c ∈ code, c ≠ '#' ∧ c ≠ ';') ∧
    ∀ c ∈ comment.head?, c = '#' ∨ c = ';'

def Says (line : List Char) (meaning : ImageLine) : Prop :=
  ∃ code tokens, IsCode line code ∧ Text.IsCutInto code tokens ∧ Means tokens meaning

-- A line fits the grammar if it says something.
def Fits (line : List Char) : Prop :=
  ∃ meaning, Says line meaning

theorem wordOfToken_eq_ok_iff {token : List Char} {word : Word} :
    wordOfToken token = .ok word ↔ IsWord token word := by
  rw [← word?_eq_some_iff, wordOfToken]
  cases word? token <;> simp

theorem field_eq_ok_iff {name : TestField} {tokens rest : List (List Char)} {number : Word} :
    field name tokens = .ok (number, rest) ↔
      ∃ token, tokens = token :: rest ∧ IsNumber token number := by
  cases tokens with
  | nil => simp [field]
  | cons token others =>
    rw [field]
    constructor
    · intro h
      cases hnumber : number? token with
      | none => simp [hnumber] at h
      | some value =>
        rw [hnumber] at h
        cases h
        exact ⟨token, rfl, number?_eq_some_iff.1 hnumber⟩
    · rintro ⟨_, ⟨⟩, hnumber⟩
      rw [number?_eq_some_iff.2 hnumber]

theorem wordsOfTokens_eq_ok_iff {tokens : List (List Char)} {line : ImageLine} :
    wordsOfTokens tokens = .ok line ↔
      ∃ words, List.Forall₂ IsWord tokens words ∧ line = .words words := by
  rw [wordsOfTokens, bind_eq_ok_iff]
  simp only [mapM_eq_ok_iff, wordOfToken_eq_ok_iff]
  constructor
  · rintro ⟨words, hwords, ⟨⟩⟩
    exact ⟨words, hwords, rfl⟩
  · rintro ⟨words, hwords, rfl⟩
    exact ⟨words, hwords, rfl⟩

theorem testOfTokens_eq_ok_iff {tokens : List (List Char)} {line : ImageLine} :
    testOfTokens tokens = .ok line ↔ ∃ offsetToken expectedToken offset expected,
      tokens = [offsetToken, expectedToken] ∧ IsNumber offsetToken offset ∧
        IsNumber expectedToken expected ∧ line = .test offset expected := by
  constructor
  · intro h
    obtain ⟨⟨offset, behindOffset⟩, hoffset, hbehind⟩ := bind_eq_ok_iff.1 h
    obtain ⟨⟨expected, behindBoth⟩, hexpected, hend⟩ := bind_eq_ok_iff.1 hbehind
    obtain ⟨offsetToken, rfl, hoffsetToken⟩ := field_eq_ok_iff.1 hoffset
    obtain ⟨expectedToken, rfl, hexpectedToken⟩ := field_eq_ok_iff.1 hexpected
    cases behindBoth with
    | nil =>
      cases hend
      exact ⟨offsetToken, expectedToken, offset, expected, rfl, hoffsetToken, hexpectedToken, rfl⟩
    | cons extra _ => cases hend
  · rintro ⟨offsetToken, expectedToken, offset, expected, rfl, hoffset, hexpected, rfl⟩
    refine bind_eq_ok_iff.2 ⟨(offset, [expectedToken]), field_eq_ok_iff.2 ⟨_, rfl, hoffset⟩, ?_⟩
    exact bind_eq_ok_iff.2 ⟨(expected, []), field_eq_ok_iff.2 ⟨_, rfl, hexpected⟩, rfl⟩

theorem ofTokens_eq_ok_iff {tokens : List (List Char)} {line : ImageLine} :
    ofTokens tokens = .ok line ↔ Means tokens line := by
  constructor
  · intro h
    cases tokens with
    | nil =>
      cases h
      exact .words .nil
    | cons first rest =>
      rw [ofTokens] at h
      split at h
      · next htest =>
        obtain ⟨_, _, offset, expected, rfl, hoffset, hexpected, rfl⟩ :=
          testOfTokens_eq_ok_iff.1 h
        exact .test (isTest_iff.1 htest) hoffset hexpected
      · obtain ⟨words, hwords, rfl⟩ := wordsOfTokens_eq_ok_iff.1 h
        exact .words hwords
  · intro h
    cases h with
    | test hdirective hoffset hexpected =>
      rw [ofTokens, if_pos (isTest_iff.2 hdirective)]
      exact testOfTokens_eq_ok_iff.2 ⟨_, _, _, _, rfl, hoffset, hexpected, rfl⟩
    | words hwords =>
      cases hwords with
      | nil => rfl
      | @cons first word rest words hfirst hrest =>
        have htest : ¬ isTest first = true := fun htest =>
          not_isWord_of_isDirective (isTest_iff.1 htest) word hfirst
        rw [ofTokens, if_neg htest]
        exact wordsOfTokens_eq_ok_iff.2 ⟨_, .cons hfirst hrest, rfl⟩

theorem isCode_iff {line text : List Char} : IsCode line text ↔ text = code line := by
  constructor
  · rintro ⟨comment, rfl, htext, hcomment⟩
    have hkept : ∀ c ∈ text, (c != '#' && c != ';') = true := by simpa using htext
    have hdropped : comment.takeWhile (fun c => c != '#' && c != ';') = [] := by
      cases comment with
      | nil => rfl
      | cons mark rest =>
        have hmark : mark = '#' ∨ mark = ';' := hcomment mark rfl
        rw [List.takeWhile_cons_of_neg (by simpa [or_iff_not_imp_left] using hmark)]
    rw [code, List.takeWhile_append_of_pos hkept, hdropped, List.append_nil]
  · rintro rfl
    refine ⟨line.dropWhile fun c => c != '#' && c != ';', List.takeWhile_append_dropWhile.symm, ?_, ?_⟩
    · intro c hc
      simpa using List.mem_takeWhile_imp hc
    · intro c hc
      have hmark := List.head?_dropWhile_not (fun c => c != '#' && c != ';') line
      rw [Option.mem_def.1 hc] at hmark
      simpa [or_iff_not_imp_left] using hmark

theorem ofText_eq_ok_iff {line : List Char} {meaning : ImageLine} :
    ofText line = .ok meaning ↔ Says line meaning := by
  rw [ofText, ofTokens_eq_ok_iff]
  constructor
  · intro h
    exact ⟨_, _, isCode_iff.2 rfl, Text.isCutInto_iff.2 rfl, h⟩
  · rintro ⟨text, tokens, hcode, htokens, h⟩
    rwa [Text.isCutInto_iff.1 htokens, isCode_iff.1 hcode] at h

end MicroCisc.ImageLine
