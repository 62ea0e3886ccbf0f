import MicroCisc.Proofs.Text.Lines
import MicroCisc.Text.Encoding

namespace MicroCisc.Text

-- The bytes of characters, one character after another.
def encode (text : List Char) : List UInt8 :=
  text.flatMap String.utf8EncodeChar

@[simp] theorem encode_nil : encode [] = [] :=
  rfl

@[simp] theorem encode_append (text rest : List Char) :
    encode (text ++ rest) = encode text ++ encode rest :=
  List.flatMap_append

theorem encode_ne_nil {text : List Char} (hne : text ≠ []) : encode text ≠ [] := by
  obtain ⟨first, rest, rfl⟩ := List.exists_cons_of_ne_nil hne
  simp [encode, String.utf8EncodeChar_ne_nil]

theorem toBytes_eq (text : String) : toBytes text = encode text.toList := by
  rw [toBytes, String.toUTF8_eq_toByteArray, ← String.utf8Encode_toList]
  exact List.toList_data_toByteArray

theorem ofBytes?_eq_some_iff {bytes : List UInt8} {text : String} :
    ofBytes? bytes = some text ↔ bytes = toBytes text := by
  unfold ofBytes? toBytes String.fromUTF8?
  constructor
  · intro h
    split at h
    · cases h
      rfl
    · cases h
  · rintro rfl
    exact dif_pos text.isValidUTF8

theorem ofBytes?_encode (text : List Char) :
    ofBytes? (encode text) = some (String.ofList text) := by
  rw [ofBytes?_eq_some_iff, toBytes_eq, String.toList_ofList]

theorem ofBytes?_eq_none_iff {bytes : List UInt8} :
    ofBytes? bytes = none ↔ ∀ text, bytes ≠ encode text := by
  rw [Option.eq_none_iff_forall_ne_some]
  constructor
  · rintro h text rfl
    exact h _ (ofBytes?_encode text)
  · intro h text htext
    exact h text.toList (toBytes_eq text ▸ ofBytes?_eq_some_iff.1 htext)

/-! ### Marks -/

variable {mark newline carriageReturn : Char}

theorem newline_le : '\n'.toNat ≤ 127 := by decide

theorem carriageReturn_le : '\r'.toNat ≤ 127 := by decide

theorem utf8EncodeChar_of_le {c : Char} (hc : c.toNat ≤ 127) :
    String.utf8EncodeChar c = [c.toUInt8] :=
  String.utf8EncodeChar_eq_singleton <|
    Char.utf8Size_eq_one_iff.2 (UInt32.le_iff_toNat_le.2 hc)

-- The bytes of any other character have their high bit set.
theorem le_of_mem_utf8EncodeChar {c : Char} (hc : 127 < c.toNat) {byte : UInt8}
    (hbyte : byte ∈ String.utf8EncodeChar c) : 128 ≤ byte.toNat := by
  have hone : ¬c.val.toNat ≤ 127 := Nat.not_le.2 hc
  simp only [String.utf8EncodeChar, if_neg hone] at hbyte
  split at hbyte
  · simp only [List.mem_cons, List.not_mem_nil, or_false] at hbyte
    rcases hbyte with rfl | rfl <;> simp only [UInt8.toNat_ofNat'] <;> omega
  · split at hbyte
    · simp only [List.mem_cons, List.not_mem_nil, or_false] at hbyte
      rcases hbyte with rfl | rfl | rfl <;> simp only [UInt8.toNat_ofNat'] <;> omega
    · simp only [List.mem_cons, List.not_mem_nil, or_false] at hbyte
      rcases hbyte with rfl | rfl | rfl | rfl <;> simp only [UInt8.toNat_ofNat'] <;> omega

theorem toNat_toUInt8 {c : Char} (hc : c.toNat ≤ 127) : c.toUInt8.toNat = c.toNat := by
  have hsmall : c.toNat < 2 ^ 8 := by omega
  exact (UInt32.toNat_toUInt8 c.val).trans (Nat.mod_eq_of_lt hsmall)

theorem mem_utf8EncodeChar_iff (hmark : mark.toNat ≤ 127) {c : Char} :
    mark.toUInt8 ∈ String.utf8EncodeChar c ↔ mark = c := by
  rcases Nat.lt_or_ge 127 c.toNat with hc | hc
  · constructor
    · intro hmem
      have hhigh := le_of_mem_utf8EncodeChar hc hmem
      rw [toNat_toUInt8 hmark] at hhigh
      omega
    · rintro rfl
      omega
  · rw [utf8EncodeChar_of_le hc, List.mem_singleton, ← UInt8.toNat_inj, toNat_toUInt8 hmark,
      toNat_toUInt8 hc, Char.toNat_inj]

theorem mem_encode_iff (hmark : mark.toNat ≤ 127) {text : List Char} :
    mark.toUInt8 ∈ encode text ↔ mark ∈ text := by
  simp [encode, mem_utf8EncodeChar_iff hmark]

theorem encode_append_cons (hmark : mark.toNat ≤ 127) (text rest : List Char) :
    encode (text ++ mark :: rest) = encode text ++ mark.toUInt8 :: encode rest := by
  have hcons : encode (mark :: rest) = String.utf8EncodeChar mark ++ encode rest :=
    List.flatMap_cons
  rw [encode_append, hcons, utf8EncodeChar_of_le hmark, List.singleton_append]

theorem getLast?_encode_eq_some_iff (hmark : mark.toNat ≤ 127) {text : List Char} :
    (encode text).getLast? = some mark.toUInt8 ↔ text.getLast? = some mark := by
  constructor
  · intro h
    cases hlast : text.getLast? with
    | none =>
      rw [List.getLast?_eq_none_iff.1 hlast] at h
      cases h
    | some last =>
      obtain ⟨front, rfl⟩ := List.getLast?_eq_some_iff.1 hlast
      have hsome : (encode [last]).getLast?.isSome :=
        List.getLast?_isSome.2 (encode_ne_nil (List.cons_ne_nil _ _))
      rw [encode_append, List.getLast?_append, Option.or_of_isSome hsome] at h
      have hmem := (mem_encode_iff hmark).1 (List.mem_of_getLast? h)
      rw [List.mem_singleton.1 hmem]
  · intro h
    obtain ⟨front, rfl⟩ := List.getLast?_eq_some_iff.1 h
    rw [encode_append_cons hmark, encode_nil, List.getLast?_concat]

/-! ### Lines -/

theorem endedLine_encode (hcarriageReturn : carriageReturn.toNat ≤ 127) (line : List Char) :
    endedLine carriageReturn.toUInt8 (encode line) = encode (endedLine carriageReturn line) := by
  by_cases hlast : line.getLast? = some carriageReturn
  · obtain ⟨front, rfl⟩ := List.getLast?_eq_some_iff.1 hlast
    rw [encode_append_cons hcarriageReturn, encode_nil, endedLine_append_singleton,
      endedLine_append_singleton]
  · have hbytes := mt (getLast?_encode_eq_some_iff hcarriageReturn).1 hlast
    rw [endedLine_eq_self hlast, endedLine_eq_self hbytes]

theorem lines_encode (hnewline : newline.toNat ≤ 127)
    (hcarriageReturn : carriageReturn.toNat ≤ 127) (text : List Char) :
    lines newline.toUInt8 carriageReturn.toUInt8 (encode text) =
      (lines newline carriageReturn text).map encode := by
  induction text using induction_on_lines newline with
  | last line hline =>
    by_cases hne : line = []
    · rw [hne]
      rfl
    · have hbytes : newline.toUInt8 ∉ encode line := mt (mem_encode_iff hnewline).1 hline
      rw [lines_of_not_mem hne hline, lines_of_not_mem (encode_ne_nil hne) hbytes, List.map_singleton]
  | ended line rest hline ih =>
    have hbytes : newline.toUInt8 ∉ encode line := mt (mem_encode_iff hnewline).1 hline
    rw [encode_append_cons hnewline, lines_append_cons hbytes, lines_append_cons hline,
      endedLine_encode hcarriageReturn, ih, List.map_cons]

theorem lines_toBytes (text : String) :
    lines 10 13 (toBytes text) = (lines '\n' '\r' text.toList).map encode := by
  rw [toBytes_eq]
  exact lines_encode newline_le carriageReturn_le text.toList

theorem whole_encode (hnewline : newline.toNat ≤ 127) {text : List Char}
    (hwhole : Whole newline text) : Whole newline.toUInt8 (encode text) := by
  cases hlast : text.getLast? with
  | none =>
    rw [List.getLast?_eq_none_iff.1 hlast]
    exact nofun
  | some last =>
    have hmark := (getLast?_encode_eq_some_iff hnewline).2 (hwhole last hlast ▸ hlast)
    intro byte hbyte
    exact Option.some.inj (hbyte.symm.trans hmark)

-- The first line of the bytes that is not text. The lines above it are.
structure FirstBadLine (bytes : List UInt8) (above : String) (line below : List UInt8) : Prop where
  split : bytes = toBytes above ++ line ++ below
  whole : Whole '\n' above.toList
  notText : ofBytes? line = none
  oneLine : 10 ∉ line
  ended : below = [] ∨ ∃ rest, below = 10 :: rest

theorem exists_firstBadLine {bytes : List UInt8} (hbytes : ofBytes? bytes = none) :
    ∃ above line below, FirstBadLine bytes above line below := by
  induction bytes using induction_on_lines (10 : UInt8) with
  | last line hline => exact ⟨"", line, [], by simp [toBytes_eq], nofun, hbytes, hline, .inl rfl⟩
  | ended line rest hline ih =>
    cases hfirst : ofBytes? line with
    | none =>
      exact ⟨"", line, 10 :: rest, by simp [toBytes_eq], nofun, hfirst, hline, .inr ⟨rest, rfl⟩⟩
    | some text =>
      have htext : line = encode text.toList := toBytes_eq text ▸ ofBytes?_eq_some_iff.1 hfirst
      have hjoin (others : List Char) :
          encode (text.toList ++ '\n' :: others) = line ++ 10 :: encode others :=
        htext ▸ encode_append_cons newline_le text.toList others
      have hrest : ofBytes? rest = none := by
        rw [ofBytes?_eq_none_iff] at hbytes ⊢
        rintro others rfl
        exact hbytes _ (hjoin others).symm
      obtain ⟨above, bad, below, hsplit, hwhole, hbad, hone, hended⟩ := ih hrest
      refine ⟨String.ofList (text.toList ++ '\n' :: above.toList), bad, below, ?_, ?_, hbad, hone,
        hended⟩
      · rw [toBytes_eq, String.toList_ofList, hjoin, hsplit, toBytes_eq]
        simp
      · rw [String.toList_ofList]
        exact whole_append_cons_iff.2 hwhole

theorem ofBytes?_endedLine_eq_none {line : List UInt8} (hline : ofBytes? line = none) :
    ofBytes? (endedLine 13 line) = none := by
  by_cases hlast : line.getLast? = some 13
  · obtain ⟨front, rfl⟩ := List.getLast?_eq_some_iff.1 hlast
    rw [endedLine_append_singleton]
    rw [ofBytes?_eq_none_iff] at hline ⊢
    rintro text rfl
    exact hline (text ++ ['\r']) (encode_append_cons carriageReturn_le text []).symm
  · rwa [endedLine_eq_self hlast]

-- The lines of the bytes are those of the text above, and then one that is not text.
theorem FirstBadLine.lines_eq {bytes line below : List UInt8} {above : String}
    (h : FirstBadLine bytes above line below) :
    ∃ bad others, ofBytes? bad = none ∧
      lines 10 13 bytes = (lines '\n' '\r' above.toList).map encode ++ bad :: others := by
  have hwhole : Whole 10 (toBytes above) := by
    rw [toBytes_eq]
    exact whole_encode newline_le h.whole
  have hlines : lines 10 13 bytes =
      (lines '\n' '\r' above.toList).map encode ++ lines 10 13 (line ++ below) := by
    rw [h.split, List.append_assoc, lines_append hwhole, lines_toBytes]
  rw [hlines]
  rcases h.ended with rfl | ⟨rest, rfl⟩
  · have hne : line ≠ [] := by
      rintro rfl
      exact absurd (ofBytes?_encode []) (h.notText ▸ nofun)
    rw [List.append_nil, lines_of_not_mem hne h.oneLine]
    exact ⟨line, [], h.notText, rfl⟩
  · rw [lines_append_cons h.oneLine]
    exact ⟨endedLine 13 line, _, ofBytes?_endedLine_eq_none h.notText, rfl⟩

end MicroCisc.Text
