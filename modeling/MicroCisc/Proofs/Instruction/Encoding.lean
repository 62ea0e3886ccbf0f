import Mathlib.Data.Nat.Bitwise
import Mathlib.Tactic.IntervalCases
import MicroCisc.Instruction

namespace MicroCisc

/-! ### Bits as numbers -/

theorem and_fifteen (n : Nat) : n &&& 15 = n % 16 :=
  Nat.and_two_pow_sub_one_eq_mod n 4

theorem and_seven (n : Nat) : n &&& 7 = n % 8 :=
  Nat.and_two_pow_sub_one_eq_mod n 3

theorem and_page (n : Nat) : n &&& 4095 = n % 4096 :=
  Nat.and_two_pow_sub_one_eq_mod n 12

-- A field that is moved to its place in a word, where it has room.
theorem shiftLeft_field {field width place : Nat} (hfield : field < 2 ^ width)
    (hroom : width + place ≤ 16) : field <<< place % 2 ^ 16 = field * 2 ^ place := by
  rw [Nat.shiftLeft_eq]
  apply Nat.mod_eq_of_lt
  calc field * 2 ^ place
    _ < 2 ^ width * 2 ^ place := Nat.mul_lt_mul_of_pos_right hfield (Nat.two_pow_pos place)
    _ = 2 ^ (width + place) := (Nat.pow_add 2 width place).symm
    _ ≤ 2 ^ 16 := Nat.pow_le_pow_right (by decide) hroom

-- A field and the bits below its place.
theorem field_or {place low : Nat} (hlow : low < 2 ^ place) (field : Nat) :
    field * 2 ^ place ||| low = field * 2 ^ place + low := by
  rw [← Nat.shiftLeft_eq, Nat.shiftLeft_add_eq_or_of_lt hlow]

namespace AluOp

theorem code_lt (op : AluOp) : op.code.toNat < 2 ^ 4 := by
  cases op <;> decide

theorem toNat_code_ofCode (code : Word) : (ofCode code).code.toNat = code.toNat % 16 := by
  have hlow : (code &&& 0xF).toNat = code.toNat % 16 := and_fifteen code.toNat
  have hlt : code.toNat % 16 < 16 := Nat.mod_lt _ (by decide)
  rw [ofCode, hlow]
  generalize code.toNat % 16 = n at hlt
  interval_cases n <;> rfl

theorem code_inj {op op' : AluOp} (h : op.code.toNat = op'.code.toNat) : op = op' := by
  rw [← ofCode_code op, ← ofCode_code op', UInt16.toNat_inj.1 h]

end AluOp

namespace Effect

theorem code_lt (effect : Effect) : effect.code.toNat < 2 ^ 3 := by
  cases effect <;> decide

theorem toNat_code_ofCode (code : Word) : (ofCode code).code.toNat = code.toNat % 8 := by
  have hlow : (code &&& 0x7).toNat = code.toNat % 8 := and_seven code.toNat
  have hlt : code.toNat % 8 < 8 := Nat.mod_lt _ (by decide)
  rw [ofCode, hlow]
  generalize code.toNat % 8 = n at hlt
  interval_cases n <;> rfl

theorem code_inj {effect effect' : Effect} (h : effect.code.toNat = effect'.code.toNat) :
    effect = effect' := by
  rw [← ofCode_code effect, ← ofCode_code effect', UInt16.toNat_inj.1 h]

end Effect

namespace Operand

-- Only the low four bits of a code tell whether it names a word of memory.
theorem isMemoryCode_congr {code code' : UInt8} (h : code.toNat % 16 = code'.toNat % 16) :
    isMemoryCode code = isMemoryCode code' := by
  have hlow : code &&& 0xF = code' &&& 0xF := by
    rw [← UInt8.toNat_inj, UInt8.toNat_and, UInt8.toNat_and]
    exact (and_fifteen _).trans (h.trans (and_fifteen _).symm)
  rw [isMemoryCode, isMemoryCode, ofSourceCode, ofSourceCode, hlow]

end Operand

namespace Instruction

variable (instr : Instruction) (high low : Word)

/-! ### The fields of the words -/

-- Five fields side by side. What stands below each is smaller than its place.
theorem or_fields {source destination increment effect alu : Nat}
    (hdestination : destination < 2 ^ 4) (hincrement : increment < 2 ^ 1)
    (heffect : effect < 2 ^ 3) (halu : alu < 2 ^ 4) :
    source * 2 ^ 12 ||| destination * 2 ^ 8 ||| increment * 2 ^ 7 ||| effect * 2 ^ 4 ||| alu =
      source * 2 ^ 12 + (destination * 2 ^ 8 + (increment * 2 ^ 7 + (effect * 2 ^ 4 + alu))) := by
  have hlow : effect * 2 ^ 4 + alu < 2 ^ 7 := by omega
  have hbyte : increment * 2 ^ 7 + (effect * 2 ^ 4 + alu) < 2 ^ 8 := by omega
  have hrest : destination * 2 ^ 8 + (increment * 2 ^ 7 + (effect * 2 ^ 4 + alu)) < 2 ^ 12 := by
    omega
  rw [Nat.or_assoc, Nat.or_assoc, Nat.or_assoc, field_or halu, field_or hlow, field_or hbyte,
    field_or hrest]

theorem toNat_fst_encode :
    instr.encode.1.toNat =
      instr.source.toNat % 16 * 2 ^ 12 + (instr.destination.toNat % 16 * 2 ^ 8
        + (instr.increment.toNat * 2 ^ 7
          + (instr.effect.code.toNat * 2 ^ 4 + instr.alu.code.toNat))) := by
  have hsource : instr.source.toNat % 16 < 2 ^ 4 := Nat.mod_lt _ (by decide)
  have hdestination : instr.destination.toNat % 16 < 2 ^ 4 := Nat.mod_lt _ (by decide)
  have hincrement : (if instr.increment then (0x0080 : Word) else 0).toNat =
      instr.increment.toNat * 2 ^ 7 := by
    cases instr.increment <;> rfl
  rw [← or_fields hdestination instr.increment.toNat_lt instr.effect.code_lt instr.alu.code_lt,
    ← shiftLeft_field hsource (by decide), ← shiftLeft_field hdestination (by decide),
    ← shiftLeft_field instr.effect.code_lt (by decide), ← hincrement, ← and_fifteen, ← and_fifteen]
  simp only [encode, UInt16.toNat_or, UInt16.toNat_shiftLeft, UInt8.toNat_toUInt16,
    UInt8.toNat_and]
  rfl

-- Each field can be read off the first word.
theorem fields_encode :
    instr.encode.1.toNat / 2 ^ 12 = instr.source.toNat % 16 ∧
      instr.encode.1.toNat / 2 ^ 8 % 16 = instr.destination.toNat % 16 ∧
      instr.encode.1.toNat / 2 ^ 7 % 2 = instr.increment.toNat ∧
      instr.encode.1.toNat / 2 ^ 4 % 8 = instr.effect.code.toNat ∧
      instr.encode.1.toNat % 16 = instr.alu.code.toNat := by
  have hfirst := instr.toNat_fst_encode
  have hincrement := instr.increment.toNat_lt
  have heffect := instr.effect.code_lt
  have halu := instr.alu.code_lt
  refine ⟨?_, ?_, ?_, ?_, ?_⟩ <;> omega

theorem toNat_snd_encode (h : Operand.isMemoryCode instr.destination = true) :
    instr.encode.2.toNat =
      instr.offset.toUInt8.toNat % 16 * 2 ^ 12 + instr.immediate.toNat % 4096 := by
  have hoffset : instr.offset.toUInt8.toNat % 16 < 2 ^ 4 := Nat.mod_lt _ (by decide)
  have himmediate : instr.immediate.toNat % 4096 < 2 ^ 12 := Nat.mod_lt _ (by decide)
  rw [← field_or himmediate, ← shiftLeft_field hoffset (by decide), ← and_fifteen, ← and_page]
  simp only [encode, h, if_true, UInt16.toNat_or, UInt16.toNat_shiftLeft, UInt8.toNat_toUInt16,
    UInt8.toNat_and, UInt16.toNat_and]
  rfl

theorem toNat_top (word : Word) : (word >>> 12).toUInt8.toNat = word.toNat / 2 ^ 12 := by
  have hword := word.toNat_lt
  simp only [UInt16.toNat_toUInt8, UInt16.toNat_shiftRight, UInt16.reduceToNat, Nat.reduceMod,
    Nat.shiftRight_eq_div_pow]
  omega

theorem toNat_source_decode : (decode high low).source.toNat = high.toNat / 2 ^ 12 :=
  toNat_top high

theorem toNat_destination_decode :
    (decode high low).destination.toNat = high.toNat / 2 ^ 8 % 16 := by
  simp only [decode, UInt16.toNat_toUInt8, UInt16.toNat_and, UInt16.toNat_shiftRight,
    UInt16.reduceToNat, Nat.reduceMod, Nat.shiftRight_eq_div_pow, and_fifteen]
  omega

theorem toNat_increment_decode :
    (decode high low).increment.toNat = high.toNat / 2 ^ 7 % 2 := by
  have hbit : (high &&& 0x0080).toNat = high.toNat / 2 ^ 7 % 2 * 2 ^ 7 := by
    have hand := Nat.and_two_pow high.toNat 7
    rw [Nat.toNat_testBit] at hand
    exact hand
  have hlt : high.toNat / 2 ^ 7 % 2 < 2 := Nat.mod_lt _ (by decide)
  have hzero : (high &&& 0x0080 = 0) ↔ high.toNat / 2 ^ 7 % 2 = 0 := by
    rw [← UInt16.toNat_inj, hbit]
    exact Nat.mul_eq_zero.trans (or_iff_left (by decide))
  have hincrement : (decode high low).increment = (high &&& 0x0080 != 0) := rfl
  rw [hincrement]
  by_cases h : high &&& 0x0080 = 0
  · rw [hzero.1 h, h]
    rfl
  · rw [bne_iff_ne.2 h, Bool.toNat_true]
    have hone := mt hzero.2 h
    omega

theorem toNat_effect_decode : (decode high low).effect.code.toNat = high.toNat / 2 ^ 4 % 8 := by
  simp only [decode, Effect.toNat_code_ofCode, UInt16.toNat_shiftRight, UInt16.reduceToNat,
    Nat.reduceMod, Nat.shiftRight_eq_div_pow]

theorem toNat_alu_decode : (decode high low).alu.code.toNat = high.toNat % 16 :=
  AluOp.toNat_code_ofCode high

/-! ### The immediate and the offset -/

theorem toNat_extendImmediate_mod (field : Word) (sourceIsMemory : Bool) :
    (extendImmediate field sourceIsMemory).toNat % 4096 = field.toNat % 4096 := by
  unfold extendImmediate
  split
  · have hhigh : (0xF000 : Word).toNat % 2 ^ 12 = 0 := by decide
    rw [UInt16.toNat_or]
    exact (Nat.or_mod_two_pow (n := 12)).trans (by rw [hhigh, Nat.or_zero])
  · rfl

theorem signExtendNibble_congr {nibble nibble' : UInt8}
    (h : nibble.toNat % 16 = nibble'.toNat % 16) :
    signExtendNibble nibble = signExtendNibble nibble' := by
  have hshift : nibble <<< 4 = nibble' <<< 4 := by
    rw [← UInt8.toNat_inj, UInt8.toNat_shiftLeft, UInt8.toNat_shiftLeft, Nat.shiftLeft_eq,
      Nat.shiftLeft_eq]
    simp only [UInt8.reduceToNat, Nat.reduceMod]
    omega
  rw [signExtendNibble, signExtendNibble, hshift]

theorem toNat_signExtendNibble_mod (nibble : UInt8) :
    (signExtendNibble nibble).toUInt8.toNat % 16 = nibble.toNat % 16 := by
  have hall : ∀ n : Fin 16, (signExtendNibble (.ofNat n)).toUInt8.toNat % 16 = n := by decide
  have hlow : signExtendNibble nibble = signExtendNibble (.ofNat (nibble.toNat % 16)) := by
    apply signExtendNibble_congr
    rw [UInt8.toNat_ofNat']
    omega
  rw [hlow]
  exact hall ⟨nibble.toNat % 16, Nat.mod_lt _ (by decide)⟩

-- What is cut to its field depends on the bits of that field alone.
theorem clip_congr {source source' destination destination' : UInt8} {immediate immediate' : Word}
    {offset offset' : UInt8} (hsource : source.toNat % 16 = source'.toNat % 16)
    (hdestination : destination.toNat % 16 = destination'.toNat % 16)
    (hmemory : Operand.isMemoryCode destination = true →
      immediate.toNat % 4096 = immediate'.toNat % 4096 ∧ offset.toNat % 16 = offset'.toNat % 16)
    (hother : Operand.isMemoryCode destination = false → immediate = immediate') :
    clip source destination immediate offset = clip source' destination' immediate' offset' := by
  rw [clip, clip, ← Operand.isMemoryCode_congr hdestination]
  cases h : Operand.isMemoryCode destination with
  | true =>
    obtain ⟨himmediate, hoffset⟩ := hmemory h
    have hfield : immediate &&& 0x0FFF = immediate' &&& 0x0FFF := by
      rw [← UInt16.toNat_inj, UInt16.toNat_and, UInt16.toNat_and]
      exact (and_page _).trans (himmediate.trans (and_page _).symm)
    rw [if_pos rfl, if_pos rfl, hfield, signExtendNibble_congr hoffset,
      Operand.isMemoryCode_congr hsource]
  | false => rw [if_neg Bool.false_ne_true, if_neg Bool.false_ne_true, hother h]

-- The immediate and the offset are cut only for a destination in memory.
theorem clip_of_isMemoryCode {source destination : UInt8}
    (h : Operand.isMemoryCode destination = true) (immediate : Word) (offset : UInt8) :
    (clip source destination immediate offset).1.toNat % 4096 = immediate.toNat % 4096 ∧
      (clip source destination immediate offset).2.toUInt8.toNat % 16 = offset.toNat % 16 := by
  rw [clip, if_pos h]
  refine ⟨?_, toNat_signExtendNibble_mod offset⟩
  have hfield : (immediate &&& 0x0FFF).toNat = immediate.toNat % 4096 := and_page immediate.toNat
  rw [toNat_extendImmediate_mod, hfield, Nat.mod_mod]

/-! ### Both ways -/

attribute [ext] Instruction

-- The instruction cut to what its two words can hold.
def clipped : Instruction :=
  ofFields instr.source instr.destination instr.alu instr.effect instr.increment instr.immediate
    instr.offset

theorem encode_decode : (decode high low).encode = (high, low) := by
  have hfirst : (decode high low).encode.1 = high := by
    have hhigh := high.toNat_lt
    rw [← UInt16.toNat_inj, toNat_fst_encode, toNat_source_decode, toNat_destination_decode,
      toNat_increment_decode, toNat_effect_decode, toNat_alu_decode]
    omega
  have hsecond : (decode high low).encode.2 = low := by
    cases h : Operand.isMemoryCode (decode high low).destination with
    | true =>
      obtain ⟨himmediate, hoffset⟩ :
          (decode high low).immediate.toNat % 4096 = low.toNat % 4096 ∧
            (decode high low).offset.toUInt8.toNat % 16 = (low >>> 12).toUInt8.toNat % 16 :=
        clip_of_isMemoryCode h low (low >>> 12).toUInt8
      have hlow := low.toNat_lt
      rw [← UInt16.toNat_inj, toNat_snd_encode _ h, himmediate, hoffset, toNat_top]
      omega
    | false =>
      have himmediate : (decode high low).immediate = low := by
        show (clip (decode high low).source (decode high low).destination low _).1 = low
        rw [clip, h]
        rfl
      rw [encode, h]
      exact himmediate
  exact Prod.ext hfirst hsecond

theorem toNat_code (code : UInt8) : (code &&& 0xF).toNat = code.toNat % 16 :=
  and_fifteen code.toNat

-- The second word holds all that is left of the immediate and the offset.
theorem clip_encode :
    clip (decode instr.encode.1 instr.encode.2).source
        (decode instr.encode.1 instr.encode.2).destination instr.encode.2
        (instr.encode.2 >>> 12).toUInt8 =
      clip (instr.source &&& 0xF) (instr.destination &&& 0xF) instr.immediate
        instr.offset.toUInt8 := by
  obtain ⟨hsource, hdestination, -⟩ := instr.fields_encode
  rw [← toNat_source_decode _ instr.encode.2] at hsource
  rw [← toNat_destination_decode _ instr.encode.2] at hdestination
  have hcode : Operand.isMemoryCode (decode instr.encode.1 instr.encode.2).destination =
      Operand.isMemoryCode instr.destination :=
    Operand.isMemoryCode_congr (by rw [hdestination, Nat.mod_mod])
  refine clip_congr ?_ ?_ (fun h => ?_) fun h => ?_
  · rw [hsource, toNat_code]
  · rw [hdestination, toNat_code]
  · have hsecond := instr.toNat_snd_encode (hcode ▸ h)
    rw [toNat_top]
    omega
  · rw [encode, ← hcode, h]
    rfl

theorem decode_encode : decode instr.encode.1 instr.encode.2 = instr.clipped := by
  obtain ⟨hsource, hdestination, hincrement, heffect, halu⟩ := instr.fields_encode
  have hinj : ∀ a b : Bool, a.toNat = b.toNat → a = b := by decide
  ext1
  · apply UInt8.toNat_inj.1
    exact (toNat_source_decode _ _).trans (hsource.trans (toNat_code _).symm)
  · apply UInt8.toNat_inj.1
    exact (toNat_destination_decode _ _).trans (hdestination.trans (toNat_code _).symm)
  · exact hinj _ _ ((toNat_increment_decode _ _).trans hincrement)
  · exact Effect.code_inj ((toNat_effect_decode _ _).trans heffect)
  · exact AluOp.code_inj ((toNat_alu_decode _ _).trans halu)
  · exact congrArg Prod.fst instr.clip_encode
  · exact congrArg Prod.snd instr.clip_encode

-- Nothing is cut from an instruction that was decoded.
theorem clipped_decode : (decode high low).clipped = decode high low := by
  rw [← decode_encode, encode_decode]

-- Two words and the instruction that they hold determine each other. Of all instructions, whatever
-- their fields, those that are cut to size are the ones that two words can hold.
theorem encode_decode_inverse :
    (∀ high low, (decode high low).encode = (high, low)) ∧
    (∀ instr : Instruction, decode instr.encode.1 instr.encode.2 = instr.clipped) ∧
    (∀ instr : Instruction, instr.clipped.clipped = instr.clipped) ∧
    (∀ instr : Instruction,
      (∃ other : Instruction, other.clipped = instr) ↔ ∃ high low, decode high low = instr) ∧
    ∀ instr : Instruction, decode instr.clipped.encode.1 instr.clipped.encode.2 = instr.clipped := by
  have hidempotent (instr : Instruction) : instr.clipped.clipped = instr.clipped := by
    rw [← decode_encode instr, clipped_decode]
  refine ⟨encode_decode, decode_encode, hidempotent, fun instr => ⟨?_, ?_⟩, fun instr => ?_⟩
  · rintro ⟨other, rfl⟩
    exact ⟨other.encode.1, other.encode.2, decode_encode other⟩
  · rintro ⟨high, low, rfl⟩
    exact ⟨decode high low, clipped_decode high low⟩
  · rw [decode_encode, hidempotent]

-- A push with an offset that has no room, and an immediate whose high bits are cut off.
example :
    clipped ⟨0xF4, 0x11, true, .always, .add, 0xABCD, 100⟩ =
      ⟨0x4, 0x1, true, .always, .add, 0xFBCD, 4⟩ := by
  decide

end Instruction

end MicroCisc
