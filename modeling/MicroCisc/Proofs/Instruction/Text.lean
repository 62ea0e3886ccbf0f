import Mathlib.Data.List.Nodup
import MicroCisc.Instruction
import MicroCisc.Proofs.Text.Numeral

namespace MicroCisc

theorem takeWhile_append_of_separated {p : Char → Bool} {word rest : List Char}
    (hword : ∀ c ∈ word, p c = true) (hrest : ∀ c ∈ rest.head?, p c = false) :
    (word ++ rest).takeWhile p = word := by
  rw [List.takeWhile_append_of_pos hword]
  cases rest with
  | nil => simp
  | cons c rest => simp [hrest c rfl]

-- A word at the start of a text ends where a character follows that is not one of its own.
theorem append_inj_of_separated {p : Char → Bool} {word word' rest rest' : List Char}
    (hword : ∀ c ∈ word, p c = true) (hword' : ∀ c ∈ word', p c = true)
    (hrest : ∀ c ∈ rest.head?, p c = false) (hrest' : ∀ c ∈ rest'.head?, p c = false)
    (h : word ++ rest = word' ++ rest') : word = word' ∧ rest = rest' := by
  have hsame : word = word' := by
    rw [← takeWhile_append_of_separated hword hrest, h,
      takeWhile_append_of_separated hword' hrest']
  subst hsame
  exact ⟨rfl, List.append_cancel_left h⟩

/-! ### The words of a text -/

def Operand.all : List Operand :=
  [.pc, .immediate, .flags, .interrupt] ++
    Register.all.flatMap fun r => [.memory r, .register r, .bus r]

def AluOp.all : List AluOp :=
  [.copy, .and, .or, .xor, .invert, .shiftLeft, .shiftRight, .swapBytes, .highByte, .lowByte, .add,
    .subtract, .multiply, .divide, .pageMask, .overflowAnd]

def Effect.all : List Effect :=
  [.zero, .notZero, .negative, .never, .always, .overflow, .error, .interrupt]

theorem Operand.mem_all (operand : Operand) : operand ∈ all := by
  cases operand with
  | memory r | register r | bus r => cases r <;> decide
  | pc | immediate | flags | interrupt => decide

theorem AluOp.mem_all (op : AluOp) : op ∈ all := by
  cases op <;> decide

theorem Effect.mem_all (effect : Effect) : effect ∈ all := by
  cases effect <;> decide

theorem Operand.text_inj {operand operand' : Operand} (h : operand.text = operand'.text) :
    operand = operand' :=
  List.inj_on_of_nodup_map (f := Operand.text) (by decide) operand.mem_all operand'.mem_all h

theorem AluOp.mnemonic_inj {op op' : AluOp} (h : op.mnemonic = op'.mnemonic) : op = op' :=
  List.inj_on_of_nodup_map (by decide) op.mem_all op'.mem_all h

theorem Effect.label_inj {effect effect' : Effect} (h : effect.label = effect'.label) :
    effect = effect' :=
  List.inj_on_of_nodup_map (by decide) effect.mem_all effect'.mem_all h

-- A character of a name, which is no blank and no sign.
def isNameChar (c : Char) : Bool :=
  c != ' ' && c != '+' && c != '-'

theorem Operand.isNameChar_text (operand : Operand) : ∀ c ∈ operand.text.toList, isNameChar c := by
  have hall : (all.all fun operand => operand.text.toList.all isNameChar) = true := by decide
  exact List.all_eq_true.1 (List.all_eq_true.1 hall operand operand.mem_all)

theorem AluOp.isNameChar_mnemonic (op : AluOp) : ∀ c ∈ op.mnemonic.toList, isNameChar c := by
  have hall : (all.all fun op => op.mnemonic.toList.all isNameChar) = true := by decide
  exact List.all_eq_true.1 (List.all_eq_true.1 hall op op.mem_all)

theorem digits_blank {radix : Nat} (htwo : 2 ≤ radix) (hradix : radix ≤ 16) (width n : Nat) :
    ∀ c ∈ Numeral.digits radix width n, (c != ' ') = true := by
  intro c hc
  rw [bne_iff_ne]
  rintro rfl
  have hblank : Numeral.digitValue? radix ' ' = none := rfl
  exact Numeral.not_mem_digits htwo hradix hblank width n hc

-- A displacement, which is shown only if there is one.
def displacementText (n : Int) : String :=
  if n = 0 then "" else signedNumber n

theorem displacementText_inj {n m : Int} (h : displacementText n = displacementText m) : n = m := by
  have hne : ∀ k, signedNumber k ≠ "" := by
    intro k hk
    have hlist := congrArg String.toList hk
    rw [toList_signedNumber] at hlist
    cases hlist
  unfold displacementText at h
  split at h <;> split at h
  · omega
  · exact absurd h.symm (hne m)
  · exact absurd h (hne n)
  · exact signedNumber_inj h

theorem displacementText_blank (n : Int) : ∀ c ∈ (displacementText n).toList, (c != ' ') = true := by
  unfold displacementText
  split
  · simp
  · rw [toList_signedNumber, List.forall_mem_cons]
    refine ⟨?_, digits_blank (by decide) (by decide) 0 n.natAbs⟩
    split <;> rfl

-- What follows a name is a sign or a blank.
theorem head?_displacementText (n : Int) (rest : List Char) :
    ∀ c ∈ ((displacementText n).toList ++ ' ' :: rest).head?, isNameChar c = false := by
  unfold displacementText
  split
  · simp [isNameChar]
  · rw [toList_signedNumber]
    split <;> simp [isNameChar]

-- Does a source of this kind take the immediate, as a literal or as a displacement?
def Operand.usesImmediate : Operand → Bool
  | .flags | .interrupt => false
  | _ => true

namespace Instruction

variable {instr other : Instruction}

theorem offsetText_eq (instr : Instruction) :
    instr.offsetText = displacementText instr.offset.toInt := by
  have hzero : instr.offset = 0 ↔ instr.offset.toInt = 0 := by
    rw [← Int8.toInt_inj, Int8.toInt_zero]
  simp only [offsetText, displacementText, beq_iff_eq, hzero]

theorem immediateText_eq_empty (h : instr.sourceOperand.usesImmediate = false) :
    instr.immediateText = "" := by
  unfold immediateText
  split <;> simp_all [Operand.usesImmediate]

theorem immediateText_of_immediate (h : instr.sourceOperand = .immediate) :
    instr.immediateText.toList = ' ' :: '0' :: 'x' :: Numeral.digits 16 4 instr.immediate.toNat := by
  simp [immediateText, h, Word.hexNumber, Word.hex, Numeral.text]

theorem immediateText_of_displaced (huses : instr.sourceOperand.usesImmediate = true)
    (hne : instr.sourceOperand ≠ .immediate) :
    instr.immediateText = displacementText instr.immediate.signed := by
  have hzero : instr.immediate = 0 ↔ instr.immediate.signed = 0 :=
    ⟨fun h => by rw [h]; rfl, fun h => Word.signed_inj h⟩
  unfold immediateText displacementText
  split
  · next h => simp [h, Operand.usesImmediate] at huses
  · next h => simp [h, Operand.usesImmediate] at huses
  · next h => exact absurd h hne
  · simp only [beq_iff_eq, hzero]

-- What follows the name of the source, whatever follows it in turn.
theorem immediate_eq_of_text (hsource : instr.sourceOperand = other.sourceOperand)
    {rest rest' : List Char}
    (h : instr.immediateText.toList ++ ' ' :: rest = other.immediateText.toList ++ ' ' :: rest') :
    (instr.sourceOperand.usesImmediate = true → instr.immediate = other.immediate) ∧
      rest = rest' := by
  by_cases huses : instr.sourceOperand.usesImmediate = true
  · have huses' : other.sourceOperand.usesImmediate = true := hsource ▸ huses
    by_cases hliteral : instr.sourceOperand = .immediate
    · have hdigit (w : Word) : ∀ c ∈ Numeral.digits 16 4 w.toNat, (c != ' ') = true :=
        digits_blank (by decide) (by decide) 4 w.toNat
      rw [immediateText_of_immediate hliteral, immediateText_of_immediate (hsource ▸ hliteral)] at h
      simp only [List.cons_append, List.cons.injEq, true_and] at h
      obtain ⟨hdigits, hrest⟩ :=
        append_inj_of_separated (hdigit _) (hdigit _) (by simp) (by simp) h
      have himmediate := Numeral.digits_inj (by decide) (by decide) hdigits
      exact ⟨fun _ => UInt16.toNat_inj.1 himmediate, (List.cons.inj hrest).2⟩
    · rw [immediateText_of_displaced huses hliteral,
        immediateText_of_displaced huses' (hsource ▸ hliteral)] at h
      obtain ⟨htext, hrest⟩ := append_inj_of_separated (displacementText_blank _)
        (displacementText_blank _) (by simp) (by simp) h
      have himmediate := displacementText_inj (String.toList_inj.1 htext)
      exact ⟨fun _ => Word.signed_inj himmediate, (List.cons.inj hrest).2⟩
  · rw [Bool.not_eq_true] at huses
    rw [immediateText_eq_empty huses, immediateText_eq_empty (hsource ▸ huses)] at h
    exact ⟨by simp [huses], (List.cons.inj h).2⟩

theorem head?_immediateText (instr : Instruction) (rest : List Char) :
    ∀ c ∈ (instr.immediateText.toList ++ ' ' :: rest).head?, isNameChar c = false := by
  by_cases huses : instr.sourceOperand.usesImmediate = true
  · by_cases hliteral : instr.sourceOperand = .immediate
    · rw [immediateText_of_immediate hliteral]
      simp [isNameChar]
    · rw [immediateText_of_displaced huses hliteral]
      exact head?_displacementText _ rest
  · rw [Bool.not_eq_true] at huses
    rw [immediateText_eq_empty huses]
    simp [isNameChar]

theorem exists_stackText_append (instr : Instruction) (rest : List Char) :
    ∃ rest', instr.stackText.toList ++ ' ' :: rest = ' ' :: rest' := by
  unfold stackText
  split
  · exact ⟨_, rfl⟩
  · split <;> exact ⟨_, rfl⟩

theorem isPop_of_isPush (h : instr.isPush = true) : instr.isPop = false := by
  simp only [isPush, Bool.and_eq_true] at h
  simp [isPop, h.2]

-- Pushes, pops and the effect stand at the end.
theorem eq_of_ending {rest rest' : List Char}
    (h : instr.stackText.toList ++ ' ' :: '[' :: rest = other.stackText.toList ++ ' ' :: '[' :: rest') :
    instr.isPush = other.isPush ∧ instr.isPop = other.isPop ∧ rest = rest' := by
  have hpop := @isPop_of_isPush instr
  have hpop' := @isPop_of_isPush other
  unfold stackText at h
  -- A push, a pop and neither of them differ in the two characters that follow the blank.
  cases hpush : instr.isPush <;> cases hpush' : other.isPush <;> cases hp : instr.isPop <;>
    cases hp' : other.isPop <;> simp_all

-- Two instructions that agree in all that a text shows.
structure LooksLike (instr other : Instruction) : Prop where
  alu : instr.alu = other.alu
  source : instr.sourceOperand = other.sourceOperand
  immediate : instr.sourceOperand.usesImmediate = true → instr.immediate = other.immediate
  destination : instr.destinationOperand = other.destinationOperand
  offset : instr.offset = other.offset
  isPush : instr.isPush = other.isPush
  isPop : instr.isPop = other.isPop
  effect : instr.effect = other.effect

theorem toList_text (instr : Instruction) :
    instr.text.toList =
      instr.alu.mnemonic.toList ++ ' ' :: (instr.sourceOperand.text.toList ++
        (instr.immediateText.toList ++ ' ' :: '-' :: '>' :: ' ' ::
          (instr.destinationOperand.text.toList ++ (instr.offsetText.toList ++
            (instr.stackText.toList ++ ' ' :: '[' :: (instr.effect.label.toList ++ [']'])))))) := by
  simp [text]

theorem looksLike_of_text_eq (h : instr.text = other.text) : instr.LooksLike other := by
  have hlist := congrArg String.toList h
  rw [toList_text, toList_text] at hlist
  obtain ⟨hmnemonic, hlist⟩ := append_inj_of_separated (AluOp.isNameChar_mnemonic _)
    (AluOp.isNameChar_mnemonic _) (by simp [isNameChar]) (by simp [isNameChar]) hlist
  obtain ⟨hsourceText, hlist⟩ := append_inj_of_separated (Operand.isNameChar_text _)
    (Operand.isNameChar_text _) (instr.head?_immediateText _) (other.head?_immediateText _)
    (List.cons.inj hlist).2
  have hsource := Operand.text_inj (String.toList_inj.1 hsourceText)
  obtain ⟨himmediate, hlist⟩ := immediate_eq_of_text hsource hlist
  simp only [List.cons.injEq, true_and] at hlist
  rw [offsetText_eq, offsetText_eq] at hlist
  obtain ⟨rest, hrest⟩ := instr.exists_stackText_append ('[' :: (instr.effect.label.toList ++ [']']))
  obtain ⟨rest', hrest'⟩ :=
    other.exists_stackText_append ('[' :: (other.effect.label.toList ++ [']']))
  rw [hrest, hrest'] at hlist
  obtain ⟨hdestination, hlist⟩ := append_inj_of_separated (Operand.isNameChar_text _)
    (Operand.isNameChar_text _) (head?_displacementText _ _) (head?_displacementText _ _) hlist
  obtain ⟨hoffset, hlist⟩ := append_inj_of_separated (displacementText_blank _)
    (displacementText_blank _) (by simp) (by simp) hlist
  rw [← hrest, ← hrest'] at hlist
  obtain ⟨hpush, hpop, hlabel⟩ := eq_of_ending hlist
  constructor
  · exact AluOp.mnemonic_inj (String.toList_inj.1 hmnemonic)
  · exact hsource
  · exact himmediate
  · exact Operand.text_inj (String.toList_inj.1 hdestination)
  · exact Int8.toInt_inj.1 (displacementText_inj (String.toList_inj.1 hoffset))
  · exact hpush
  · exact hpop
  · exact Effect.label_inj (String.toList_inj.1 (List.append_cancel_right hlabel))

-- The text shows no more than that.
theorem LooksLike.text_eq (h : instr.LooksLike other) : instr.text = other.text := by
  have himmediate : instr.immediateText = other.immediateText := by
    by_cases huses : instr.sourceOperand.usesImmediate = true
    · rw [immediateText, immediateText, h.source, h.immediate huses]
    · rw [Bool.not_eq_true] at huses
      rw [immediateText_eq_empty huses, immediateText_eq_empty (h.source ▸ huses)]
  have hoffset : instr.offsetText = other.offsetText := by rw [offsetText, offsetText, h.offset]
  have hstack : instr.stackText = other.stackText := by
    rw [stackText, stackText, h.isPush, h.isPop]
  rw [text, text, h.alu, h.source, himmediate, h.destination, hoffset, hstack, h.effect]

theorem text_eq_iff : instr.text = other.text ↔ instr.LooksLike other :=
  ⟨looksLike_of_text_eq, LooksLike.text_eq⟩

end Instruction

end MicroCisc
