import MicroCisc.Operand
import MicroCisc.Proofs.Faults.Basic
import MicroCisc.Proofs.Processor.CommitFrame

namespace MicroCisc

namespace Memory

-- A memory without words is not looked at.
def checkedRead (memory : Memory) (address : Word) : Checked Word :=
  if memory.words.isEmpty then return 0
  else do
    let index ← Checked.remainder address.toNat memory.words.size
    Checked.word memory.words index

def checkedWrite (memory : Memory) (address value : Word) : Checked Memory :=
  if memory.words.isEmpty then return memory
  else do
    let index ← Checked.remainder address.toNat memory.words.size
    if memory.romEnd ≤ index then
      let words ← Checked.setWord memory.words index value
      return { memory with words }
    else return memory

variable (memory : Memory) (address : Word)

theorem checkedRead_eq : memory.checkedRead address = pure (memory.read address) := by
  unfold checkedRead
  split
  · next hempty =>
    rw [Array.isEmpty_iff] at hempty
    simp [read, hempty]
  · next hwords =>
    have hsize : memory.words.size ≠ 0 := by simpa using hwords
    have hindex : address.toNat % memory.words.size < memory.words.size :=
      Nat.mod_lt _ (Nat.pos_of_ne_zero hsize)
    rw [Checked.remainder_ok hsize, pure_bind, Checked.word_ok hindex]
    rfl

theorem checkedWrite_eq (value : Word) :
    memory.checkedWrite address value = pure (memory.write address value) := by
  unfold checkedWrite
  split
  · next hempty =>
    obtain ⟨width, words, romEnd⟩ := memory
    rw [Array.isEmpty_iff] at hempty
    subst hempty
    simp [write]
  · next hwords =>
    have hsize : memory.words.size ≠ 0 := by simpa using hwords
    have hindex : address.toNat % memory.words.size < memory.words.size :=
      Nat.mod_lt _ (Nat.pos_of_ne_zero hsize)
    rw [Checked.remainder_ok hsize, pure_bind, Checked.setWord_ok hindex, pure_bind]
    exact (apply_ite pure _ _ _).symm

end Memory

namespace Registers

def checkedGet (regs : Registers) (number : Nat) : Checked Word := do
  let register ← Checked.register number
  return regs.get register

def checkedSet (regs : Registers) (number : Nat) (value : Word) : Checked Registers := do
  let register ← Checked.register number
  return regs.set register value

-- The slots from 9 to 14 are the registers, by a number that is 8 less.
def checkedReadSlot (regs : Registers) (memory : Memory) (slot : Slot) : Checked Word :=
  if 9 ≤ slot.val ∧ slot.val ≤ 14 then do
    let number ← Checked.subtract slot.val 8
    regs.checkedGet number
  else return regs.readSlot memory slot

def checkedWriteSlot (regs : Registers) (slot : Slot) (value : Word) : Checked Registers :=
  if 9 ≤ slot.val ∧ slot.val ≤ 14 then do
    let number ← Checked.subtract slot.val 8
    regs.checkedSet number value
  else return regs.writeSlot slot value

variable (regs : Registers) (register : Register)

theorem checkedGet_number : regs.checkedGet register.number = pure (regs.get register) := by
  rw [checkedGet, Checked.register_number, pure_bind]

theorem checkedSet_number (value : Word) :
    regs.checkedSet register.number value = pure (regs.set register value) := by
  rw [checkedSet, Checked.register_number, pure_bind]

example : initial.checkedGet 7 = throw (.register (.missing 7)) := rfl

end Registers

theorem Register.exists_slot_eq {slot : Slot} (h : 9 ≤ slot.val ∧ slot.val ≤ 14) :
    ∃ register : Register, register.slot = slot := by
  have hall : ∀ slot : Fin 16, 9 ≤ slot.val ∧ slot.val ≤ 14 →
      ∃ register ∈ Register.all, register.slot = slot := by decide
  obtain ⟨register, -, hslot⟩ := hall slot h
  exact ⟨register, hslot⟩

theorem Register.subtract_slot (register : Register) :
    Checked.subtract register.slot.val 8 = pure register.number := by
  have hval := register.val_slot
  rw [Checked.subtract_ok (by omega), hval, Nat.add_sub_cancel_left]

namespace Registers

variable (regs : Registers) (slot : Slot)

theorem checkedReadSlot_eq (memory : Memory) :
    regs.checkedReadSlot memory slot = pure (regs.readSlot memory slot) := by
  unfold checkedReadSlot
  split
  · next hslot =>
    obtain ⟨register, rfl⟩ := Register.exists_slot_eq hslot
    rw [register.subtract_slot, pure_bind, checkedGet_number]
    cases register <;> rfl
  · rfl

theorem checkedWriteSlot_eq (value : Word) :
    regs.checkedWriteSlot slot value = pure (regs.writeSlot slot value) := by
  unfold checkedWriteSlot
  split
  · next hslot =>
    obtain ⟨register, rfl⟩ := Register.exists_slot_eq hslot
    rw [register.subtract_slot, pure_bind, checkedSet_number]
    cases register <;> rfl
  · rfl

end Registers

/-! ### Operands -/

-- An operand as its code names it, with the register by number.
inductive NumberedOperand where
  | pc
  | memory (pointer : Nat)
  | register (number : Nat)
  | bus (pointer : Nat)
  | immediate
  | flags
  | interrupt

namespace NumberedOperand

def shared (code : Nat) : Checked NumberedOperand :=
  match code with
  | 0 => return .pc
  | 1 | 2 | 3 => return .memory code
  | 5 | 6 | 7 => return .register (← Checked.subtract code 4)
  | 9 | 10 | 11 => return .bus (← Checked.subtract code 5)
  | 12 => return .interrupt
  | 13 | 14 | 15 => return .register (← Checked.subtract code 9)
  | _ => return .flags

def ofSourceCode (code : UInt8) : Checked NumberedOperand :=
  match (code &&& 0xF).toNat with
  | 4 => return .immediate
  | code => shared code

def ofDestinationCode (code : UInt8) : Checked NumberedOperand :=
  match (code &&& 0xF).toNat with
  | 4 => return .flags
  | code => shared code

def register? : NumberedOperand → Option Nat
  | .memory n | .register n | .bus n => some n
  | _ => none

end NumberedOperand

namespace Operand

def numbered : Operand → NumberedOperand
  | .pc => .pc
  | .memory pointer => .memory pointer.number
  | .register r => .register r.number
  | .bus pointer => .bus pointer.number
  | .immediate => .immediate
  | .flags => .flags
  | .interrupt => .interrupt

theorem register?_numbered (operand : Operand) :
    operand.numbered.register? = operand.register?.map Register.number := by
  cases operand <;> rfl

theorem numbered_shared (code : Nat) :
    NumberedOperand.shared code = pure (shared code).numbered := by
  unfold NumberedOperand.shared shared
  split
  iterate 14 rfl
  simp_all [numbered]

theorem numbered_ofSourceCode (code : UInt8) :
    NumberedOperand.ofSourceCode code = pure (ofSourceCode code).numbered := by
  unfold NumberedOperand.ofSourceCode ofSourceCode
  generalize (code &&& 0xF).toNat = code
  split
  · rfl
  · next hcode => simp_all [numbered_shared]

theorem numbered_ofDestinationCode (code : UInt8) :
    NumberedOperand.ofDestinationCode code = pure (ofDestinationCode code).numbered := by
  unfold NumberedOperand.ofDestinationCode ofDestinationCode
  generalize (code &&& 0xF).toNat = code
  split
  · rfl
  · next hcode => simp_all [numbered_shared]

end Operand

end MicroCisc
