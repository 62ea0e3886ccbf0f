import MicroCisc.Proofs.Instruction.Text
import MicroCisc.Processor.Step

namespace MicroCisc

namespace Instruction

variable {instr other : Instruction}

theorem LooksLike.displacement (h : instr.LooksLike other) :
    instr.displacement = other.displacement := by
  rw [Instruction.displacement, Instruction.displacement, h.offset]

-- With codes of four bits, only code 0 names the pc.
theorem isSelfJump_iff (hsource : instr.source.toNat < 16)
    (hdestination : instr.destination.toNat < 16) :
    instr.isSelfJump = true ↔ instr.sourceOperand = .pc ∧ instr.destinationOperand = .pc := by
  have hcodes : ∀ code : Fin 16,
      (Operand.ofSourceCode (.ofNat code) = .pc ↔ UInt8.ofNat code = 0) ∧
        (Operand.ofDestinationCode (.ofNat code) = .pc ↔ UInt8.ofNat code = 0) := by decide
  have hleft := (hcodes ⟨_, hsource⟩).1
  have hright := (hcodes ⟨_, hdestination⟩).2
  simp only [UInt8.ofNat_toNat] at hleft hright
  rw [sourceOperand, destinationOperand, hleft, hright]
  simp [isSelfJump]

theorem source_decode_lt (high low : Word) : (decode high low).source.toNat < 16 := by
  have hhigh := high.toNat_lt
  have hcode : (decode high low).source.toNat = high.toNat / 4096 % 256 := by
    simp [decode, Nat.shiftRight_eq_div_pow]
  omega

theorem destination_decode_lt (high low : Word) : (decode high low).destination.toNat < 16 := by
  have hle : (decode high low).destination.toNat ≤ 15 := by
    simp only [decode, UInt16.toNat_toUInt8, UInt16.toNat_and]
    exact Nat.le_trans (Nat.mod_le _ _) Nat.and_le_right
  omega

end Instruction

namespace Processor

variable {instr other : Instruction} (cpu : Processor)

theorem readOperand_of_unused {operand : Operand} (h : operand.usesImmediate = false)
    (displacement displacement' : Word) (access : Access) :
    cpu.readOperand operand displacement access = cpu.readOperand operand displacement' access := by
  cases operand with
  | flags | interrupt => rfl
  | pc | memory r | register r | bus r | immediate => cases h

theorem readSource_congr (h : instr.LooksLike other) (access : Access) :
    cpu.readOperand instr.sourceOperand instr.immediate access =
      cpu.readOperand other.sourceOperand other.immediate access := by
  rw [← h.source]
  by_cases huses : instr.sourceOperand.usesImmediate = true
  · rw [h.immediate huses]
  · exact cpu.readOperand_of_unused (Bool.not_eq_true _ ▸ huses) _ _ access

theorem pop_congr (h : instr.LooksLike other) : cpu.pop instr = cpu.pop other := by
  rw [pop, pop, h.isPop, h.source]

theorem store_congr (h : instr.LooksLike other) (hjump : instr.isSelfJump = other.isSelfJump)
    (value : Word) : cpu.store instr value = cpu.store other value := by
  have haddress (pointer : Register) : cpu.storeAddress instr pointer =
      cpu.storeAddress other pointer := by
    rw [storeAddress, storeAddress, h.displacement, h.isPush]
  have hpush (pointer : Register) : cpu.push instr pointer = cpu.push other pointer := by
    rw [push, push, h.isPush]
  simp only [store, h.destination, hjump, haddress, hpush]

theorem execute_congr (h : instr.LooksLike other) (hjump : instr.isSelfJump = other.isSelfJump) :
    cpu.execute instr = cpu.execute other := by
  simp only [execute, cpu.readSource_congr h, h.destination, h.displacement, h.alu, h.effect,
    pop_congr _ h, store_congr _ h hjump]

-- What a running processor does for an instruction, whichever it is.
def perform (instr : Instruction) : Processor :=
  let after := (cpu.execute instr).retire.tickBus
  { after with cycles := after.cycles + 1, last := some instr }

theorem advance_eq : cpu.advance = cpu.perform cpu.current :=
  rfl

-- Instructions that have the same text are executed alike. But for the record of the last
-- instruction, a processor is then the same after the one and after the other.
theorem perform_eq_of_text_eq {high low high' low' : Word}
    (h : (Instruction.decode high low).text = (Instruction.decode high' low').text)
    (cpu : Processor) :
    cpu.execute (.decode high low) = cpu.execute (.decode high' low') ∧
      { cpu.perform (.decode high low) with last := none } =
        { cpu.perform (.decode high' low') with last := none } := by
  have hlooks := Instruction.text_eq_iff.1 h
  have hjump : (Instruction.decode high low).isSelfJump =
      (Instruction.decode high' low').isSelfJump := by
    rw [Bool.eq_iff_iff, Instruction.isSelfJump_iff (Instruction.source_decode_lt _ _)
      (Instruction.destination_decode_lt _ _), Instruction.isSelfJump_iff
      (Instruction.source_decode_lt _ _) (Instruction.destination_decode_lt _ _), hlooks.source,
      hlooks.destination]
  have hexecute := cpu.execute_congr hlooks hjump
  refine ⟨hexecute, ?_⟩
  simp only [perform, hexecute]

-- From the flags to the flags, under both codes that a destination has for them, with and without
-- an increment, and with an immediate that nobody asks for.
theorem perform_eq_of_text_eq_flags :
    (Instruction.decode 0x8440 0x0000).text = "copy flags -> flags [always]" ∧
      (Instruction.decode 0x88C0 0x1234).text = "copy flags -> flags [always]" ∧
      ∀ cpu : Processor, cpu.execute (.decode 0x8440 0x0000) = cpu.execute (.decode 0x88C0 0x1234) ∧
        { cpu.perform (.decode 0x8440 0x0000) with last := none } =
          { cpu.perform (.decode 0x88C0 0x1234) with last := none } := by
  have hfirst : (Instruction.decode 0x8440 0x0000).text = "copy flags -> flags [always]" := by
    decide
  have hsecond : (Instruction.decode 0x88C0 0x1234).text = "copy flags -> flags [always]" := by
    decide
  exact ⟨hfirst, hsecond, perform_eq_of_text_eq (hfirst.trans hsecond.symm)⟩

end Processor

end MicroCisc
