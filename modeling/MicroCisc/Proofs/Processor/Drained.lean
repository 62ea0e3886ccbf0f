import MicroCisc.Proofs.Device.Drained
import MicroCisc.Proofs.Processor.Trajectory

namespace MicroCisc.Processor

-- The host has taken all that the devices of the processor have sent.
def drained (cpu : Processor) : Processor :=
  { cpu with bus := cpu.bus.drained }

variable (cpu : Processor) (instr : Instruction)

theorem drained_drained : cpu.drained.drained = cpu.drained := by
  simp only [drained, Bus.drained_drained]

theorem isRunning_drained : cpu.drained.isRunning = cpu.isRunning :=
  rfl

theorem drained_mapDevice (f : Device Registers → Device Registers) :
    (cpu.mapDevice f).drained = cpu.drained.mapDevice f :=
  rfl

theorem readOperand_drained (operand : Operand) (displacement : Word) (access : Access) :
    cpu.drained.readOperand operand displacement access =
      ((cpu.readOperand operand displacement access).1,
        (cpu.readOperand operand displacement access).2.drained) := by
  cases operand with
  | bus pointer =>
    have hread := cpu.toBusMaster.read_drained (cpu.regs.get pointer + displacement) access
    have hmaster : cpu.drained.toBusMaster = cpu.toBusMaster.drained := rfl
    have hregs : cpu.drained.regs = cpu.regs := rfl
    simp only [readOperand, hregs, hmaster, hread]
    rfl
  | pc | memory pointer | register r | immediate | flags | interrupt => rfl

theorem pop_drained : cpu.drained.pop instr = (cpu.pop instr).drained := by
  unfold pop
  split
  · split <;> rfl
  · rfl

theorem push_drained (pointer : Register) :
    cpu.drained.push instr pointer = (cpu.push instr pointer).drained := by
  unfold push
  split <;> rfl

theorem drained_writeBus (address value : Word) :
    (cpu.drained.writeBus address value).drained = (cpu.writeBus address value).drained := by
  have hwrite := cpu.toBusMaster.drained_write address value
  unfold BusMaster.drained at hwrite
  simp only [BusMaster.mk.injEq] at hwrite
  simp only [writeBus, drained, mk.injEq, BusMaster.mk.injEq, and_true]
  exact hwrite

theorem drained_store (value : Word) :
    (cpu.drained.store instr value).drained = (cpu.store instr value).drained := by
  have hregs : cpu.drained.regs = cpu.regs := rfl
  have haddress : ∀ pointer, cpu.drained.storeAddress instr pointer =
      cpu.storeAddress instr pointer := fun _ => rfl
  unfold store
  cases instr.destinationOperand with
  | pc =>
    simp only [hregs]
    split
    · exact cpu.halt.drained_drained
    · exact (cpu.mapRegs fun regs => regs.setNext value).drained_drained
  | memory pointer =>
    simp only [haddress, push_drained, ← drained_mapDevice, drained_drained]
  | bus pointer => simp only [haddress, push_drained, drained_writeBus]
  | register r => exact (cpu.mapRegs fun regs => regs.set r value).drained_drained
  | flags => exact (cpu.mapRegs fun regs => { regs with flags := ⟨value⟩ }).drained_drained
  | interrupt => exact (cpu.mapDevice fun device => device.setInterruptHandler value).drained_drained
  | immediate => exact cpu.drained_drained

theorem sourceValue_drained : cpu.drained.sourceValue instr = cpu.sourceValue instr := by
  unfold sourceValue
  rw [readOperand_drained]

theorem destinationValue_drained :
    cpu.drained.destinationValue instr = cpu.destinationValue instr := by
  unfold destinationValue
  rw [readOperand_drained, readOperand_drained]

theorem result_drained : cpu.drained.result instr = cpu.result instr := by
  unfold result
  rw [sourceValue_drained, destinationValue_drained]
  rfl

theorem commits_drained : cpu.drained.commits instr = cpu.commits instr := by
  unfold commits
  rw [result_drained]

theorem computed_drained : cpu.drained.computed instr = (cpu.computed instr).drained := by
  have hreads := cpu.snd_readOperands instr
  have hreadsDrained := cpu.drained.snd_readOperands instr
  rw [readOperand_drained, readOperand_drained, hreads] at hreadsDrained
  have hbus : Bus.afterReads cpu.drained.id cpu.drained.bus (cpu.drained.readAddresses instr) =
      (Bus.afterReads cpu.id cpu.bus (cpu.readAddresses instr)).drained :=
    (congrArg (fun after : Processor => after.bus) hreadsDrained).symm
  unfold computed
  rw [result_drained, hbus]
  rfl

theorem busStore?_drained : cpu.drained.busStore? instr = cpu.busStore? instr := by
  unfold busStore?
  rw [commits_drained, result_drained]
  rfl

theorem drained_execute : (cpu.drained.execute instr).drained = (cpu.execute instr).drained := by
  rw [execute_eq, execute_eq, commits_drained]
  split
  · rw [computed_drained, pop_drained, drained_store, result_drained]
  · rw [computed_drained, drained_drained]

theorem retire_drained : cpu.drained.retire = cpu.retire.drained := by
  unfold retire
  rw [isRunning_drained]
  split <;> rfl

theorem drained_tickBus : cpu.drained.tickBus.drained = cpu.tickBus.drained := by
  have htick := cpu.toBusMaster.drained_tick cpu.nanosPerInstruction
  unfold BusMaster.drained at htick
  simp only [BusMaster.mk.injEq] at htick
  simp only [tickBus, drained, mk.injEq, BusMaster.mk.injEq, and_true]
  exact htick

theorem drained_advance : cpu.drained.advance.drained = cpu.advance.drained := by
  have hexecute := cpu.drained_execute cpu.current
  have hticked : (cpu.drained.execute cpu.current).retire.tickBus.drained =
      (cpu.execute cpu.current).retire.tickBus.drained := by
    rw [← drained_tickBus, ← retire_drained, hexecute, retire_drained, drained_tickBus]
  exact congrArg (fun after : Processor =>
    { after with cycles := after.cycles + 1, last := some cpu.current }) hticked

section Congruence

variable {left right : Processor} (h : left.drained = right.drained)

include h

theorem isRunning_congr : left.isRunning = right.isRunning := by
  rw [← isRunning_drained, h, isRunning_drained]

theorem drained_advance_congr : left.advance.drained = right.advance.drained := by
  rw [← drained_advance, h, drained_advance]

-- Processors that differ in undrained output alone do so after any number of instructions.
theorem drained_runFor_congr (n : Nat) :
    (runFor n left).drained = (runFor n right).drained := by
  induction n generalizing left right with
  | zero => exact h
  | succ n ih =>
    rw [runFor, runFor, isRunning_congr h]
    split
    · exact ih (drained_advance_congr h)
    · exact h

end Congruence

end MicroCisc.Processor
