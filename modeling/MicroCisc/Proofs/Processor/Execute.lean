import MicroCisc.Processor.Step
import MicroCisc.Proofs.Device.Access

namespace MicroCisc

namespace Operand

-- The address that an operand reads on the bus, if it is a word of the bus.
def busAddress? (operand : Operand) (regs : Registers) (displacement : Word) : Option Word :=
  match operand with
  | .bus pointer => some (regs.get pointer + displacement)
  | _ => none

theorem isMemoryCode_eq_isMemory (code : UInt8) :
    isMemoryCode code = (ofDestinationCode code).isMemory := by
  unfold isMemoryCode ofSourceCode ofDestinationCode
  split <;> rfl

end Operand

namespace Instruction

variable {instr : Instruction}

theorem isPush_eq : instr.isPush = (instr.increment && instr.destinationOperand.isMemory) := by
  rw [isPush, Operand.isMemoryCode_eq_isMemory]
  rfl

theorem isPop_eq : instr.isPop =
    (instr.increment && instr.sourceOperand.isMemory && !instr.destinationOperand.isMemory) := by
  rw [isPop, Operand.isMemoryCode_eq_isMemory instr.destination]
  rfl

-- A pop stores no word of memory.
theorem isPop_eq_false (h : instr.destinationOperand.isMemory = true) : instr.isPop = false := by
  simp [isPop_eq, h]

end Instruction

namespace Processor

variable (cpu : Processor) (instr : Instruction)

-- The addresses on the bus that the operands read, that of the source first.
def readAddresses : List Word :=
  (instr.sourceOperand.busAddress? cpu.regs instr.immediate).toList
    ++ (instr.destinationOperand.busAddress? cpu.regs instr.displacement).toList

theorem snd_readOperand (operand : Operand) (displacement : Word) :
    (cpu.readOperand operand displacement .consume).2 =
      { cpu with
        bus := cpu.bus.afterReads cpu.id (operand.busAddress? cpu.regs displacement).toList } := by
  cases operand with
  | bus pointer =>
    simp only [readOperand, BusMaster.snd_read_consume, Operand.busAddress?, Option.toList_some]
    rfl
  | pc | memory pointer | register r | immediate | flags | interrupt => rfl

theorem snd_readOperand_peek (operand : Operand) (displacement : Word) :
    (cpu.readOperand operand displacement .peek).2 = cpu := by
  cases operand with
  | bus pointer => simp only [readOperand, BusMaster.snd_read_peek]
  | pc | memory pointer | register r | immediate | flags | interrupt => rfl

-- The operands as the ALU sees them.
def sourceValue : Word :=
  (cpu.readOperand instr.sourceOperand instr.immediate .consume).1

def destinationValue : Word :=
  ((cpu.readOperand instr.sourceOperand instr.immediate .consume).2.readOperand
    instr.destinationOperand instr.displacement .consume).1

def result : AluResult :=
  Alu.compute instr.alu (cpu.sourceValue instr) (cpu.destinationValue instr) cpu.regs.flags
    cpu.regs.overflow

-- Does the effect fire on the flags that the ALU produces?
def commits : Bool :=
  instr.effect.fires (cpu.result instr).flags

-- Both operands have been read and the ALU has run.
def computed : Processor :=
  { cpu with
    device := { cpu.device with
      kind := { cpu.regs with
        flags := (cpu.result instr).flags, overflow := (cpu.result instr).overflow } }
    bus := cpu.bus.afterReads cpu.id (cpu.readAddresses instr) }

-- The second read sees the registers that the first one saw, and the bus that it left.
theorem snd_readOperands :
    ((cpu.readOperand instr.sourceOperand instr.immediate .consume).2.readOperand
      instr.destinationOperand instr.displacement .consume).2 =
      { cpu with bus := cpu.bus.afterReads cpu.id (cpu.readAddresses instr) } := by
  simp only [snd_readOperand, readAddresses, Bus.afterReads, List.foldl_append]
  rfl

theorem execute_eq :
    cpu.execute instr =
      if cpu.commits instr then
        ((cpu.computed instr).pop instr).store instr (cpu.result instr).value
      else cpu.computed instr := by
  have hreads := cpu.snd_readOperands instr
  have hcomputed : cpu.computed instr =
      ((cpu.readOperand instr.sourceOperand instr.immediate .consume).2.readOperand
        instr.destinationOperand instr.displacement .consume).2.mapRegs fun regs =>
          { regs with
            flags := (cpu.result instr).flags, overflow := (cpu.result instr).overflow } := by
    rw [hreads]
    rfl
  have hregs : ((cpu.readOperand instr.sourceOperand instr.immediate .consume).2.readOperand
      instr.destinationOperand instr.displacement .consume).2.regs = cpu.regs := by
    rw [hreads]
    rfl
  simp only [execute, hregs, hcomputed]
  rfl

-- The address that an instruction stores at through a pointer register. A push stores one lower.
def target (pointer : Register) : Word :=
  cpu.regs.get pointer + instr.displacement - if instr.isPush then 1 else 0

-- The address that the instruction stores at on the bus, if it does.
def busTarget? : Option Word :=
  match instr.destinationOperand with
  | .bus pointer => some (cpu.target instr pointer)
  | _ => none

-- What the instruction stores on the bus, if it commits a store there: an address and a word.
def busStore? : Option (Word × Word) :=
  if cpu.commits instr then (cpu.busTarget? instr).map (·, (cpu.result instr).value) else none

-- The bus after an instruction, before time passes.
def busAfter : Bus :=
  let read := cpu.bus.afterReads cpu.id (cpu.readAddresses instr)
  match cpu.busStore? instr with
  | some (address, value) => read.afterWrite cpu.id address value
  | none => read

variable {cpu instr}

theorem storeAddress_eq (pointer : Register) :
    cpu.storeAddress instr pointer = cpu.target instr pointer := by
  unfold storeAddress target
  split <;> simp

-- A store through a pointer register, which no pop precedes.
theorem pop_of_isMemory (h : instr.destinationOperand.isMemory = true) : cpu.pop instr = cpu := by
  simp [pop, Instruction.isPop_eq_false h]

-- Pops and pushes adjust registers alone.
theorem pop_eq_mapRegs (cpu : Processor) (instr : Instruction) :
    ∃ f, cpu.pop instr = cpu.mapRegs f := by
  unfold pop
  split
  · split
    · exact ⟨_, rfl⟩
    · exact ⟨fun regs => regs, rfl⟩
  · exact ⟨fun regs => regs, rfl⟩

theorem push_eq_mapRegs (cpu : Processor) (instr : Instruction) (pointer : Register) :
    ∃ f, cpu.push instr pointer = cpu.mapRegs f := by
  unfold push
  split
  · exact ⟨_, rfl⟩
  · exact ⟨fun regs => regs, rfl⟩

theorem id_writeBus (address value : Word) : (cpu.writeBus address value).id = cpu.id :=
  cpu.toBusMaster.id_write address value

-- A store leaves the identity of the processor, its pace and its counters alone.
theorem store_eq (value : Word) :
    ∃ device bus state, cpu.store instr value = { cpu with device, bus, state } ∧
      device.id = cpu.id := by
  unfold store
  split
  · split <;> exact ⟨_, _, _, rfl, rfl⟩
  · next pointer _ =>
    obtain ⟨f, hpush⟩ := cpu.push_eq_mapRegs instr pointer
    rw [hpush]
    exact ⟨_, _, _, rfl, rfl⟩
  · next pointer _ =>
    obtain ⟨f, hpush⟩ := cpu.push_eq_mapRegs instr pointer
    rw [hpush]
    exact ⟨_, _, _, rfl, id_writeBus _ _⟩
  all_goals exact ⟨_, _, _, rfl, rfl⟩

theorem bus_store (value : Word) :
    (cpu.store instr value).bus =
      match cpu.busTarget? instr with
      | some address => cpu.bus.afterWrite cpu.id address value
      | none => cpu.bus := by
  unfold store busTarget?
  cases instr.destinationOperand with
  | pc =>
    simp only
    split <;> rfl
  | memory pointer =>
    obtain ⟨f, hpush⟩ := cpu.push_eq_mapRegs instr pointer
    simp only [hpush]
    rfl
  | bus pointer =>
    obtain ⟨f, hpush⟩ := cpu.push_eq_mapRegs instr pointer
    simp only [writeBus, BusMaster.bus_write, hpush, storeAddress_eq]
    rfl
  | register r | immediate | flags | interrupt => rfl

theorem execute_eq_with (cpu : Processor) (instr : Instruction) :
    ∃ device bus state, cpu.execute instr = { cpu with device, bus, state } ∧
      device.id = cpu.id := by
  rw [execute_eq]
  split
  · obtain ⟨f, hpop⟩ := (cpu.computed instr).pop_eq_mapRegs instr
    rw [hpop]
    exact store_eq _
  · exact ⟨_, _, _, rfl, rfl⟩

-- A pop, which does not go with a store on the bus, does not change where one would go.
theorem busTarget?_pop_computed :
    ((cpu.computed instr).pop instr).busTarget? instr = cpu.busTarget? instr := by
  unfold busTarget?
  split
  · next pointer hdestination =>
    rw [pop_of_isMemory (by rw [hdestination]; rfl)]
    rfl
  · rfl

theorem bus_execute (cpu : Processor) (instr : Instruction) :
    (cpu.execute instr).bus = cpu.busAfter instr := by
  rw [execute_eq, busAfter, busStore?]
  split
  · rw [bus_store, busTarget?_pop_computed]
    obtain ⟨f, hpop⟩ := (cpu.computed instr).pop_eq_mapRegs instr
    rw [hpop]
    cases cpu.busTarget? instr <;> rfl
  · rfl

theorem retire_eq_mapRegs (cpu : Processor) : ∃ f, cpu.retire = cpu.mapRegs f := by
  unfold retire
  split
  · exact ⟨_, rfl⟩
  · exact ⟨fun regs => regs, rfl⟩

-- The state of a processor after an instruction, before time passes.
theorem retire_execute_eq (cpu : Processor) (instr : Instruction) :
    ∃ device state, (cpu.execute instr).retire =
      { cpu with device, bus := cpu.busAfter instr, state } := by
  obtain ⟨device, bus, state, hexecute, -⟩ := cpu.execute_eq_with instr
  obtain ⟨f, hretire⟩ := (cpu.execute instr).retire_eq_mapRegs
  have hbus : bus = cpu.busAfter instr := by rw [← bus_execute, hexecute]
  rw [hretire, hexecute, hbus]
  exact ⟨_, _, rfl⟩

theorem bus_advance (cpu : Processor) :
    cpu.advance.bus = Bus.tick cpu.nanosPerInstruction (cpu.busAfter cpu.current) := by
  obtain ⟨device, state, hexecute⟩ := cpu.retire_execute_eq cpu.current
  rw [advance, hexecute]
  rfl

-- What a running processor does in one step.
theorem step_eq (hrun : cpu.isRunning = true) :
    cpu.step = .ok (cpu.current,
      { (cpu.execute cpu.current).retire.tickBus with
        cycles := (cpu.execute cpu.current).retire.cycles + 1, last := some cpu.current }) := by
  rw [step, hrun]
  rfl

-- What a step does to the bus and to the id that the devices there know the processor by.
theorem of_step_eq_ok {after : Processor} (h : cpu.step = .ok (instr, after)) :
    instr = cpu.current ∧ after.id = cpu.id ∧
      after.bus = Bus.tick cpu.nanosPerInstruction (cpu.busAfter cpu.current) := by
  have hrun : cpu.isRunning = true := by
    by_contra hhalted
    rw [step, if_neg hhalted] at h
    cases h
  rw [step_eq hrun] at h
  cases h
  obtain ⟨device, bus, state, hexecute, hid⟩ := cpu.execute_eq_with cpu.current
  obtain ⟨f, hretire⟩ := (cpu.execute cpu.current).retire_eq_mapRegs
  have hbus := cpu.bus_execute cpu.current
  rw [hretire, ← hbus, hexecute]
  exact ⟨rfl, hid, rfl⟩

end Processor

end MicroCisc
