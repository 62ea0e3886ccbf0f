import MicroCisc.Processor.Basic

namespace MicroCisc

namespace Instruction

def displacement (instr : Instruction) : Word :=
  instr.offset.toInt16.toUInt16

end Instruction

namespace Processor

-- The value of an operand. Only a read of the bus can change anything.
def readOperand (cpu : Processor) (operand : Operand) (displacement : Word) (access : Access) :
    Word × Processor :=
  match operand with
  | .pc => (cpu.regs.pc + displacement, cpu)
  | .memory pointer => (cpu.memory.read (cpu.regs.get pointer + displacement), cpu)
  | .register r => (cpu.regs.get r + displacement, cpu)
  | .bus pointer =>
      let (value, master) := cpu.toBusMaster.read (cpu.regs.get pointer + displacement) access
      (value, { cpu with toBusMaster := master })
  | .immediate => (displacement, cpu)
  | .flags => (cpu.regs.flags.bits, cpu)
  | .interrupt => (cpu.device.control.interruptHandler, cpu)

def peek (cpu : Processor) (code : UInt8) : Word :=
  (cpu.readOperand (.ofSourceCode code) 0 .peek).1

def pop (cpu : Processor) (instr : Instruction) : Processor :=
  if instr.isPop then
    match instr.sourceOperand.register? with
    | some pointer => cpu.mapRegs fun regs => regs.set pointer (regs.get pointer + 1)
    | none => cpu
  else cpu

-- Where an instruction stores through a pointer register: a push stores one word lower.
def storeAddress (cpu : Processor) (instr : Instruction) (pointer : Register) : Word :=
  let address := cpu.regs.get pointer + instr.displacement
  if instr.isPush then address - 1 else address

def push (cpu : Processor) (instr : Instruction) (pointer : Register) : Processor :=
  if instr.isPush then
    cpu.mapRegs fun regs => regs.set pointer (regs.get pointer - 1)
  else cpu

def halt (cpu : Processor) : Processor :=
  let code := cpu.memory.read (cpu.regs.get .r1)
  { cpu.mapDevice (·.setHalted true) with state := .halted code }

def writeBus (cpu : Processor) (address value : Word) : Processor :=
  { cpu with toBusMaster := cpu.toBusMaster.write address value }

-- Commits a result. A self-jump that would store its own address halts the processor instead.
def store (cpu : Processor) (instr : Instruction) (value : Word) : Processor :=
  match instr.destinationOperand with
  | .pc =>
      if instr.isSelfJump && value == cpu.regs.pc then cpu.halt
      else cpu.mapRegs (·.setNext value)
  | .memory pointer =>
      let address := cpu.storeAddress instr pointer
      (cpu.push instr pointer).mapDevice (·.writeLocal address value)
  | .bus pointer =>
      let address := cpu.storeAddress instr pointer
      (cpu.push instr pointer).writeBus address value
  | .register r => cpu.mapRegs (·.set r value)
  | .flags => cpu.mapRegs fun regs => { regs with flags := ⟨value⟩ }
  | .interrupt => cpu.mapDevice (·.setInterruptHandler value)
  | .immediate => cpu

def execute (cpu : Processor) (instr : Instruction) : Processor :=
  let (source, cpu) := cpu.readOperand instr.sourceOperand instr.immediate .consume
  let (destination, cpu) := cpu.readOperand instr.destinationOperand instr.displacement .consume
  let result := Alu.compute instr.alu source destination cpu.regs.flags cpu.regs.overflow
  let cpu := cpu.mapRegs fun regs =>
    { regs with flags := result.flags, overflow := result.overflow }
  if instr.effect.fires result.flags then (cpu.pop instr).store instr result.value else cpu

def retire (cpu : Processor) : Processor :=
  if cpu.isRunning then cpu.mapRegs (·.retire) else cpu

def tickBus (cpu : Processor) : Processor :=
  { cpu with toBusMaster := cpu.toBusMaster.tick cpu.nanosPerInstruction }

def advance (cpu : Processor) : Processor :=
  let instr := cpu.current
  let cpu := (cpu.execute instr).retire.tickBus
  { cpu with cycles := cpu.cycles + 1, last := some instr }

def step (cpu : Processor) : Except ProcessorError (Instruction × Processor) :=
  if cpu.isRunning then .ok (cpu.current, cpu.advance) else .error (.notRunning cpu.state)

theorem cycles_mapDevice (f : Device Registers → Device Registers) (cpu : Processor) :
    (cpu.mapDevice f).cycles = cpu.cycles :=
  rfl

theorem cycles_readOperand (cpu : Processor) (operand : Operand) (displacement : Word)
    (access : Access) : (cpu.readOperand operand displacement access).2.cycles = cpu.cycles := by
  cases operand <;> rfl

theorem cycles_pop (cpu : Processor) (instr : Instruction) :
    (cpu.pop instr).cycles = cpu.cycles := by
  unfold pop
  split
  · split <;> rfl
  · rfl

theorem cycles_push (cpu : Processor) (instr : Instruction) (pointer : Register) :
    (cpu.push instr pointer).cycles = cpu.cycles := by
  unfold push
  split <;> rfl

theorem cycles_store (cpu : Processor) (instr : Instruction) (value : Word) :
    (cpu.store instr value).cycles = cpu.cycles := by
  unfold store
  cases instr.destinationOperand with
  | pc => dsimp only; split <;> rfl
  | memory pointer | bus pointer => exact cpu.cycles_push instr pointer
  | register | flags | interrupt | immediate => rfl

theorem cycles_execute (cpu : Processor) (instr : Instruction) :
    (cpu.execute instr).cycles = cpu.cycles := by
  unfold execute
  dsimp only
  split
  · rw [cycles_store, cycles_pop, mapRegs, cycles_mapDevice, cycles_readOperand,
      cycles_readOperand]
  · rw [mapRegs, cycles_mapDevice, cycles_readOperand, cycles_readOperand]

theorem cycles_advance (cpu : Processor) : cpu.advance.cycles = cpu.cycles + 1 := by
  have hretire : (cpu.execute cpu.current).retire.cycles = cpu.cycles := by
    unfold retire
    split
    · rw [mapRegs, cycles_mapDevice, cycles_execute]
    · exact cpu.cycles_execute _
  exact congrArg (· + 1) hretire

-- The highest count of cycles. They are counted in 64 bits.
def mostCycles : Nat := 0xFFFFFFFFFFFFFFFF

def room (cpu : Processor) : Nat :=
  mostCycles - cpu.cycles

-- Runs until the processor halts. Where no further cycle can be counted, the run ends without a
-- halt.
def run (cpu : Processor) : Option Word × Processor :=
  match cpu.haltCode? with
  | some code => (some code, cpu)
  | none => if cpu.cycles < mostCycles then run cpu.advance else (none, cpu)
termination_by cpu.room
decreasing_by
  rw [room, room, cycles_advance]
  omega

def saturatingAdd (a b : Nat) : Nat :=
  min (a + b) mostCycles

def runBelow (limit : Nat) (cpu : Processor) : Processor :=
  if cpu.isRunning && cpu.cycles < limit then runBelow limit cpu.advance else cpu
termination_by limit - cpu.cycles
decreasing_by
  have hbelow : cpu.cycles < limit := by simp_all
  rw [cycles_advance]
  omega

theorem cycles_runBelow_le (limit : Nat) (cpu : Processor) :
    (runBelow limit cpu).cycles ≤ max limit cpu.cycles := by
  fun_induction runBelow limit cpu with
  | case1 cpu hgoes ih =>
    have hbelow : cpu.cycles < limit := by simp_all
    rw [cycles_advance] at ih
    omega
  | case2 cpu _ => exact Nat.le_max_right _ _

def runLimited (cpu : Processor) (limit : Nat) : Nat × Processor :=
  let after := cpu.runBelow (saturatingAdd cpu.cycles limit)
  (after.cycles - cpu.cycles, after)

theorem room_runLimited_lt {cpu : Processor} {limit : Nat} (h : (cpu.runLimited limit).1 ≠ 0) :
    mostCycles - (cpu.runLimited limit).2.cycles < cpu.room := by
  have hle := cycles_runBelow_le (saturatingAdd cpu.cycles limit) cpu
  have hran : (cpu.runBelow (saturatingAdd cpu.cycles limit)).cycles - cpu.cycles ≠ 0 := h
  have hmost : saturatingAdd cpu.cycles limit ≤ mostCycles := Nat.min_le_right _ _
  change mostCycles - (cpu.runBelow (saturatingAdd cpu.cycles limit)).cycles < _
  rw [room]
  omega

end Processor

end MicroCisc
