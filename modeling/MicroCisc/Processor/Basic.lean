import MicroCisc.Device.Bus
import MicroCisc.Instruction

namespace MicroCisc

inductive RunState where
  | running
  -- Stopped on a self-jump. The code is the word that r1 pointed at.
  | halted (code : Word)
  deriving DecidableEq, Repr

def RunState.describe : RunState → String
  | .running => "Running"
  | .halted code => s!"Halted \x7b code: {code} \x7d"

inductive ProcessorError where
  | notRunning (state : RunState)
  deriving DecidableEq, Repr

def ProcessorError.message : ProcessorError → String
  | .notRunning state => s!"processor not running: {state.describe}"

structure Processor extends BusMaster Registers where
  state : RunState
  -- Instructions executed since the last reset, and the nanoseconds that each takes. Numbers of 64
  -- bits hold them as long as the processor `HasRoom` for one more instruction, and a run ends where
  -- no further one can be counted.
  cycles : Nat
  nanosPerInstruction : Nat
  last : Option Instruction

namespace Processor

def defaultNanosPerInstruction : UInt64 := 100

-- A processor that runs, with a memory of 2^width words. It needs a memory, whatever its id.
def ofWidth (id : Word) (width : UInt8) : Except DeviceError Processor :=
  if width == 0 then .error (.addressWidth 0)
  else (Device.ofKind id Registers.initial width).map fun device =>
    { device := device.setHalted false
      bus := []
      state := .running
      cycles := 0
      nanosPerInstruction := defaultNanosPerInstruction.toNat
      last := none }

def id (cpu : Processor) : Word :=
  cpu.device.id

def regs (cpu : Processor) : Registers :=
  cpu.device.kind

def memory (cpu : Processor) : Memory :=
  cpu.device.memory

def mapDevice (f : Device Registers → Device Registers) : Processor → Processor
  | { device, bus, state, cycles, nanosPerInstruction, last } =>
      { device := f device, bus, state, cycles, nanosPerInstruction, last }

def mapRegs (f : Registers → Registers) (cpu : Processor) : Processor :=
  cpu.mapDevice fun device => { device with kind := f device.kind }

def isRunning (cpu : Processor) : Bool :=
  cpu.state == .running

def isHalted (cpu : Processor) : Bool :=
  !cpu.isRunning

def haltCode? (cpu : Processor) : Option Word :=
  match cpu.state with
  | .running => none
  | .halted code => some code

def setPc (cpu : Processor) (pc : Word) : Processor :=
  cpu.mapRegs (·.setPc pc)

def raiseInterrupt (cpu : Processor) (pointer : Word) : Processor :=
  cpu.mapRegs (·.raiseInterrupt pointer)

-- Registers and run state start again. The memory and the bus stay.
def reset (cpu : Processor) : Processor :=
  let device := { cpu.device with kind := Registers.initial }
  { cpu with device := device.setHalted false, state := .running, cycles := 0, last := none }

def resume (cpu : Processor) : Processor :=
  match cpu.state with
  | .running => cpu
  | .halted _ =>
      let cpu := cpu.mapDevice fun device =>
        { device with kind := device.kind.setPc (device.kind.pc + 2) }.setHalted false
      { cpu with state := .running }

def load (cpu : Processor) (loader : Memory → Memory.LoadResult) :
    Processor × Option DeviceError :=
  let (device, error) := cpu.device.load loader
  ({ cpu with device }, error)

def connect (cpu : Processor) (index : UInt8) (tree : DeviceTree) :
    Except DeviceError Processor :=
  (cpu.toBusMaster.connect index tree).map fun master => { cpu with toBusMaster := master }

def current (cpu : Processor) : Instruction :=
  .decode (cpu.memory.read cpu.regs.pc) (cpu.memory.read (cpu.regs.pc + 1))

def describe (cpu : Processor) : String :=
  s!"Processor \x7b id: {cpu.id}, state: {cpu.state.describe}, cycles: {cpu.cycles}, "
    ++ s!"regs: {cpu.regs.describe} \x7d"

end Processor

end MicroCisc
