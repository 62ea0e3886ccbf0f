import MicroCisc.Config.Basic
import MicroCisc.Device.Location
import MicroCisc.Processor.Step
import MicroCisc.Program

namespace MicroCisc

structure Machine where
  cpu : Processor
  -- In the order of their ids.
  serialLines : List Location
  terminals : List Location
  maxCycles : Option Nat
  startPc : Word
  rom : Bool

inductive RunOutcome where
  | halted (code : Word)
  | cycleLimit (cycles : Nat)
  deriving DecidableEq, Repr

structure Output where
  serial : Array UInt8
  terminal : Array UInt8
  deriving DecidableEq, Repr

namespace Output

def empty : Output :=
  ⟨#[], #[]⟩

def append (output later : Output) : Output :=
  ⟨output.serial ++ later.serial, output.terminal ++ later.terminal⟩

instance : Append Output :=
  ⟨append⟩

end Output

-- Where the host finds the serial lines and terminals that have been built.
structure Ports where
  serialLines : List Location
  terminals : List Location

namespace Ports

def empty : Ports :=
  ⟨[], []⟩

def enter (ports : Ports) (kind : KindConfig) (location : Location) : Ports :=
  match kind with
  | .serial _ _ => { ports with serialLines := location.enter ports.serialLines }
  | .terminal => { ports with terminals := location.enter ports.terminals }
  | .leds | .memory _ | .processor _ => ports

end Ports

namespace KindConfig

def initialKind [Generator] : KindConfig → Kind
  | .serial baud fill => .serial (.ofBaud baud fill)
  | .terminal => .terminal .initial
  | .leds => .leds .dark
  | .memory _ => .memory
  | .processor _ => .processor .initial

def width : KindConfig → UInt8
  | .serial _ _ | .leds => 0
  | .terminal => Terminal.addressWidth
  | .memory width | .processor width => width

end KindConfig

mutual

-- Builds the device that `path` leads to, with all that is below it. A device that the host talks to
-- is entered among the ports before it is known whether it can be built.
def DeviceConfig.buildAt [Generator] (path : List UInt8) (ports : Ports) :
    DeviceConfig → Except DeviceError (DeviceTree × Ports)
  | { id, kind, connected, .. } => do
      let ports := ports.enter kind ⟨id, path⟩
      let device ← Device.ofKind id kind.initialKind kind.width
      let (master, ports) ← DeviceConfig.connectBelow path ports ⟨device, []⟩ connected
      return (master.toTree, ports)

def DeviceConfig.connectBelow [Generator] (path : List UInt8) (ports : Ports)
    (master : BusMaster Kind) : List DeviceConfig → Except DeviceError (BusMaster Kind × Ports)
  | [] => return (master, ports)
  | config :: rest => do
      let (tree, ports) ← config.buildAt (path ++ [config.index]) ports
      let master ← master.connect config.index tree
      DeviceConfig.connectBelow path ports master rest

end

namespace ProcessorConfig

def build (config : ProcessorConfig) : Except DeviceError Processor :=
  (Processor.ofWidth config.id config.addressWidth).map fun cpu =>
    let cpu := cpu.mapRegs fun regs =>
      { regs with flags := regs.flags.put .signed config.signed }
    { cpu with nanosPerInstruction := config.nanosPerInstruction.toNat }

end ProcessorConfig

namespace Machine

def addDevice [Generator] (built : BusMaster Registers × Ports) (config : DeviceConfig) :
    Except DeviceError (BusMaster Registers × Ports) := do
  let (tree, ports) ← config.buildAt [config.index] built.2
  let master ← built.1.connect config.index tree
  return (master, ports)

def ofConfig [Generator] (config : MachineConfig) : Except DeviceError Machine := do
  let cpu ← config.processor.build
  let (master, ports) ← config.devices.foldlM addDevice (cpu.toBusMaster, Ports.empty)
  let cpu := { cpu with toBusMaster := master }
  return {
    cpu := cpu.setPc config.processor.startPc
    serialLines := ports.serialLines
    terminals := ports.terminals
    maxCycles := config.maxCycles.map UInt64.toNat
    startPc := config.processor.startPc
    rom := config.processor.rom }

-- Loads a program and points the pc to the configured start, unless the program does not fit.
def load (machine : Machine) (program : Program) : Machine × Option DeviceError :=
  let (cpu, error) := machine.cpu.load fun memory =>
    if machine.rom then memory.loadRom program.words else memory.loadProgram program.words
  let cpu := if error.isNone then cpu.setPc machine.startPc else cpu
  ({ machine with cpu }, error)

variable {α : Type}

def visitDevice (machine : Machine) (f : Kind → Option α × Kind) (location : Location) :
    Option α × Machine :=
  let (answer, bus) := machine.cpu.bus.visitKind f location.path
  (answer, { machine with cpu := { machine.cpu with bus } })

def serialLine? (machine : Machine) (id : Word) : Option Location :=
  machine.serialLines.find? (·.id == id)

def terminal? (machine : Machine) (id : Word) : Option Location :=
  machine.terminals.find? (·.id == id)

def feed (machine : Machine) (location : Location) (bytes : List UInt8) : Option Nat × Machine :=
  machine.visitDevice (Kind.feed bytes) location

def drain (machine : Machine) (location : Location) : Array UInt8 × Machine :=
  let (bytes, machine) := machine.visitDevice Kind.drain location
  (bytes.getD #[], machine)

def take (machine : Machine) (location : Location) : Array UInt8 × Machine :=
  let (bytes, machine) := machine.visitDevice Kind.take location
  (bytes.getD #[], machine)

-- The bytes of the first serial line. Those of the others are dropped.
def pumpSerial (machine : Machine) : Array UInt8 × Machine :=
  match machine.serialLines with
  | [] => (#[], machine)
  | first :: rest =>
      let (bytes, machine) := machine.drain first
      (bytes, rest.foldl (fun machine location => (machine.drain location).2) machine)

def pumpTerminals (machine : Machine) : Array UInt8 × Machine :=
  machine.terminals.foldl (fun (bytes, machine) location =>
    let (more, machine) := machine.take location
    (bytes ++ more, machine)) (#[], machine)

def pump (machine : Machine) : Output × Machine :=
  let (serial, machine) := machine.pumpSerial
  let (terminal, machine) := machine.pumpTerminals
  (⟨serial, terminal⟩, machine)

theorem cycles_pumpSerial (machine : Machine) :
    machine.pumpSerial.2.cpu.cycles = machine.cpu.cycles := by
  have hrest (rest : List Location) (start : Machine) :
      (rest.foldl (fun machine location => (machine.drain location).2) start).cpu.cycles =
        start.cpu.cycles := by
    induction rest generalizing start with
    | nil => rfl
    | cons location rest ih => exact ih (start.drain location).2
  unfold pumpSerial
  split
  · rfl
  · next first rest _ => exact hrest rest (machine.drain first).2

theorem cycles_pump (machine : Machine) : machine.pump.2.cpu.cycles = machine.cpu.cycles := by
  have hall (locations : List Location) (start : Array UInt8 × Machine) :
      (locations.foldl (fun (bytes, machine) location =>
        let (more, machine) := machine.take location
        (bytes ++ more, machine)) start).2.cpu.cycles = start.2.cpu.cycles := by
    induction locations generalizing start with
    | nil => rfl
    | cons location rest ih => exact ih (_, (start.2.take location).2)
  exact (hall _ _).trans machine.cycles_pumpSerial

def pumpInterval : Nat := 256

def runLimited (machine : Machine) (limit : Nat) : Nat × Machine :=
  let (count, cpu) := machine.cpu.runLimited limit
  (count, { machine with cpu })

def isSpent (machine : Machine) (used : Nat) : Bool :=
  machine.maxCycles.any (· ≤ used)

def budget (machine : Machine) (used : Nat) : Nat :=
  match machine.maxCycles with
  | some max => min pumpInterval (max - used)
  | none => pumpInterval

variable {m : Type → Type} [Monad m]

-- Goes on with a run that began at a count of cycles, and hands over the output of each interval.
def runFrom (emit : Output → m Unit) (start : Nat) (machine : Machine) :
    m (RunOutcome × Machine) :=
  let used := machine.cpu.cycles - start
  if machine.isSpent used then do
    let (output, after) := machine.pump
    emit output
    return (.cycleLimit used, after)
  else do
    let ran := machine.runLimited (machine.budget used)
    let pumped := ran.2.pump
    emit pumped.1
    match pumped.2.cpu.haltCode? with
    | some code => return (.halted code, pumped.2)
    | none =>
        -- Once the cycles can no longer be counted, nothing would ever change.
        if ran.1 = 0 then return (.cycleLimit used, pumped.2)
        else runFrom emit start pumped.2
termination_by machine.cpu.room
decreasing_by
  rw [Processor.room, cycles_pump]
  exact Processor.room_runLimited_lt ‹_›

def runEmitting (emit : Output → m Unit) (machine : Machine) : m (RunOutcome × Machine) :=
  machine.runFrom emit machine.cpu.cycles

def run (machine : Machine) : (RunOutcome × Machine) × Output :=
  StateT.run (m := Id) (machine.runEmitting fun output => modify (· ++ output)) Output.empty

end Machine

end MicroCisc
