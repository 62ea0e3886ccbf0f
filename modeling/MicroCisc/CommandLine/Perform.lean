import MicroCisc.CommandLine.Host
import MicroCisc.CommandLine.Request
import MicroCisc.Config.Printer
import MicroCisc.Config.Reader
import MicroCisc.Conformance
import MicroCisc.Debugger.Session
import MicroCisc.Device.ChaCha
import MicroCisc.Image
import MicroCisc.Json.Reader
import MicroCisc.Listing
import MicroCisc.Processor.Snapshot

namespace MicroCisc.CommandLine

def versionText : String :=
  "ucisc-emu 0.1.0\n"

def usageText : String :=
  "Usage: ucisc-emu <COMMAND>\n\n"
    ++ "Commands:\n"
    ++ "  run <PROGRAMS>...    run programs until they halt\n"
    ++ "  test <PROGRAMS>...   run the tests of programs\n"
    ++ "  disasm <PROGRAM>     disassemble a program\n"
    ++ "  dump-config          print the configuration of the machine\n\n"
    ++ "Options of run and test:\n"
    ++ "  -c, --config <FILE>  the configuration of the machine\n\n"
    ++ "Options of run:\n"
    ++ "  -d, --debug          stop at every halt and take commands\n"
    ++ "      --rx <FILE>      bytes for the first serial line\n"
    ++ "      --tx <FILE>      where its output goes\n"
    ++ "  -m, --max-cycles <N> stop after so many instructions\n"
    ++ "  -t, --trace          accepted, without effect\n"
    ++ "      --dump <FILE>    write a snapshot of the processor after the run\n"

variable {m : Type → Type} [Monad m] [Host m]

abbrev Job (m : Type → Type) := ExceptT UInt8 m

namespace Job

def print (text : String) : Job m Unit :=
  ExceptT.lift (Host.write text.toUTF8.data)

def note (text : String) : Job m Unit :=
  ExceptT.lift (Host.writeError (text ++ "\n"))

def fail {α : Type} (message : String) : Job m α := do
  note s!"error: {message}"
  throw 1

def orFail {ε α : Type} (message : ε → String) : Except ε α → Job m α
  | .ok value => return value
  | .error error => fail (message error)

def readFile (path : String) : Job m (Except FileError (List UInt8)) :=
  ExceptT.lift (Host.readFile path)

def writeFile (path : String) (bytes : Array UInt8) : Job m (Except FileError Unit) :=
  ExceptT.lift (Host.writeFile path bytes)

def loadConfig : Option String → Job m MachineConfig
  | none => return .standard
  | some path => do
      let config := match ← readFile path with
        | .ok bytes => MachineConfig.ofBytes bytes
        | .error error => .error (.file error)
      orFail (fun error => s!"Failed to load {path}: {error.message}") config

def loadProgram (path : String) : Job m Program := do
  orFail (fun error => s!"Failed to load {path}: {error.message}")
    (Image.ofFile path (← readFile path))

def loadPrograms (paths : List String) : Job m Program := do
  let program := Program.concat (← paths.mapM loadProgram)
  if program.words.isEmpty then fail "No instructions to execute"
  return program

def prepare (request : RunRequest) : Job m Machine := do
  let config ← loadConfig request.config
  let program ← loadPrograms request.programs
  let machine ← orFail (fun error => s!"Failed to build machine: {error.message}")
    (Machine.ofConfig config)
  let maxCycles := request.maxCycles.orElse fun _ => machine.maxCycles
  match ({ machine with maxCycles } : Machine).load program with
  | (_, some error) => fail s!"Failed to load program: {error.message}"
  | (machine, none) => return machine

-- Sends a file to the first serial line, if there is one. A folder can be opened, but has nothing
-- to send.
def feedFile (machine : Machine) (path : String) : Job m Machine := do
  match machine.serialLines with
  | [] => return machine
  | location :: _ =>
      match ← readFile path with
      | .ok bytes => return (machine.feed location bytes).2
      | .error .isDirectory => return machine
      | .error error => fail s!"Failed to open {path}: {error.message}"

def noteLimit (cycles : Nat) : Job m Unit :=
  note s!"Reached max cycles limit ({cycles}). Use --max-cycles to increase."

def noteOutcome (machine : Machine) : RunOutcome → Job m Unit
  | .halted code =>
      note (s!"Halted at pc={machine.cpu.regs.pc.hexNumber} with code {code.hexNumber} "
        ++ s!"after {machine.cpu.cycles} cycles")
  | .cycleLimit cycles => noteLimit cycles

def runShown (machine : Machine) : Job m (RunOutcome × Machine) :=
  ExceptT.lift (machine.runEmitting fun output => Host.write (output.serial ++ output.terminal))

def runKept (machine : Machine) : Job m ((RunOutcome × Machine) × Array UInt8) :=
  ExceptT.lift <| StateT.run (m := m) (machine.runEmitting fun output => do
    modify (· ++ output.serial)
    StateT.lift (Host.write output.terminal)) #[]

def writeOrFail (verb path : String) (bytes : Array UInt8) : Job m Unit := do
  orFail (fun error => s!"Failed to {verb} {path}: {error.message}") (← writeFile path bytes)

-- Runs a machine to its end. The file for the serial line has to be there before the run.
def runPlain (machine : Machine) : Option String → Job m Machine
  | none => do
      let (outcome, machine) ← runShown machine
      noteOutcome machine outcome
      return machine
  | some path => do
      writeOrFail "open" path #[]
      let ((outcome, machine), serial) ← runKept machine
      writeOrFail "write" path serial
      noteOutcome machine outcome
      return machine

open Debugger in
def debugging : Dialogue Session (Outcome × Machine) where
  answer session line :=
    let (status, session) := session.respond line
    let left := { session with output := #[] }
    match status with
    | .prompting => (session.output, .inl left)
    | .over outcome => (session.output, .inr (outcome, session.machine))
  close session :=
    let session := session.close
    (session.output, (.exited, session.machine))

open Debugger in
def runDebugger (machine : Machine) : Job m Machine := do
  let (status, session) := (Session.ofMachine machine).start
  ExceptT.lift (Host.write session.output)
  let (outcome, machine) ← match status with
    | .prompting => ExceptT.lift (Host.converse debugging { session with output := #[] })
    | .over outcome => pure (outcome, session.machine)
  match outcome with
  | .exited => return machine
  | .cycleLimit cycles =>
      noteLimit cycles
      return machine
  | .failed error => fail s!"Debugger error: I/O error: {error.message}"

def run (request : RunRequest) : Job m Unit := do
  let machine ← prepare request
  let machine ← match request.rx with
    | none => pure machine
    | some path => feedFile machine path
  let machine ← if request.debug then runDebugger machine else runPlain machine request.tx
  match request.dump with
  | none => return
  | some path => writeOrFail "write" path (JsonFormat.print machine.cpu.snapshot).toUTF8.data

def outcomeLine (path : String) (outcome : TestOutcome) : String :=
  let place := s!"{path} @ {outcome.offset.hexNumber}"
  if outcome.passed then s!"{place}... ok\n"
  else
    let actual := match outcome.actual with
      | some code => code.hexNumber
      | none => "no halt"
    s!"{place}... FAILED (expected {outcome.expected.hexNumber}, got {actual})\n"

def testFile (config : MachineConfig) (path : String) : Job m (List TestOutcome) := do
  let program ← loadProgram path
  if program.tests.entries.isEmpty then
    print s!"{path}: no tests\n"
    return []
  let outcomes ← orFail (fun error => s!"Failed to run {path}: {error.message}")
    (Conformance.runTests program config)
  outcomes.forM fun outcome => print (outcomeLine path outcome)
  return outcomes

def test (programs : List String) (config : Option String) : Job m Unit := do
  let config ← loadConfig config
  let outcomes ← programs.mapM (testFile config)
  let (passed, failed) := outcomes.flatten.partition (·.passed)
  print s!"\nResults: {passed.length} passed, {failed.length} failed\n"
  if !failed.isEmpty then throw 1

def perform : Request → Job m Unit
  | .run request => run request
  | .test programs config => test programs config
  | .disassemble path => do print (Listing.ofWords (← loadProgram path).words ++ "\n")
  | .showConfig path => do print ((← loadConfig path).text ++ "\n")

def stop : Stop → Job m Unit
  | .usage => do
      note ("error: wrong arguments\n\n" ++ usageText)
      throw 2
  | .help => print usageText
  | .version => print versionText

end Job

def execute (args : List String) : m UInt8 := do
  let job : Job m Unit := match Request.ofArguments args with
    | .ok request => Job.perform request
    | .error reason => Job.stop reason
  match ← ExceptT.run job with
  | .ok () => return 0
  | .error code => return code

end MicroCisc.CommandLine
