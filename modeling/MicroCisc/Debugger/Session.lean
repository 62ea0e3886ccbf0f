import MicroCisc.Debugger.Command
import MicroCisc.FileError
import MicroCisc.Machine
import MicroCisc.Text.Encoding

namespace MicroCisc.Debugger

inductive Outcome where
  | exited
  | cycleLimit (cycles : Nat)
  -- A line of the input could not be read.
  | failed (error : FileError)
  deriving DecidableEq, Repr

structure Session where
  machine : Machine
  startCycles : Nat
  stepping : Bool
  output : Array UInt8

inductive Status where
  | prompting
  | over (outcome : Outcome)
  deriving DecidableEq, Repr

namespace Session

def ofMachine (machine : Machine) : Session :=
  { machine, startCycles := machine.cpu.cycles, stepping := false, output := #[] }

def writeBytes (session : Session) (bytes : Array UInt8) : Session :=
  { session with output := session.output ++ bytes }

def write (session : Session) (text : String) : Session :=
  session.writeBytes text.toUTF8.data

def stateText (cpu : Processor) : String :=
  let regs := cpu.regs
  let halted := match cpu.haltCode? with
    | some code => s!"halted with code {code.hexNumber}\n"
    | none => ""
  let general := Register.all.map fun r => s!"{r.name}={(regs.get r : Word).hexNumber}"
  halted
    ++ s!"pc={regs.pc.hexNumber} next={regs.next.hexNumber} flags={regs.flags.describe} "
    ++ s!"overflow={regs.overflow.hexNumber} "
    ++ s!"int={cpu.device.control.interruptHandler.hexNumber} cycles={cpu.cycles}\n"
    ++ " ".intercalate general ++ "\n"
    ++ s!"{regs.pc.hex}: {cpu.current.text}\n"

def printState (session : Session) : Session :=
  session.write (stateText session.machine.cpu)

def prompt (session : Session) : Status × Session :=
  (.prompting, session.write "> ")

def used (session : Session) : Nat :=
  session.machine.cpu.cycles - session.startCycles

def executeOne (session : Session) : Session :=
  let machine := { session.machine with cpu := session.machine.cpu.advance }
  let (output, machine) := machine.pump
  ({ session with machine }.writeBytes output.serial).writeBytes output.terminal

theorem cycles_executeOne (session : Session) :
    session.executeOne.machine.cpu.cycles = session.machine.cpu.cycles + 1 :=
  (Machine.cycles_pump _).trans session.machine.cpu.cycles_advance

def atLimit (session : Session) : Status × Session :=
  let used := session.used
  (.over (.cycleLimit used),
    session.write s!"cycle limit reached after {used} instructions\n")

-- Executes instructions up to the next stop. It is also the limit where no further cycle can be
-- counted.
def advance (session : Session) : Status × Session :=
  if session.machine.isSpent session.used || session.machine.cpu.room == 0 then session.atLimit
  else
    let next := session.executeOne
    if next.stepping || next.machine.cpu.isHalted then next.printState.prompt
    else next.advance
termination_by session.machine.cpu.room
decreasing_by
  have hroom : session.machine.cpu.room ≠ 0 := by simp_all
  rw [Processor.room, cycles_executeOne]
  rw [Processor.room] at hroom ⊢
  omega

def proceed (session : Session) (stepping : Bool) : Status × Session :=
  let machine := { session.machine with cpu := session.machine.cpu.resume }
  { session with machine, stepping }.advance

def start (session : Session) : Status × Session :=
  if session.machine.cpu.isHalted then session.printState.prompt
  else session.proceed false

def perform (session : Session) : Command → Status × Session
  | .continue => session.proceed false
  | .step => session.proceed true
  | .print => session.printState.prompt
  | .peek code =>
      let value := session.machine.cpu.peek code
      (session.write s!"peek {code} = {value.hexNumber}\n").prompt
  | .exit => (.over .exited, session)
  | .unknown text =>
      (session.write s!"unknown command '{text}' (c, n, p, peek <code>, e)\n").prompt

def respond (session : Session) (line : List UInt8) : Status × Session :=
  match Text.ofBytes? line with
  | some text => session.perform (.ofLine text.toList)
  | none => (.over (.failed .notText), session)

def close (session : Session) : Session :=
  session.write "\n"

def respondAll : List (List UInt8) → Status × Session → Outcome × Session
  | _, (.over outcome, session) => (outcome, session)
  | [], (.prompting, session) => (.exited, session.close)
  | line :: rest, (.prompting, session) => respondAll rest (session.respond line)

end Session

def run (machine : Machine) (input : List UInt8) : Outcome × Session :=
  Session.respondAll (Text.lines 10 13 input) (Session.ofMachine machine).start

end MicroCisc.Debugger
