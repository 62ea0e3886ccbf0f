import MicroCisc.Debugger.Session
import MicroCisc.Proofs.Processor.Trajectory

namespace MicroCisc.Debugger.Checked

-- What a session does, unless a step fails.
abbrev Result := Except ProcessorError (Status × Session)

def executeOne (session : Session) : Except ProcessorError Session := do
  let (_, cpu) ← session.machine.cpu.step
  let (output, machine) := { session.machine with cpu }.pump
  return ({ session with machine }.writeBytes output.serial).writeBytes output.terminal

theorem cycles_of_executeOne_eq_ok {session next : Session} (h : executeOne session = .ok next) :
    next.machine.cpu.cycles = session.machine.cpu.cycles + 1 := by
  rw [executeOne] at h
  cases hstep : session.machine.cpu.step with
  | error error =>
    rw [hstep] at h
    cases h
  | ok stepped =>
    rw [hstep] at h
    cases h
    obtain ⟨-, hadvance⟩ := Processor.of_step_eq_ok_advance hstep
    have hpump := Machine.cycles_pump { session.machine with cpu := stepped.2 }
    exact hpump.trans (hadvance ▸ Processor.cycles_advance _)

def advance (session : Session) : Result :=
  if session.machine.isSpent session.used || session.machine.cpu.room == 0 then
    return session.atLimit
  else
    match _hnext : executeOne session with
    | .error error => .error error
    | .ok next =>
      if next.stepping || next.machine.cpu.isHalted then return next.printState.prompt
      else advance next
termination_by session.machine.cpu.room
decreasing_by
  have hroom : session.machine.cpu.room ≠ 0 := by simp_all
  rw [Processor.room, cycles_of_executeOne_eq_ok ‹_›]
  rw [Processor.room] at hroom ⊢
  omega

def proceed (session : Session) (stepping : Bool) : Result :=
  let machine := { session.machine with cpu := session.machine.cpu.resume }
  advance { session with machine, stepping }

def start (session : Session) : Result :=
  if session.machine.cpu.isHalted then return session.printState.prompt
  else proceed session false

def perform (session : Session) : Command → Result
  | .continue => proceed session false
  | .step => proceed session true
  | .peek code =>
      let read := session.machine.cpu.readOperand (.ofSourceCode code) 0 .peek
      let session := { session with machine := { session.machine with cpu := read.2 } }
      return (session.write s!"peek {code} = {read.1.hexNumber}\n").prompt
  | command => return session.perform command

def respond (session : Session) (line : List UInt8) : Result :=
  match Text.ofBytes? line with
  | some text => perform session (.ofLine text.toList)
  | none => return (.over (.failed .notText), session)

def respondAll : List (List UInt8) → Status × Session → Except ProcessorError (Outcome × Session)
  | _, (.over outcome, session) => return (outcome, session)
  | [], (.prompting, session) => return (.exited, session.close)
  | line :: rest, (.prompting, session) => do respondAll rest (← respond session line)

def run (machine : Machine) (input : List UInt8) : Except ProcessorError (Outcome × Session) := do
  respondAll (Text.lines 10 13 input) (← start (Session.ofMachine machine))

variable {session : Session}

theorem executeOne_eq (hrunning : session.machine.cpu.isRunning = true) :
    executeOne session = .ok session.executeOne := by
  rw [executeOne, Processor.step_of_isRunning hrunning]
  rfl

-- A session goes on only from a processor that has not halted.
theorem isRunning_of_goes_on
    (h : ¬(session.stepping || session.machine.cpu.isHalted) = true) :
    session.machine.cpu.isRunning = true := by
  rw [Bool.not_eq_true, Bool.or_eq_false_iff] at h
  simpa [Processor.isHalted] using h.2

theorem advance_eq (hrunning : session.machine.cpu.isRunning = true) :
    advance session = .ok session.advance := by
  fun_induction Session.advance session with
  | case1 session hover =>
    rw [advance, if_pos hover]
    rfl
  | case2 session hover next hstop =>
    rw [advance, if_neg hover, executeOne_eq hrunning]
    dsimp only
    rw [if_pos hstop]
    rfl
  | case3 session hover next hgoes ih =>
    rw [advance, if_neg hover, executeOne_eq hrunning]
    dsimp only
    rw [if_neg hgoes]
    exact ih (isRunning_of_goes_on hgoes)

theorem proceed_eq (session : Session) (stepping : Bool) :
    proceed session stepping = .ok (session.proceed stepping) :=
  advance_eq session.machine.cpu.isRunning_resume

theorem start_eq (session : Session) : start session = .ok session.start := by
  rw [start, Session.start, proceed_eq]
  split <;> rfl

theorem perform_eq (session : Session) (command : Command) :
    perform session command = .ok (session.perform command) := by
  cases command with
  | «continue» | step => exact proceed_eq session _
  | peek code =>
    simp only [perform, Processor.snd_readOperand_peek]
    rfl
  | print | exit | unknown text => rfl

theorem respond_eq (session : Session) (line : List UInt8) :
    respond session line = .ok (session.respond line) := by
  rw [respond, Session.respond]
  cases Text.ofBytes? line with
  | some text => exact perform_eq session (.ofLine text.toList)
  | none => rfl

theorem respondAll_eq (lines : List (List UInt8)) (answer : Status × Session) :
    respondAll lines answer = .ok (Session.respondAll lines answer) := by
  induction lines generalizing answer with
  | nil => obtain ⟨_ | outcome, session⟩ := answer <;> rfl
  | cons line rest ih =>
    obtain ⟨_ | outcome, session⟩ := answer
    · rw [respondAll, respond_eq]
      exact ih (session.respond line)
    · rfl

-- No step of a session fails, whatever the machine and the input.
theorem run_eq (machine : Machine) (input : List UInt8) :
    run machine input = .ok (Debugger.run machine input) := by
  rw [run, start_eq]
  exact respondAll_eq _ _

end MicroCisc.Debugger.Checked
