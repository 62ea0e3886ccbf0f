import MicroCisc.Proofs.Debugger.Session
import MicroCisc.Proofs.Machine.Collecting

namespace MicroCisc

namespace Processor

-- The trajectory of a debugged processor: before each step it is resumed.
def onward : Nat → Processor → Processor
  | 0, cpu => cpu
  | n + 1, cpu => (onward n cpu).resume.advance

variable {left right : Processor}

theorem cycles_onward (n : Nat) (cpu : Processor) : (cpu.onward n).cycles = cpu.cycles + n := by
  induction n with
  | zero => rfl
  | succ n ih => rw [onward, cycles_advance, cycles_resume, ih, Nat.add_assoc]

theorem drained_resume_congr (h : left.drained = right.drained) :
    left.resume.drained = right.resume.drained := by
  rw [← resume_drained, h, resume_drained]

end Processor

-- A change of the processor that undrained output does not show in.
theorem Machine.drained_cpu_congr {f : Processor → Processor}
    (hf : ∀ {left right : Processor}, left.drained = right.drained →
      (f left).drained = (f right).drained) {left right : Machine} (h : left.drained = right.drained) :
    { left with cpu := f left.cpu }.drained = { right with cpu := f right.cpu }.drained := by
  unfold drained at h ⊢
  simp only [mk.injEq] at h ⊢
  exact ⟨hf h.1, h.2⟩

namespace Debugger

namespace Session

/-! ### The trajectory -/

-- A session on a machine that has come to a state of its processor, but for what it has pumped.
structure StandsAt (machine : Machine) (cpu : Processor) (session : Session) : Prop where
  state : session.machine.drained = { machine with cpu }.drained
  startCycles : session.startCycles = machine.cpu.cycles

-- What a session on a machine has come to after so many instructions. At the limit of the machine it
-- stops only once it has resumed the processor.
def Follows (machine : Machine) (count : Nat) : Status × Session → Prop
  | (.over (.cycleLimit cycles), session) =>
      cycles = count ∧ count = machine.limit ∧
        session.StandsAt machine (machine.cpu.onward count).resume
  | (_, session) => session.StandsAt machine (machine.cpu.onward count)

variable {machine : Machine} {cpu : Processor} {session : Session} {count : Nat}

namespace StandsAt

variable (h : session.StandsAt machine cpu)

include h

theorem isRunning_eq : session.machine.cpu.isRunning = cpu.isRunning :=
  Machine.view_eq_of_drained_eq (·.cpu.isRunning) (fun _ => rfl) h.state

theorem cycles_eq : session.machine.cpu.cycles = cpu.cycles :=
  Machine.view_eq_of_drained_eq (·.cpu.cycles) (fun _ => rfl) h.state

theorem maxCycles_eq : session.machine.maxCycles = machine.maxCycles := by
  rw [Machine.view_eq_of_drained_eq (·.maxCycles) (fun _ => rfl) h.state]

theorem used_eq (hcycles : cpu.cycles = machine.cpu.cycles + count) : session.used = count := by
  rw [used, h.cycles_eq, h.startCycles, hcycles, Nat.add_sub_cancel_left]

theorem left_eq (hcycles : cpu.cycles = machine.cpu.cycles + count) :
    session.machine.left session.startCycles = machine.limit - count := by
  rw [h.startCycles]
  exact Machine.left_eq_sub h.maxCycles_eq (Nat.le_refl _) (h.cycles_eq.trans hcycles)

theorem write (text : String) : (session.write text).StandsAt machine cpu :=
  ⟨h.state, h.startCycles⟩

theorem printState : session.printState.StandsAt machine cpu :=
  h.write (stateText session.machine.cpu)

theorem executeOne : session.executeOne.StandsAt machine cpu.advance := by
  have hpump := Machine.drained_pump { session.machine with cpu := session.machine.cpu.advance }
  have hadvance := Machine.drained_cpu_congr Processor.drained_advance_congr h.state
  exact ⟨hpump.trans hadvance, h.startCycles⟩

end StandsAt

theorem follows_prompt (h : session.StandsAt machine (machine.cpu.onward count)) :
    Follows machine count session.prompt :=
  h.write "> "

theorem exists_follows_advance (h : session.StandsAt machine (machine.cpu.onward count).resume)
    (hle : count ≤ machine.limit) :
    ∃ later ≤ machine.limit, Follows machine later session.advance := by
  have hcycles (count : Nat) :
      (machine.cpu.onward count).resume.cycles = machine.cpu.cycles + count := by
    rw [Processor.cycles_resume, Processor.cycles_onward]
  fun_induction Session.advance session generalizing count with
  | case1 session hover =>
    have hleft := h.left_eq (hcycles count)
    rw [left_eq_zero_iff.2 hover] at hleft
    exact ⟨count, hle, h.used_eq (hcycles count), by omega, h.write _⟩
  | case2 session hover =>
    have hpositive := mt left_eq_zero_iff.1 hover
    rw [h.left_eq (hcycles count)] at hpositive
    have hnext : session.executeOne.StandsAt machine (machine.cpu.onward (count + 1)) := h.executeOne
    exact ⟨count + 1, by omega, follows_prompt hnext.printState⟩
  | case3 session hover =>
    rename_i hgoes ih
    have hpositive := mt left_eq_zero_iff.1 hover
    rw [h.left_eq (hcycles count)] at hpositive
    have hnext : session.executeOne.StandsAt machine (machine.cpu.onward (count + 1)) := h.executeOne
    -- The processor has not halted, so that to resume it changes nothing.
    have hrunning : (machine.cpu.onward (count + 1)).isRunning = true := by
      rw [← hnext.isRunning_eq]
      exact Checked.isRunning_of_goes_on hgoes
    rw [← Processor.resume_of_isRunning hrunning] at hnext
    exact ih hnext (by omega)

theorem exists_follows_proceed (h : session.StandsAt machine (machine.cpu.onward count))
    (hle : count ≤ machine.limit) (stepping : Bool) :
    ∃ later ≤ machine.limit, Follows machine later (session.proceed stepping) := by
  have hresumed : StandsAt machine (machine.cpu.onward count).resume
      { session with
        machine := { session.machine with cpu := session.machine.cpu.resume }, stepping } :=
    ⟨Machine.drained_cpu_congr Processor.drained_resume_congr h.state, h.startCycles⟩
  exact exists_follows_advance hresumed hle

theorem exists_follows_start (machine : Machine) :
    ∃ count ≤ machine.limit, Follows machine count (ofMachine machine).start := by
  have hstart : (ofMachine machine).StandsAt machine (machine.cpu.onward 0) := ⟨rfl, rfl⟩
  unfold start
  split
  · exact ⟨0, Nat.zero_le _, follows_prompt hstart.printState⟩
  · exact exists_follows_proceed hstart (Nat.zero_le _) false

theorem exists_follows_respond (h : session.StandsAt machine (machine.cpu.onward count))
    (hle : count ≤ machine.limit) (line : List UInt8) :
    ∃ later ≤ machine.limit, Follows machine later (session.respond line) := by
  unfold respond
  split
  · next text _ =>
    cases Command.ofLine text.toList with
    | «continue» | step => exact exists_follows_proceed h hle _
    | print => exact ⟨count, hle, follows_prompt h.printState⟩
    | peek code | unknown text => exact ⟨count, hle, follows_prompt (h.write _)⟩
    | exit => exact ⟨count, hle, h⟩
  · exact ⟨count, hle, h⟩

theorem exists_follows_respondAll {answer : Status × Session} (h : Follows machine count answer)
    (hle : count ≤ machine.limit) (lines : List (List UInt8)) :
    ∃ later ≤ machine.limit,
      Follows machine later (.over (respondAll lines answer).1, (respondAll lines answer).2) := by
  induction lines generalizing count answer with
  | nil =>
    obtain ⟨_ | outcome, session⟩ := answer
    · exact ⟨count, hle, h.write "\n"⟩
    · exact ⟨count, hle, h⟩
  | cons line rest ih =>
    obtain ⟨_ | outcome, session⟩ := answer
    · obtain ⟨later, hlater, hrespond⟩ := exists_follows_respond h hle line
      exact ih hrespond hlater
    · exact ⟨count, hle, h⟩

/-! ### Lines that only show something -/

-- A session whose output nobody sees.
def silent (session : Session) : Session :=
  { session with output := #[] }

-- The same with what the session waits for.
def muted (answer : Status × Session) : Status × Session :=
  (answer.1, answer.2.silent)

theorem silent_write (session : Session) (text : String) :
    (session.write text).silent = session.silent :=
  rfl

theorem muted_prompt (session : Session) : muted session.prompt = (.prompting, session.silent) :=
  rfl

theorem muted_atLimit (session : Session) : muted session.silent.atLimit = muted session.atLimit := by
  simp only [atLimit, muted, silent_write]
  rfl

-- What a session has put out so far has no part in how it goes on.
theorem muted_advance (session : Session) (output : Array UInt8) :
    muted { session with output }.advance = muted session.advance := by
  fun_induction Session.advance session generalizing output with
  | case1 session hover =>
    have hsame := muted_atLimit { session with output }
    rw [advance]
    exact (congrArg muted (if_pos hover)).trans (hsame.symm.trans session.muted_atLimit)
  | case2 session hover next hstop =>
    rw [advance]
    refine (congrArg muted ((if_neg hover).trans (if_pos hstop))).trans ?_
    simp only [muted_prompt, printState, silent_write]
    rfl
  | case3 session hover next hgoes ih =>
    rw [advance]
    refine (congrArg muted ((if_neg hover).trans (if_neg hgoes))).trans ?_
    exact ih { session with output }.executeOne.output

theorem muted_proceed (session : Session) (stepping : Bool) :
    muted (session.silent.proceed stepping) = muted (session.proceed stepping) :=
  muted_advance { session with
    machine := { session.machine with cpu := session.machine.cpu.resume }, stepping } _

theorem muted_respond (session : Session) (line : List UInt8) :
    muted (session.silent.respond line) = muted (session.respond line) := by
  unfold respond
  cases Text.ofBytes? line with
  | none => rfl
  | some text =>
    simp only
    cases Command.ofLine text.toList with
    | «continue» | step => exact session.muted_proceed _
    | print | peek code | unknown text =>
      simp only [perform, muted_prompt, printState, silent_write]
      rfl
    | exit => rfl

end Session

-- Does a command only show something?
def Command.isIdle : Command → Bool
  | .print | .peek _ | .unknown _ => true
  | .continue | .step | .exit => false

-- The same of a line.
def isIdle (line : List UInt8) : Bool :=
  (Text.ofBytes? line).any fun text => (Command.ofLine text.toList).isIdle

-- The lines of an input that do more.
def script (input : List UInt8) : List (List UInt8) :=
  (Text.lines 10 13 input).filter (!isIdle ·)

namespace Session

theorem muted_respond_of_isIdle {line : List UInt8} (h : isIdle line = true) (session : Session) :
    muted (session.respond line) = (.prompting, session.silent) := by
  unfold isIdle at h
  unfold respond
  cases htext : Text.ofBytes? line with
  | none =>
    rw [htext] at h
    cases h
  | some text =>
    rw [htext, Option.any_some] at h
    dsimp only
    generalize Command.ofLine text.toList = command at h
    cases command with
    | print | peek code | unknown text =>
      simp only [perform, muted_prompt, printState, silent_write]
    | «continue» | step | exit => cases h

theorem respondAll_over (lines : List (List UInt8)) (outcome : Outcome) (session : Session) :
    respondAll lines (.over outcome, session) = (outcome, session) := by
  cases lines <;> rfl

-- Without its idle lines an input leads to the same end.
theorem respondAll_filter {left right : Status × Session} (h : muted left = muted right)
    (lines : List (List UInt8)) :
    (respondAll lines left).1 = (respondAll (lines.filter (!isIdle ·)) right).1 ∧
      (respondAll lines left).2.silent =
        (respondAll (lines.filter (!isIdle ·)) right).2.silent := by
  induction lines generalizing left right with
  | nil =>
    obtain ⟨status, session⟩ := left
    obtain ⟨status', session'⟩ := right
    obtain ⟨rfl, hsilent⟩ : status = status' ∧ session.silent = session'.silent := Prod.mk.inj h
    cases status with
    | prompting => exact ⟨rfl, hsilent⟩
    | «over» outcome => exact ⟨rfl, hsilent⟩
  | cons line rest ih =>
    obtain ⟨status, session⟩ := left
    obtain ⟨status', session'⟩ := right
    obtain ⟨rfl, hsilent⟩ : status = status' ∧ session.silent = session'.silent := Prod.mk.inj h
    cases status with
    | «over» outcome =>
      rw [respondAll_over, respondAll_over]
      exact ⟨rfl, hsilent⟩
    | prompting =>
      by_cases hidle : isIdle line = true
      · rw [List.filter_cons_of_neg (by simp [hidle])]
        have hrespond := muted_respond_of_isIdle hidle session
        rw [hsilent] at hrespond
        exact ih hrespond
      · rw [List.filter_cons_of_pos (by simp [hidle])]
        have hrespond : muted (session.respond line) = muted (session'.respond line) := by
          rw [← muted_respond, hsilent, muted_respond]
        exact ih hrespond

end Session

-- Inputs that differ in idle lines alone lead to the same end.
theorem run_congr {machine : Machine} {input other : List UInt8} (h : script other = script input) :
    (run machine other).1 = (run machine input).1 ∧
      (run machine other).2.machine = (run machine input).2.machine := by
  let start := (Session.ofMachine machine).start
  have hother := Session.respondAll_filter (rfl : Session.muted start = Session.muted start)
    (Text.lines 10 13 other)
  have hinput := Session.respondAll_filter (rfl : Session.muted start = Session.muted start)
    (Text.lines 10 13 input)
  unfold script at h
  rw [h] at hother
  have hmachine := congrArg Session.machine (hother.2.trans hinput.2.symm)
  exact ⟨hother.1.trans hinput.1.symm, hmachine⟩

-- A session never steps a processor that does not run. It ends where so many instructions lead along
-- the trajectory, after at most as many as the machine is limited to, and with the processor resumed
-- if that is why it ends. Lines that only show something change nothing of this.
theorem run_transparent (machine : Machine) (input : List UInt8) :
    let cpu := machine.cpu
    let ended := run machine input
    (∀ n, (cpu.onward n).resume.step =
      .ok ((cpu.onward n).resume.current, cpu.onward (n + 1))) ∧
    Checked.run machine input = .ok ended ∧
    (∃ count, ended.2.machine.cpu.cycles = cpu.cycles + count ∧
      (∀ max, machine.maxCycles = some max → count ≤ max) ∧
      match ended.1 with
      | .cycleLimit cycles => cycles = count ∧ count = machine.limit ∧
          ended.2.machine.drained = { machine with cpu := (cpu.onward count).resume }.drained
      | .exited | .failed _ =>
          ended.2.machine.drained = { machine with cpu := cpu.onward count }.drained) ∧
    ∀ other, script other = script input →
      (run machine other).1 = ended.1 ∧ (run machine other).2.machine = ended.2.machine := by
  intro cpu ended
  refine ⟨fun n => Processor.step_of_isRunning (cpu.onward n).isRunning_resume,
    Checked.run_eq machine input, ?_, fun other => run_congr⟩
  obtain ⟨started, hstarted, hstart⟩ := Session.exists_follows_start machine
  obtain ⟨count, hcount, hfollows⟩ :=
    Session.exists_follows_respondAll hstart hstarted (Text.lines 10 13 input)
  change Session.Follows machine count (.over ended.1, ended.2) at hfollows
  have hmax : ∀ max, machine.maxCycles = some max → count ≤ max := fun max hmax => by
    rw [Machine.limit, Machine.left, hmax] at hcount
    dsimp only at hcount
    omega
  generalize ended = result at hfollows ⊢
  obtain ⟨outcome, session⟩ := result
  cases outcome with
  | cycleLimit cycles =>
    obtain ⟨hcycles, hlimit, hstands⟩ := hfollows
    refine ⟨count, ?_, hmax, hcycles, hlimit, hstands.state⟩
    rw [hstands.cycles_eq, Processor.cycles_resume, Processor.cycles_onward]
  | exited | failed error =>
    refine ⟨count, ?_, hmax, hfollows.state⟩
    rw [hfollows.cycles_eq, Processor.cycles_onward]

-- A program that halts twice, under the lines `c` and `e`, and with `p` and `peek 5` before them.
theorem run_transparent_two_halts :
    let memory : Memory :=
      ⟨8, #[0x4540, 9, 0x0040, 0, 0x4640, 3, 0x0040, 0] ++ .replicate 248 0, 0⟩
    let machine : Machine :=
      { cpu :=
          { device := ⟨1, .initial, memory, .initial, false⟩, bus := [], state := .running,
            cycles := 0, nanosPerInstruction := 100, last := none }
        serialLines := [], terminals := [], maxCycles := some 10, startPc := 0, rom := false }
    let plain : List UInt8 := [99, 10, 101, 10]
    let shown : List UInt8 := [112, 10, 112, 101, 101, 107, 32, 53, 10, 99, 10, 101, 10]
    script shown = script plain ∧ (run machine plain).1 = .exited ∧
      (run machine plain).2.machine.drained =
        { machine with cpu := machine.cpu.onward 4 }.drained ∧
      (run machine shown).1 = .exited ∧
      (run machine shown).2.machine = (run machine plain).2.machine := by
  intro memory machine plain shown
  have hscript : script shown = script plain := by decide +kernel
  have hplain : (run machine plain).1 = .exited ∧ (run machine plain).2.machine.cpu.cycles = 4 := by
    decide +kernel
  obtain ⟨-, -, ⟨count, hcycles, -, hend⟩, hidle⟩ := run_transparent machine plain
  obtain ⟨houtcome, hmachine⟩ := hidle shown hscript
  have hcount : count = 4 := by
    rw [hplain.2] at hcycles
    exact (Nat.zero_add count).symm.trans hcycles.symm
  rw [hplain.1, hcount] at hend
  exact ⟨hscript, hplain.1, hend, houtcome.trans hplain.1, hmachine⟩

end Debugger

end MicroCisc
