import MicroCisc.Proofs.Debugger.Checked
import MicroCisc.Proofs.Machine.Delivery
import MicroCisc.Proofs.Machine.Trajectory

namespace MicroCisc.Debugger.Session

open Machine (pump gather)

-- Where a session stops after instructions: at a halt it asks for a command, else at the limit it is
-- over.
def stop (session : Session) : Status × Session :=
  if session.machine.cpu.isHalted then session.printState.prompt else session.atLimit

-- The session after so many instructions. What the devices have sent is its output.
def afterRun (session : Session) (count : Nat) : Session :=
  let (outputs, machine) := session.machine.runSwept pump (List.replicate count 1)
  { session with
    machine
    output := session.output ++ gather (fun output => output.serial ++ output.terminal) outputs }

variable {session : Session}

theorem afterRun_zero (session : Session) : session.afterRun 0 = session := by
  simp [afterRun, Machine.runSwept, gather]

theorem runFor_one {machine : Machine} (h : machine.cpu.isRunning = true) :
    machine.runFor 1 = { machine with cpu := machine.cpu.advance } := by
  simp [Machine.runFor, Processor.runFor, h]

theorem executeOne_eq (h : session.machine.cpu.isRunning = true) :
    session.executeOne = session.afterRun 1 := by
  simp only [executeOne, afterRun, List.replicate_succ, List.replicate_zero, Machine.runSwept,
    runFor_one h, gather, List.foldr_cons, List.foldr_nil, Array.append_empty, writeBytes,
    Array.append_assoc]

theorem afterRun_succ (session : Session) (count : Nat) :
    session.afterRun (count + 1) = (session.afterRun 1).afterRun count := by
  simp only [afterRun, List.replicate_succ, List.replicate_zero, Machine.runSwept, gather,
    List.foldr_cons, List.foldr_nil, Array.append_empty, Array.append_assoc]

theorem drained_afterRun_one (session : Session) :
    (session.afterRun 1).machine.drained = (session.machine.runFor 1).drained :=
  (session.machine.runFor 1).drained_pump

theorem cycles_afterRun_one (h : session.machine.cpu.isRunning = true) :
    (session.afterRun 1).machine.cpu.cycles = session.machine.cpu.cycles + 1 :=
  executeOne_eq h ▸ session.cycles_executeOne

theorem maxCycles_afterRun_one (session : Session) :
    (session.afterRun 1).machine.maxCycles = session.machine.maxCycles :=
  (Machine.view_eq_of_drained_eq (·.maxCycles) (fun _ => rfl) session.drained_afterRun_one).trans rfl

-- A session is over where nothing is left to it.
theorem left_eq_zero_iff :
    session.machine.left session.startCycles = 0 ↔
      (session.machine.isSpent session.used || session.machine.cpu.room == 0) = true := by
  rw [Machine.left, Machine.isSpent, used, Bool.or_eq_true, beq_iff_eq]
  cases session.machine.maxCycles with
  | none => simp
  | some max =>
    simp only [Option.any_some, decide_eq_true_eq]
    omega

-- From where it goes on, a session that does not stop after every instruction goes up to the next
-- halt, or to the limit.
theorem advance_eq (session : Session) (hstepping : session.stepping = false)
    (hrunning : session.machine.cpu.isRunning = true)
    (hstart : session.startCycles ≤ session.machine.cpu.cycles) :
    ∃ count ≤ session.machine.left session.startCycles,
      (count = session.machine.left session.startCycles ∨
        0 < count ∧ (session.afterRun count).machine.cpu.isRunning = false) ∧
      session.advance = (session.afterRun count).stop := by
  fun_induction Session.advance session with
  | case1 session hover =>
    refine ⟨0, Nat.zero_le _, .inl (left_eq_zero_iff.2 hover).symm, ?_⟩
    rw [afterRun_zero, stop, Processor.isHalted, hrunning]
    rfl
  | case2 session hover next hstop =>
    have hpositive : session.machine.left session.startCycles ≠ 0 := mt left_eq_zero_iff.1 hover
    have hone : next = session.afterRun 1 := executeOne_eq hrunning
    have hhalted : (session.afterRun 1).machine.cpu.isHalted = true := by
      have hstepping' : (session.afterRun 1).stepping = false := hstepping
      rwa [hone, hstepping', Bool.false_or] at hstop
    refine ⟨1, by omega, .inr ⟨Nat.one_pos, by simpa [Processor.isHalted] using hhalted⟩, ?_⟩
    rw [hone, stop, if_pos hhalted]
  | case3 session hover next hgoes ih =>
    have hpositive : session.machine.left session.startCycles ≠ 0 := mt left_eq_zero_iff.1 hover
    have hone : next = session.afterRun 1 := executeOne_eq hrunning
    have hcycles := cycles_afterRun_one hrunning
    have hleft := Machine.left_eq_sub session.maxCycles_afterRun_one hstart hcycles
    rw [hone] at hgoes ih ⊢
    obtain ⟨count, hle, hend, hadvance⟩ :=
      ih hstepping (Checked.isRunning_of_goes_on hgoes) (hcycles ▸ Nat.le_succ_of_le hstart)
    change count ≤ (session.afterRun 1).machine.left session.startCycles at hle
    change count = (session.afterRun 1).machine.left session.startCycles ∨ _ at hend
    rw [hleft] at hle hend
    refine ⟨count + 1, by omega, ?_, ?_⟩
    · rw [afterRun_succ session count]
      exact hend.imp (fun hcount => by omega) fun hhalted => ⟨Nat.succ_pos _, hhalted.2⟩
    · rw [afterRun_succ session count, hadvance]

-- A session on a running machine begins with the run of the machine.
theorem exists_start_eq {machine : Machine} (hrunning : machine.cpu.isRunning = true) :
    ∃ count ≤ machine.limit,
      (count = machine.limit ∨
        0 < count ∧ ((ofMachine machine).afterRun count).machine.cpu.isRunning = false) ∧
      (ofMachine machine).start = ((ofMachine machine).afterRun count).stop := by
  have hhalted : machine.cpu.isHalted = false := by simp [Processor.isHalted, hrunning]
  have hresume := Processor.resume_of_isRunning hrunning
  have hstart : (ofMachine machine).start = (ofMachine machine).advance := by
    simp only [start, ofMachine, hhalted, Bool.false_eq_true, if_false, proceed, hresume]
  rw [hstart]
  exact (ofMachine machine).advance_eq rfl hrunning (Nat.le_refl _)

end MicroCisc.Debugger.Session
