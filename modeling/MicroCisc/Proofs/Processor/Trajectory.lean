import MicroCisc.Proofs.Processor.Execute

namespace MicroCisc.Processor

-- So many steps lead from one state to another. Only a running processor steps.
inductive Steps : Nat → Processor → Processor → Prop
  | refl (cpu : Processor) : Steps 0 cpu cpu
  | next {cpu between after : Processor} {instr : Instruction} {n : Nat}
      (hstep : cpu.step = .ok (instr, between)) (hrest : Steps n between after) :
      Steps (n + 1) cpu after

variable {cpu after : Processor} {m n : Nat}

theorem haltCode?_eq_none_iff : cpu.haltCode? = none ↔ cpu.isRunning = true := by
  unfold haltCode? isRunning
  cases cpu.state with
  | running => decide
  | halted code => simp

theorem isRunning_of_haltCode? {code : Word} (h : cpu.haltCode? = some code) :
    cpu.isRunning = false := by
  cases hrunning : cpu.isRunning with
  | false => rfl
  | true =>
    rw [haltCode?_eq_none_iff.2 hrunning] at h
    cases h

theorem step_of_isRunning (h : cpu.isRunning = true) : cpu.step = .ok (cpu.current, cpu.advance) :=
  if_pos h

theorem isRunning_resume (cpu : Processor) : cpu.resume.isRunning = true := by
  unfold resume
  split
  · next h => rw [isRunning, h, beq_self_eq_true]
  · rfl

theorem resume_of_isRunning (h : cpu.isRunning = true) : cpu.resume = cpu := by
  rw [isRunning, beq_iff_eq] at h
  rw [resume, h]

theorem cycles_resume (cpu : Processor) : cpu.resume.cycles = cpu.cycles := by
  unfold resume
  split <;> rfl

theorem of_step_eq_ok_advance {instr : Instruction} (h : cpu.step = .ok (instr, after)) :
    cpu.isRunning = true ∧ after = cpu.advance := by
  cases hrunning : cpu.isRunning with
  | false =>
    rw [step, hrunning] at h
    cases h
  | true =>
    rw [step_of_isRunning hrunning] at h
    cases h
    exact ⟨rfl, rfl⟩

theorem Steps.cycles_eq (h : Steps n cpu after) : after.cycles = cpu.cycles + n := by
  induction h with
  | refl => rfl
  | next hstep _ ih =>
    obtain ⟨-, rfl⟩ := of_step_eq_ok_advance hstep
    rw [ih, cycles_advance, Nat.add_assoc, Nat.add_comm 1]

-- At most so many steps, counted down. A processor that halts stops early.
def runFor : Nat → Processor → Processor
  | 0, cpu => cpu
  | limit + 1, cpu => if cpu.isRunning then runFor limit cpu.advance else cpu

theorem runFor_of_not_isRunning (h : cpu.isRunning = false) (limit : Nat) :
    runFor limit cpu = cpu := by
  cases limit <;> simp [runFor, h]

theorem runFor_add (first second : Nat) (cpu : Processor) :
    runFor (first + second) cpu = runFor second (runFor first cpu) := by
  induction first generalizing cpu with
  | zero => simp [runFor]
  | succ first ih =>
    rw [Nat.succ_add]
    cases h : cpu.isRunning with
    | true => simp [runFor, h, ih]
    | false => simp [runFor_of_not_isRunning h]

theorem exists_steps_runFor (m : Nat) (cpu : Processor) :
    ∃ n ≤ m, Steps n cpu (runFor m cpu) ∧ (n < m → (runFor m cpu).isRunning = false) := by
  induction m generalizing cpu with
  | zero => exact ⟨0, Nat.le_refl 0, .refl cpu, fun h => absurd h (Nat.lt_irrefl 0)⟩
  | succ m ih =>
    cases hrunning : cpu.isRunning with
    | false =>
      rw [runFor_of_not_isRunning hrunning]
      exact ⟨0, Nat.zero_le _, .refl cpu, fun _ => hrunning⟩
    | true =>
      obtain ⟨n, hle, hsteps, hstop⟩ := ih cpu.advance
      have hrun : runFor (m + 1) cpu = runFor m cpu.advance := by rw [runFor, if_pos hrunning]
      rw [hrun]
      exact ⟨n + 1, Nat.succ_le_succ hle, .next (step_of_isRunning hrunning) hsteps,
        fun h => hstop (Nat.lt_of_succ_lt_succ h)⟩

theorem Steps.runFor_eq (h : Steps n cpu after) (hle : n ≤ m)
    (hstop : n < m → after.isRunning = false) : runFor m cpu = after := by
  induction h generalizing m with
  | refl cpu =>
    cases m with
    | zero => rfl
    | succ m => exact runFor_of_not_isRunning (hstop (Nat.succ_pos m)) _
  | next hstep _ ih =>
    obtain ⟨hrunning, rfl⟩ := of_step_eq_ok_advance hstep
    cases m with
    | zero => exact absurd hle (Nat.not_succ_le_zero _)
    | succ m =>
      rw [runFor, if_pos hrunning]
      exact ih (Nat.le_of_succ_le_succ hle) fun h => hstop (Nat.succ_lt_succ h)

theorem cycles_le_runFor (m : Nat) (cpu : Processor) : cpu.cycles ≤ (runFor m cpu).cycles := by
  obtain ⟨n, -, hsteps, -⟩ := exists_steps_runFor m cpu
  rw [hsteps.cycles_eq]
  exact Nat.le_add_right _ _

/-! ### Runs -/

-- A run below a count of cycles is as many steps as lead there.
theorem runBelow_eq (limit : Nat) (cpu : Processor) :
    cpu.runBelow limit = runFor (limit - cpu.cycles) cpu := by
  fun_induction runBelow limit cpu with
  | case1 cpu hgoes ih =>
    rw [Bool.and_eq_true, decide_eq_true_eq] at hgoes
    obtain ⟨hrunning, hbelow⟩ := hgoes
    have hleft : limit - cpu.cycles = limit - cpu.advance.cycles + 1 := by
      rw [cycles_advance]
      omega
    rw [ih, hleft, runFor, if_pos hrunning]
  | case2 cpu hstops =>
    cases hrunning : cpu.isRunning with
    | false => rw [runFor_of_not_isRunning hrunning]
    | true =>
      have hleft : limit - cpu.cycles = 0 := by
        simp only [hrunning, Bool.true_and, decide_eq_true_eq] at hstops
        omega
      rw [hleft, runFor]

-- The limit saturates, so that a limited run also ends where no further cycle can be counted.
theorem runLimited_eq (m : Nat) (cpu : Processor) :
    cpu.runLimited m =
      ((runFor (min m cpu.room) cpu).cycles - cpu.cycles, runFor (min m cpu.room) cpu) := by
  have hleft : saturatingAdd cpu.cycles m - cpu.cycles = min m cpu.room := by
    rw [saturatingAdd, room]
    omega
  rw [runLimited, runBelow_eq, hleft]

theorem runLimited_of_le_room (h : m ≤ cpu.room) :
    cpu.runLimited m = ((runFor m cpu).cycles - cpu.cycles, runFor m cpu) := by
  rw [runLimited_eq, Nat.min_eq_left h]

theorem run_eq (cpu : Processor) :
    cpu.run = ((runFor cpu.room cpu).haltCode?, runFor cpu.room cpu) := by
  fun_induction run cpu with
  | case1 cpu code hcode =>
    rw [runFor_of_not_isRunning (isRunning_of_haltCode? hcode), hcode]
  | case2 cpu hcode hbelow ih =>
    have hroom : cpu.room = cpu.advance.room + 1 := by
      rw [room, room, cycles_advance]
      omega
    rw [ih, hroom, runFor, if_pos (haltCode?_eq_none_iff.1 hcode)]
  | case3 cpu hcode hfull =>
    have hroom : cpu.room = 0 := by
      rw [room]
      omega
    rw [hroom, runFor, hcode]

-- A limited run is the steps of a running processor, at most so many, and counts them.
theorem runLimited_eq_iff (hroom : m ≤ cpu.room) :
    cpu.runLimited m = (n, after) ↔
      Steps n cpu after ∧ n ≤ m ∧ (n < m → after.isRunning = false) := by
  rw [runLimited_of_le_room hroom]
  constructor
  · intro h
    obtain ⟨hcount, hafter⟩ := Prod.mk.inj h
    obtain ⟨k, hle, hsteps, hstop⟩ := exists_steps_runFor m cpu
    have hcycles := hsteps.cycles_eq
    have hk : k = n := by omega
    subst hk hafter
    exact ⟨hsteps, hle, hstop⟩
  · rintro ⟨hsteps, hle, hstop⟩
    have hcycles := hsteps.cycles_eq
    have hcount : after.cycles - cpu.cycles = n := by omega
    rw [hsteps.runFor_eq hle hstop, hcount]

-- Two limited runs, one after the other, are one. What the first leaves has room for the second.
theorem runLimited_add {a b : Nat} (hroom : a + b ≤ cpu.room) :
    cpu.runLimited (a + b) =
      ((cpu.runLimited a).1 + ((cpu.runLimited a).2.runLimited b).1,
        ((cpu.runLimited a).2.runLimited b).2) := by
  have hfirst := cycles_le_runFor a cpu
  have hsecond := cycles_le_runFor b (runFor a cpu)
  obtain ⟨n, hle, hsteps, -⟩ := exists_steps_runFor a cpu
  have hcycles := hsteps.cycles_eq
  have hleft : b ≤ (runFor a cpu).room := by
    rw [room] at hroom ⊢
    omega
  have hcount : (runFor b (runFor a cpu)).cycles - cpu.cycles =
      ((runFor a cpu).cycles - cpu.cycles) +
        ((runFor b (runFor a cpu)).cycles - (runFor a cpu).cycles) := by omega
  rw [runLimited_of_le_room hroom, runLimited_of_le_room (Nat.le_of_add_right_le hroom),
    runLimited_of_le_room hleft, runFor_add, hcount]

-- Where a limited run halts, there a run without a limit halts too.
theorem run_eq_of_halts {code : Word} (hhalt : (cpu.runLimited m).2.haltCode? = some code) :
    cpu.run = (some code, (cpu.runLimited m).2) := by
  rw [runLimited_eq] at hhalt ⊢
  obtain ⟨n, hle, hsteps, -⟩ := exists_steps_runFor (min m cpu.room) cpu
  have hhalted : (runFor (min m cpu.room) cpu).isRunning = false := isRunning_of_haltCode? hhalt
  have hfits : n ≤ cpu.room := Nat.le_trans hle (Nat.min_le_right m cpu.room)
  have hrun : runFor cpu.room cpu = runFor (min m cpu.room) cpu :=
    hsteps.runFor_eq hfits fun _ => hhalted
  rw [run_eq, hrun]
  exact congrArg (·, runFor (min m cpu.room) cpu) hhalt

end MicroCisc.Processor
