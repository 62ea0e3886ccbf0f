import MicroCisc.Device.ChaCha
import MicroCisc.Proofs.Machine.Sweep
import MicroCisc.Proofs.Processor.Trajectory

namespace MicroCisc.Machine

-- The intervals that a run of so many instructions is cut into, unless the processor halts. The last
-- one is empty.
def intervals (remaining : Nat) : List Nat :=
  if remaining = 0 then [0]
  else min pumpInterval remaining :: intervals (remaining - min pumpInterval remaining)
termination_by remaining
decreasing_by
  have hpositive : 0 < pumpInterval := by decide
  omega

-- How a run that stops at a limit ends.
def outcomeAt (limit : Nat) (cpu : Processor) : RunOutcome :=
  match cpu.haltCode? with
  | some code => .halted code
  | none => .cycleLimit limit

theorem sum_intervals (remaining : Nat) : (intervals remaining).sum = remaining := by
  fun_induction intervals remaining with
  | case1 => rfl
  | case2 remaining hremaining ih =>
    rw [List.sum_cons, ih]
    omega

theorem sum_le_of_isPrefix {chunks : List Nat} {remaining : Nat}
    (h : chunks <+: intervals remaining) : chunks.sum ≤ remaining := by
  obtain ⟨rest, hrest⟩ := h
  have hsum := sum_intervals remaining
  rw [← hrest, List.sum_append] at hsum
  omega

-- The instructions left to a run that began at a count of cycles: up to the limit of the machine, and
-- as many as can be counted.
def left (machine : Machine) (start : Nat) : Nat :=
  match machine.maxCycles with
  | some max => min (max - (machine.cpu.cycles - start)) machine.cpu.room
  | none => machine.cpu.room

-- The instructions that a run can execute.
def limit (machine : Machine) : Nat :=
  machine.left machine.cpu.cycles

variable {machine : Machine}

-- A run goes on only until the processor halts.
theorem runFor_of_le {n more : Nat} (hhalted : (machine.runFor n).cpu.isRunning = false)
    (hle : n ≤ more) : machine.runFor more = machine.runFor n := by
  have hcpu := Processor.runFor_of_not_isRunning hhalted (more - n)
  rw [← Nat.add_sub_cancel' hle, runFor_add]
  exact congrArg (fun cpu => { machine with cpu }) hcpu

/-! ### The rounds of a run -/

theorem limit_of_le_room {max : Nat} (hmax : machine.maxCycles = some max)
    (hroom : max ≤ machine.cpu.room) : machine.limit = max := by
  rw [limit, left, hmax]
  dsimp only
  omega

theorem left_eq_zero_of_isSpent {start : Nat}
    (h : machine.isSpent (machine.cpu.cycles - start) = true) : machine.left start = 0 := by
  unfold isSpent at h
  unfold left
  cases hmax : machine.maxCycles with
  | none => simp [hmax] at h
  | some max =>
    simp only [hmax, Option.any_some, decide_eq_true_eq] at h
    dsimp only
    omega

-- The budget of a round is the next interval of what is left to the run.
theorem runLimited_budget (start : Nat) (machine : Machine) :
    machine.runLimited (machine.budget (machine.cpu.cycles - start)) =
      ((machine.runFor (min pumpInterval (machine.left start))).cpu.cycles - machine.cpu.cycles,
        machine.runFor (min pumpInterval (machine.left start))) := by
  have hbudget : min (machine.budget (machine.cpu.cycles - start)) machine.cpu.room =
      min pumpInterval (machine.left start) := by
    unfold budget left
    cases machine.maxCycles with
    | none => rfl
    | some max => exact Nat.min_assoc _ _ _
  rw [runLimited, Processor.runLimited_eq, hbudget]
  rfl

theorem left_eq_sub {next : Machine} {start count : Nat} (hmax : next.maxCycles = machine.maxCycles)
    (hstart : start ≤ machine.cpu.cycles)
    (hcycles : next.cpu.cycles = machine.cpu.cycles + count) :
    next.left start = machine.left start - count := by
  unfold left
  rw [hmax, Processor.room, Processor.room, hcycles]
  cases machine.maxCycles with
  | none => exact Nat.sub_add_eq _ _ _
  | some max =>
    dsimp only
    omega

-- A processor that still runs after a limited run has executed as many instructions as it might.
theorem cycles_runFor_of_isRunning {count : Nat} (h : (machine.runFor count).cpu.isRunning = true) :
    (machine.runFor count).cpu.cycles = machine.cpu.cycles + count := by
  obtain ⟨n, hle, hsteps, hstop⟩ := Processor.exists_steps_runFor count machine.cpu
  have hn : n = count := by
    by_contra hne
    have hhalted : (machine.runFor count).cpu.isRunning = false := hstop (by omega)
    rw [h] at hhalted
    cases hhalted
  exact hn ▸ hsteps.cycles_eq

-- After a round in which the processor does not halt, the run has executed all that the round might.
theorem left_pump_runFor {start count : Nat} (hstart : start ≤ machine.cpu.cycles)
    (hgoes : (machine.runFor count).pump.2.cpu.haltCode? = none) :
    (machine.runFor count).pump.2.cpu.cycles = machine.cpu.cycles + count ∧
      (machine.runFor count).pump.2.left start = machine.left start - count := by
  have hpump := (machine.runFor count).drained_pump
  have hcode := view_eq_of_drained_eq (·.cpu.haltCode?) (fun _ => rfl) hpump
  have hrunning := Processor.haltCode?_eq_none_iff.1 (hcode.symm.trans hgoes)
  have hcycles := (cycles_pump _).trans (cycles_runFor_of_isRunning hrunning)
  have hmax : (machine.runFor count).pump.2.maxCycles = machine.maxCycles :=
    (view_eq_of_drained_eq (·.maxCycles) (fun _ => rfl) hpump).trans rfl
  exact ⟨hcycles, left_eq_sub hmax hstart hcycles⟩

section Rounds

variable {m : Type → Type} [Monad m] (emit : Output → m Unit) {start : Nat}

theorem runFrom_of_not_isSpent
    (h : machine.isSpent (machine.cpu.cycles - start) = false) :
    machine.runFrom emit start =
      let ran := machine.runFor (min pumpInterval (machine.left start))
      (do
        emit ran.pump.1
        match ran.pump.2.cpu.haltCode? with
        | some code => return (.halted code, ran.pump.2)
        | none =>
          if ran.cpu.cycles - machine.cpu.cycles = 0 then
            return (.cycleLimit (machine.cpu.cycles - start), ran.pump.2)
          else ran.pump.2.runFrom emit start) := by
  rw [runFrom]
  dsimp only
  rw [h, runLimited_budget]
  rfl

-- With nothing left, a run ends: at its limit, or because no further cycle can be counted.
theorem runFrom_of_left_eq_zero (h : machine.left start = 0)
    (hrunning : machine.cpu.haltCode? = none) :
    machine.runFrom emit start = do
      emit machine.pump.1
      return (.cycleLimit (machine.cpu.cycles - start), machine.pump.2) := by
  cases hspent : machine.isSpent (machine.cpu.cycles - start) with
  | true =>
    rw [runFrom]
    dsimp only
    rw [if_pos hspent]
  | false =>
    have hsame : machine.runFor 0 = machine := rfl
    have hcode : machine.pump.2.cpu.haltCode? = none :=
      (view_eq_of_drained_eq (·.cpu.haltCode?) (fun _ => rfl) machine.drained_pump).trans hrunning
    rw [runFrom_of_not_isSpent emit hspent, h, Nat.min_zero, hsame]
    simp only [hcode, Nat.sub_self, if_true]

-- With something left, a run goes through one round, and then on from there unless the processor
-- has halted.
theorem runFrom_of_left_pos (h : 0 < machine.left start) (hstart : start ≤ machine.cpu.cycles) :
    machine.runFrom emit start =
      let pumped := (machine.runFor (min pumpInterval (machine.left start))).pump
      (do
        emit pumped.1
        match pumped.2.cpu.haltCode? with
        | some code => return (.halted code, pumped.2)
        | none => pumped.2.runFrom emit start) := by
  have hspent : machine.isSpent (machine.cpu.cycles - start) = false := by
    by_contra hspent
    have hnone := left_eq_zero_of_isSpent (Bool.not_eq_false _ ▸ hspent)
    omega
  have hinterval : 0 < pumpInterval := by decide
  rw [runFrom_of_not_isSpent emit hspent]
  dsimp only
  cases hhalts : (machine.runFor (min pumpInterval (machine.left start))).pump.2.cpu.haltCode? with
  | some code => rfl
  | none =>
    have hcycles := (cycles_pump _).symm.trans (left_pump_runFor hstart hhalts).1
    have hsome : (machine.runFor (min pumpInterval (machine.left start))).cpu.cycles -
        machine.cpu.cycles ≠ 0 := by omega
    simp only [if_neg hsome]

end Rounds

-- A run goes through its intervals, up to the one in which the processor halts, and hands over what
-- each pump takes.
theorem exists_runFrom_eq (start : Nat) (machine : Machine) (hstart : start ≤ machine.cpu.cycles)
    (hrunning : machine.left start = 0 → machine.cpu.haltCode? = none) :
    ∃ chunks, chunks <+: intervals (machine.left start) ∧ chunks ≠ [] ∧
      (chunks.sum = machine.left start ∨
        (machine.runSwept pump chunks).2.cpu.isRunning = false) ∧
      ∀ {m : Type → Type} [Monad m] [LawfulMonad m] (emit : Output → m Unit),
        machine.runFrom emit start = do
          (machine.runSwept pump chunks).1.forM emit
          return (outcomeAt (machine.cpu.cycles - start + machine.left start)
            (machine.runSwept pump chunks).2.cpu, (machine.runSwept pump chunks).2) := by
  induction hleft : machine.left start using Nat.strongRecOn generalizing machine with
  | _ remaining ih =>
  rw [intervals]
  by_cases hzero : remaining = 0
  · subst hzero
    have hsame : machine.runFor 0 = machine := rfl
    have hcode : machine.pump.2.cpu.haltCode? = none :=
      (view_eq_of_drained_eq (·.cpu.haltCode?) (fun _ => rfl) machine.drained_pump).trans
        (hrunning hleft)
    refine ⟨[0], List.prefix_rfl, List.cons_ne_nil _ _, .inl rfl, fun emit => ?_⟩
    rw [runFrom_of_left_eq_zero emit hleft (hrunning hleft)]
    simp [runSwept, hsame, outcomeAt, hcode]
  · have hround {m : Type → Type} [Monad m] (emit : Output → m Unit) :=
      runFrom_of_left_pos emit (hleft ▸ Nat.pos_of_ne_zero hzero) hstart
    rw [hleft] at hround
    rw [if_neg hzero]
    cases hhalts : (machine.runFor (min pumpInterval remaining)).pump.2.cpu.haltCode? with
    | some code =>
      refine ⟨[min pumpInterval remaining], ?_, List.cons_ne_nil _ _, .inr ?_, fun emit => ?_⟩
      · exact List.cons_prefix_cons.2 ⟨rfl, List.nil_prefix⟩
      · exact Processor.isRunning_of_haltCode? hhalts
      · rw [hround]
        simp [runSwept, outcomeAt, hhalts]
    | none =>
      obtain ⟨hcycles, hnext⟩ := left_pump_runFor hstart hhalts
      rw [hleft] at hnext
      have hinterval : 0 < pumpInterval := by decide
      obtain ⟨chunks, hchunks, -, hend, hrun⟩ :=
        ih _ (by omega) _ (by omega) (fun _ => hhalts) hnext
      refine ⟨min pumpInterval remaining :: chunks, ?_, List.cons_ne_nil _ _, ?_, fun emit => ?_⟩
      · exact List.cons_prefix_cons.2 ⟨rfl, hchunks⟩
      · rw [List.sum_cons]
        exact hend.imp (fun hsum => by omega) id
      · have hcount : machine.cpu.cycles + min pumpInterval remaining - start +
            (remaining - min pumpInterval remaining) =
              machine.cpu.cycles - start + remaining := by omega
        rw [hcycles, hcount] at hrun
        rw [hround]
        simp [hhalts, hrun, runSwept]

-- A run that is swept up to its limit, or until the processor halts, covers what one that is not
-- swept executes.
theorem runFor_sum {chunks : List Nat} {limit : Nat} (hle : chunks.sum ≤ limit)
    (hend : chunks.sum = limit ∨ (machine.runSwept pump chunks).2.cpu.isRunning = false) :
    machine.runFor chunks.sum = machine.runFor limit := by
  cases hend with
  | inl hsum => rw [hsum]
  | inr hhalted =>
    have hswept := view_eq_of_drained_eq (·.cpu.isRunning) (fun _ => rfl)
      (drained_runSwept drained_pump chunks machine)
    rw [runFor_of_le (hswept.symm.trans hhalted) hle]

-- What a run leaves and what it hands over, in terms of the trajectory of the processor.
theorem exists_runEmitting_eq (machine : Machine) (hpositive : 0 < machine.limit) :
    ∃ (outputs : List Output) (after : Machine),
      after.drained = (machine.runFor machine.limit).drained ∧
      ∀ {m : Type → Type} [Monad m] [LawfulMonad m] (emit : Output → m Unit),
        machine.runEmitting emit = do
          outputs.forM emit
          return (outcomeAt machine.limit (machine.cpu.runFor machine.limit), after) := by
  obtain ⟨chunks, hchunks, -, hend, hrun⟩ :=
    exists_runFrom_eq machine.cpu.cycles machine (Nat.le_refl _) fun hzero =>
      absurd hzero (Nat.ne_of_gt hpositive)
  change chunks <+: intervals machine.limit at hchunks
  change chunks.sum = machine.limit ∨ _ at hend
  have hsum : chunks.sum ≤ machine.limit := sum_le_of_isPrefix hchunks
  have hafter := drained_runSwept drained_pump chunks machine
  rw [runFor_sum hsum hend] at hafter
  have houtcome : outcomeAt machine.limit (machine.runSwept pump chunks).2.cpu =
      outcomeAt machine.limit (machine.cpu.runFor machine.limit) := by
    have hcode := view_eq_of_drained_eq (·.cpu.haltCode?) (fun _ => rfl) hafter
    unfold outcomeAt
    rw [hcode]
    rfl
  refine ⟨(machine.runSwept pump chunks).1, (machine.runSwept pump chunks).2, hafter,
    fun emit => ?_⟩
  rw [runEmitting, hrun, Nat.sub_self, Nat.zero_add]
  exact congrArg (fun outcome => do
    (machine.runSwept pump chunks).1.forM emit
    return (outcome, (machine.runSwept pump chunks).2)) houtcome

-- Outputs that are put together as they come.
theorem run_forM_modify (outputs : List Output) (start : Output) :
    StateT.run (m := Id) (outputs.forM fun output => modify (· ++ output)) start =
      ((), outputs.foldl (· ++ ·) start) := by
  induction outputs generalizing start with
  | nil => rfl
  | cons output rest ih => exact ih (start ++ output)

-- Single steps, a run of a limited number of instructions, a run up to a halt, and the run of a
-- machine that stops at every interval: all go along one trajectory, as long as their cycles can be
-- counted.
theorem one_trajectory (machine : Machine) :
    (∀ m n after, machine.cpu.cycles + m < UInt64.size →
      (machine.cpu.runLimited m = (n, after) ↔
        Processor.Steps n machine.cpu after ∧ n ≤ m ∧ (n < m → after.isRunning = false))) ∧
    (∀ a b, machine.cpu.cycles + (a + b) < UInt64.size →
      machine.cpu.runLimited (a + b) =
        ((machine.cpu.runLimited a).1 + ((machine.cpu.runLimited a).2.runLimited b).1,
          ((machine.cpu.runLimited a).2.runLimited b).2)) ∧
    (∀ m code, (machine.cpu.runLimited m).2.haltCode? = some code →
      machine.cpu.run = (some code, (machine.cpu.runLimited m).2)) ∧
    ∀ m, 1 ≤ m → machine.cpu.cycles + m < UInt64.size → machine.maxCycles = some m →
      ∃ (outputs : List Output) (after : Machine),
        after.drained = { machine with cpu := (machine.cpu.runLimited m).2 }.drained ∧
        (∀ {μ : Type → Type} [Monad μ] [LawfulMonad μ] (emit : Output → μ Unit),
          machine.runEmitting emit = do
            outputs.forM emit
            return (outcomeAt m (machine.cpu.runLimited m).2, after)) ∧
        machine.run =
          ((outcomeAt m (machine.cpu.runLimited m).2, after), outputs.foldl (· ++ ·) .empty) := by
  have hroom {m : Nat} (h : machine.cpu.cycles + m < UInt64.size) : m ≤ machine.cpu.room := by
    rw [Processor.room, Processor.mostCycles]
    rw [UInt64.size] at h
    omega
  refine ⟨fun m n after h => Processor.runLimited_eq_iff (hroom h),
    fun a b h => Processor.runLimited_add (hroom h), fun m code => Processor.run_eq_of_halts,
    fun m hpositive hfits hmax => ?_⟩
  have hlimit : machine.limit = m := limit_of_le_room hmax (hroom hfits)
  obtain ⟨outputs, after, hafter, hrun⟩ :=
    machine.exists_runEmitting_eq (hlimit.symm ▸ hpositive)
  rw [hlimit] at hafter hrun
  rw [Processor.runLimited_of_le_room (hroom hfits)]
  refine ⟨outputs, after, hafter, hrun, ?_⟩
  rw [run, hrun, StateT.run_bind, run_forM_modify]
  rfl

-- A loop of 128 rounds, after which the processor halts in the second interval of the run.
theorem one_trajectory_countdown :
    let config : MachineConfig :=
      { processor := { ProcessorConfig.standard with addressWidth := 8 }
        devices := [{ index := 16, id := 100, kind := .serial 9600 (.fixed 0), connected := [] }]
        maxCycles := some 300 }
    let program := Program.ofWords [0x4540, 128, 0x454B, 1, 0x0010, 0xFFFE, 0x0040, 0]
    ∃ built, ofConfig config = .ok built ∧
      let machine := (built.load program).1
      machine.maxCycles = some 300 ∧ (machine.cpu.runLimited 300).1 = 258 ∧
        Processor.Steps 258 machine.cpu (machine.cpu.runLimited 300).2 ∧
        machine.cpu.run = (some 0x4540, (machine.cpu.runLimited 300).2) ∧
        machine.run.1.1 = .halted 0x4540 ∧
        machine.run.1.2.drained = { machine with cpu := (machine.cpu.runLimited 300).2 }.drained := by
  intro config program
  have hruns : ∃ built, ofConfig config = .ok built ∧
      let machine := (built.load program).1
      machine.maxCycles = some 300 ∧ machine.cpu.cycles = 0 ∧
        ((machine.cpu.runFor 300).cycles, (machine.cpu.runFor 300).haltCode?) =
          (258, some 0x4540) :=
    ⟨_, rfl, by decide +kernel⟩
  obtain ⟨built, hbuilt, hmax, hstart, hhalts⟩ := hruns
  obtain ⟨hcycles, hcode⟩ := Prod.mk.inj hhalts
  have hfits : (built.load program).1.cpu.cycles + 300 < UInt64.size := by
    rw [hstart]
    decide
  have hroom : 300 ≤ (built.load program).1.cpu.room := by
    rw [Processor.room, hstart]
    decide
  have hlimited := Processor.runLimited_of_le_room hroom
  rw [hcycles, hstart, Nat.sub_zero] at hlimited
  obtain ⟨hcount, -, hrun, hmachine⟩ := one_trajectory (built.load program).1
  have hsteps := (hcount 300 258 _ hfits).1 hlimited
  obtain ⟨outputs, after, hafter, -, hall⟩ := hmachine 300 (by decide) hfits hmax
  have hrun' := hrun 300 0x4540 (by rw [hlimited]; exact hcode)
  rw [hlimited] at hafter hall hrun'
  refine ⟨built, hbuilt, ?_⟩
  dsimp only
  rw [hlimited]
  refine ⟨hmax, rfl, hsteps.1, hrun', ?_, ?_⟩
  · rw [hall, outcomeAt, hcode]
  · rw [hall]
    exact hafter

end MicroCisc.Machine
