import MicroCisc.Conformance
import MicroCisc.Device.ChaCha
import MicroCisc.Proofs.Machine.Build
import MicroCisc.Proofs.Machine.Load
import MicroCisc.Proofs.Machine.Trajectory

namespace MicroCisc

namespace Processor

theorem haltCode?_eq_some_iff {cpu : Processor} {code : Word} :
    cpu.haltCode? = some code ↔ cpu.state = .halted code := by
  unfold haltCode?
  cases cpu.state with
  | running => simp
  | halted other => simp

-- A limited run halts exactly where as many single steps, or fewer, lead to a halt.
theorem haltCode?_runFor_eq_some_iff {cpu : Processor} {limit : Nat} {code : Word} :
    (cpu.runFor limit).haltCode? = some code ↔
      ∃ n ≤ limit, ∃ after, Steps n cpu after ∧ after.state = .halted code := by
  constructor
  · intro hcode
    obtain ⟨n, hle, hsteps, -⟩ := exists_steps_runFor limit cpu
    exact ⟨n, hle, _, hsteps, haltCode?_eq_some_iff.1 hcode⟩
  · rintro ⟨n, hle, after, hsteps, hstate⟩
    have hcode := haltCode?_eq_some_iff.2 hstate
    rw [hsteps.runFor_eq hle fun _ => isRunning_of_haltCode? hcode, hcode]

end Processor

namespace Machine

-- How a run ends, in terms of the trajectory of the processor. A limit of 0 ends it at once.
theorem outcome_run (machine : Machine) (hrunning : machine.cpu.isRunning = true) :
    machine.run.1.1 = outcomeAt machine.limit (machine.cpu.runFor machine.limit) := by
  by_cases hpositive : 0 < machine.limit
  · obtain ⟨outputs, after, -, hrun⟩ := machine.exists_runEmitting_eq hpositive
    rw [run, hrun, StateT.run_bind, run_forM_modify]
    rfl
  · have hzero : machine.limit = 0 := Nat.eq_zero_of_not_pos hpositive
    have hcode : machine.cpu.haltCode? = none := Processor.haltCode?_eq_none_iff.2 hrunning
    rw [run, runEmitting, runFrom_of_left_eq_zero _ hzero hcode, hzero, outcomeAt, Processor.runFor,
      hcode, Nat.sub_self]
    rfl

-- A machine that has just been loaded runs, stops where its configuration has it, and has counted no
-- cycles.
theorem of_load_ofConfig [Generator] {config : MachineConfig} {program : Program}
    {built loaded : Machine} (hbuild : ofConfig config = .ok built)
    (hload : built.load program = (loaded, none)) :
    loaded.cpu.isRunning = true ∧ loaded.maxCycles = config.maxCycles.map UInt64.toNat ∧
      loaded.cpu.cycles = 0 := by
  obtain ⟨cpu, master, hcpu, -, rfl⟩ := ofConfig_eq_ok_iff.1 hbuild
  obtain ⟨-, -, memory, -, rfl⟩ := ProcessorConfig.build_eq_ok_iff.1 hcpu
  rw [load_eq] at hload
  split at hload
  · cases hload
    exact ⟨rfl, rfl, rfl⟩
  · cases hload

end Machine

namespace Conformance

theorem haltCode?_eq {machine : Machine} (hrunning : machine.cpu.isRunning = true)
    (hroom : machine.maxCycles.getD defaultLimit ≤ machine.cpu.room) (offset : Word) :
    haltCode? machine offset =
      ((machine.cpu.setPc offset).runFor (machine.maxCycles.getD defaultLimit)).haltCode? := by
  let started : Machine :=
    { machine with
      cpu := machine.cpu.setPc offset
      maxCycles := some (machine.maxCycles.getD defaultLimit) }
  have houtcome : started.run.1.1 = Machine.outcomeAt _ _ := started.outcome_run hrunning
  have hlimit : started.limit = machine.maxCycles.getD defaultLimit :=
    Machine.limit_of_le_room rfl hroom
  rw [hlimit] at houtcome
  simp only [started] at houtcome
  simp only [haltCode?, houtcome, Machine.outcomeAt]
  cases ((machine.cpu.setPc offset).runFor (machine.maxCycles.getD defaultLimit)).haltCode? <;> rfl

theorem runTest_eq [Generator] {program : Program} {config : MachineConfig} {built loaded : Machine}
    (hbuild : Machine.ofConfig config = .ok built) (hload : built.load program = (loaded, none))
    (test : Expectation) :
    runTest program config test =
      .ok { offset := test.1, expected := test.2, actual := haltCode? loaded test.1 } := by
  simp [runTest, hbuild, hload, bind, Except.bind, pure, Except.pure]

-- One outcome for each expectation, in the order of their offsets. Its code is the one that single
-- steps of a machine that has just been built and loaded lead to from there, if they do so within
-- the limit. Whatever else is expected of the same words, the code is the same.
theorem runTests_reports_halt_codes [Generator] {program : Program} {config : MachineConfig}
    {built loaded : Machine} (hbuild : Machine.ofConfig config = .ok built)
    (hload : built.load program = (loaded, none)) :
    ∃ code? : Word → Option Word,
      (∀ offset code, code? offset = some code ↔
        ∃ n ≤ (config.maxCycles.map UInt64.toNat).getD 1000000, ∃ after,
          Processor.Steps n (loaded.cpu.setPc offset) after ∧ after.state = .halted code) ∧
      ∀ tests : Expectations, ∃ outcomes,
        runTests { program with tests } config = .ok outcomes ∧
        outcomes = tests.entries.map (fun (offset, expected) =>
          { offset, expected, actual := code? offset }) ∧
        outcomes.Pairwise (·.offset < ·.offset) := by
  obtain ⟨hrunning, hlimit, hcycles⟩ := Machine.of_load_ofConfig hbuild hload
  -- The limit is a number of 64 bits, and a new machine has as many cycles to count.
  have hroom : loaded.maxCycles.getD defaultLimit ≤ loaded.cpu.room := by
    rw [hlimit, Processor.room, hcycles]
    cases config.maxCycles with
    | none => decide
    | some max => exact Nat.le_of_lt_succ max.toNat_lt
  refine ⟨haltCode? loaded, fun offset code => ?_, fun tests => ?_⟩
  · rw [haltCode?_eq hrunning hroom, hlimit]
    exact Processor.haltCode?_runFor_eq_some_iff
  · have htest : runTest { program with tests } config = fun test => pure
        { offset := test.1, expected := test.2, actual := haltCode? loaded test.1 } :=
      funext (runTest_eq hbuild hload)
    refine ⟨_, ?_, rfl, ?_⟩
    · rw [runTests, htest]
      exact List.mapM_pure
    · rw [List.pairwise_map]
      exact tests.sorted

-- The limit is three steps. From 0 the third of them halts, from 6 the second does, and from 10 the
-- program jumps to and fro.
theorem runTests_reports_halt_codes_at_limit :
    let config : MachineConfig :=
      { processor := { ProcessorConfig.standard with addressWidth := 8 }
        devices := []
        maxCycles := some 3 }
    let words : List Word :=
      [0x4540, 0x20, 0x4140, 7, 0x0040, 0, 0x4540, 0x20, 0x0040, 0, 0x4540, 0, 0x0040, 0xFFFE]
    let tests : Expectations := { entries := [(0, 7), (6, 0), (10, 9)] }
    ∃ built loaded, Machine.ofConfig config = .ok built ∧
      built.load ⟨words, tests⟩ = (loaded, none) ∧
      runTests ⟨words, tests⟩ config =
        .ok [⟨0, 7, some 7⟩, ⟨6, 0, some 0⟩, ⟨10, 9, none⟩] ∧
      ∃ code? : Word → Option Word,
        (∀ offset code, code? offset = some code ↔
          ∃ n ≤ 3, ∃ after,
            Processor.Steps n (loaded.cpu.setPc offset) after ∧ after.state = .halted code) ∧
        code? 0 = some 7 ∧ code? 6 = some 0 ∧ code? 10 = none := by
  intro config words tests
  obtain ⟨built, hbuild, hfits⟩ : ∃ built, Machine.ofConfig config = .ok built ∧
      (built.load ⟨words, tests⟩).2 = none :=
    ⟨_, rfl, by decide +kernel⟩
  have hload : built.load ⟨words, tests⟩ = ((built.load ⟨words, tests⟩).1, none) :=
    Prod.ext rfl hfits
  have hreport : runTests ⟨words, tests⟩ config =
      .ok [⟨0, 7, some 7⟩, ⟨6, 0, some 0⟩, ⟨10, 9, none⟩] := by
    decide +kernel
  obtain ⟨code?, hcode, htests⟩ := runTests_reports_halt_codes hbuild hload
  obtain ⟨outcomes, hall, houtcomes, -⟩ := htests tests
  have hcodes := houtcomes.symm.trans (Except.ok.inj (hall.symm.trans hreport))
  simp only [tests, List.map_cons, List.map_nil, List.cons.injEq, TestOutcome.mk.injEq, true_and,
    and_true] at hcodes
  exact ⟨built, _, hbuild, hload, hreport, code?, hcode, hcodes⟩

end Conformance

end MicroCisc
