import MicroCisc.Proofs.Debugger.Session

namespace MicroCisc.Debugger

open Machine

variable {machine : Machine}

theorem serial_foldl_append (outputs : List Output) (start : Output) :
    (outputs.foldl (· ++ ·) start).serial = start.serial ++ gather (·.serial) outputs := by
  induction outputs generalizing start with
  | nil => exact Array.append_empty.symm
  | cons output rest ih =>
    have hfirst : (start ++ output).serial = start.serial ++ output.serial := rfl
    rw [List.foldl_cons, ih, hfirst, Array.append_assoc]
    rfl

-- Sweeps that take nothing.
theorem gather_eq_empty {α : Type} {sweep : Machine → α × Machine} {bytes : α → Array UInt8}
    {lines : List Location} (hdrained : ∀ machine, (sweep machine).2.drained = machine.drained)
    (hnone : ∀ machine, machine.serialLines = lines → bytes (sweep machine).1 = #[])
    (chunks : List Nat) (hlines : machine.serialLines = lines) :
    gather bytes (machine.runSwept sweep chunks).1 = #[] := by
  induction chunks generalizing machine with
  | nil => rfl
  | cons chunk rest ih =>
    have hswept := hdrained (machine.runFor chunk)
    have hlines' := (view_eq_of_drained_eq (·.serialLines) (fun _ => rfl) hswept).trans hlines
    have hrest := ih hlines'
    have hfirst := hnone (machine.runFor chunk) hlines
    have hcons : gather bytes (machine.runSwept sweep (chunk :: rest)).1 =
        bytes (sweep (machine.runFor chunk)).1 ++
          gather bytes ((sweep (machine.runFor chunk)).2.runSwept sweep rest).1 := rfl
    rw [hcons, hfirst, hrest, Array.append_empty]

-- Two runs with pumps that cover the same instructions.
theorem gather_pump_eq {first second : List Nat} (hfirst : first ≠ []) (hsecond : second ≠ [])
    (hsum : machine.runFor first.sum = machine.runFor second.sum)
    (hplace : machine.NoOverrun pump first) (hplace' : machine.NoOverrun pump second) :
    gather (·.serial) (machine.runSwept pump first).1 =
      gather (·.serial) (machine.runSwept pump second).1 := by
  cases hlines : machine.serialLines with
  | nil =>
    have hnone := fun chunks => gather_eq_empty drained_pump
      (fun _ => serial_pump_of_serialLines_eq_nil) chunks hlines
    rw [hnone, hnone]
  | cons line rest =>
    have htakes := takes_pump line rest
    rw [htakes.gather_runSwept hlines List.mem_cons_self hfirst hplace,
      htakes.gather_runSwept hlines List.mem_cons_self hsecond hplace', hsum]

-- The run of a machine hands over what the pumps take after its intervals.
theorem exists_run_eq (hlimit : 0 < machine.limit) :
    ∃ chunks, chunks <+: intervals machine.limit ∧ chunks ≠ [] ∧
      machine.runFor chunks.sum = machine.runFor machine.limit ∧
      machine.run.1.2 = (machine.runSwept pump chunks).2 ∧
      machine.run.2.serial = gather (·.serial) (machine.runSwept pump chunks).1 := by
  obtain ⟨chunks, hchunks, hne, hend, hrun⟩ :=
    exists_runFrom_eq machine.cpu.cycles machine (Nat.le_refl _) fun hzero =>
      absurd hzero (Nat.ne_of_gt hlimit)
  change chunks <+: intervals machine.limit at hchunks
  change chunks.sum = machine.limit ∨ _ at hend
  have hall : machine.run =
      ((outcomeAt machine.limit (machine.runSwept pump chunks).2.cpu,
        (machine.runSwept pump chunks).2),
        (machine.runSwept pump chunks).1.foldl (· ++ ·) .empty) := by
    rw [Machine.run, runEmitting, hrun, StateT.run_bind, run_forM_modify, Nat.sub_self,
      Nat.zero_add]
    rfl
  refine ⟨chunks, hchunks, hne, runFor_sum (sum_le_of_isPrefix hchunks) hend, ?_, ?_⟩
  · rw [hall]
  · rw [hall, serial_foldl_append]
    exact Array.empty_append

-- However often the host drains the serial lines during the same instructions, it gets the same
-- bytes from each, if none goes out in place of one that it has drained. So do the host of a run and
-- that of a session.
theorem delivery_independent_of_drains (machine : Machine) :
    (∀ first second : List Nat, first.sum = second.sum → (first = [] ↔ second = []) →
      machine.NoOverrun drainAll first → machine.NoOverrun drainAll second →
      ∀ location ∈ machine.serialLines,
        gather (bytesFrom location.path) (machine.runSwept drainAll first).1 =
          gather (bytesFrom location.path) (machine.runSwept drainAll second).1) ∧
    (machine.cpu.isRunning = true → 0 < machine.limit →
      machine.NoOverrun pump (intervals machine.limit) →
      machine.NoOverrun pump (List.replicate machine.limit 1) →
      ∃ count,
        (Session.ofMachine machine).start = ((Session.ofMachine machine).afterRun count).stop ∧
        ((Session.ofMachine machine).afterRun count).machine.drained = machine.run.1.2.drained ∧
        gather (·.serial) (machine.runSwept pump (List.replicate count 1)).1 =
          machine.run.2.serial) := by
  constructor
  · intro first second hsum hempty hplace hplace' location hlocation
    have hmem : location.path ∈ machine.serialLines.map (·.path) := List.mem_map_of_mem hlocation
    by_cases hfirst : first = []
    · rw [hfirst, hempty.1 hfirst]
    · have hsecond : second ≠ [] := fun hnil => hfirst (hempty.2 hnil)
      rw [(takes_drainAll hmem).gather_runSwept rfl hmem hfirst hplace,
        (takes_drainAll hmem).gather_runSwept rfl hmem hsecond hplace', hsum]
  · intro hrunning hlimit hplace hplace'
    obtain ⟨count, hle, hend, hstart⟩ := Session.exists_start_eq hrunning
    obtain ⟨chunks, hchunks, hne, hreached, hafter, hserial⟩ := exists_run_eq hlimit
    have hsteps : (List.replicate count 1).sum = count := by simp
    have hcount : machine.runFor count = machine.runFor machine.limit := by
      have hcover : machine.runFor (List.replicate count 1).sum = machine.runFor machine.limit :=
        runFor_sum (hsteps.symm ▸ hle) (hend.imp hsteps.trans (·.2))
      rwa [hsteps] at hcover
    have hone : List.replicate count 1 ≠ [] := by
      have hpositive : 0 < count := hend.elim (fun h => h ▸ hlimit) (·.1)
      simpa using Nat.ne_of_gt hpositive
    have hones : List.replicate count 1 <+: List.replicate machine.limit 1 :=
      ⟨List.replicate (machine.limit - count) 1, by
        rw [List.replicate_append_replicate, Nat.add_sub_cancel' hle]⟩
    refine ⟨count, hstart, ?_, ?_⟩
    · have hswept := drained_runSwept drained_pump chunks machine
      have hstepped := drained_runSwept drained_pump (List.replicate count 1) machine
      rw [hafter, hswept, hreached, ← hcount]
      rwa [hsteps] at hstepped
    · rw [hserial]
      exact gather_pump_eq hone hne (by rw [hsteps, hcount, hreached]) (hplace'.of_isPrefix hones)
        (hplace.of_isPrefix hchunks)

-- A program that claims a serial line and sends two bytes, on which a run and a session agree.
theorem delivery_independent_of_drains_two_bytes :
    let config : MachineConfig :=
      { processor := { ProcessorConfig.standard with addressWidth := 8 }
        devices := [{ index := 16, id := 100, kind := .serial 9600 (.fixed 0), connected := [] }]
        maxCycles := some 5 }
    let program := Program.ofWords
      [0x4D40, 0x0102, 0x4940, 1, 0x4D40, 0x0108, 0x4940, 97, 0x4940, 98]
    ∃ built, ofConfig config = .ok built ∧
      let machine := (built.load program).1
      machine.NoOverrun drainAll [5] ∧ machine.NoOverrun drainAll [4, 1] ∧
        gather (bytesFrom [16]) (machine.runSwept drainAll [5]).1 = #[97, 98] ∧
        gather (bytesFrom [16]) (machine.runSwept drainAll [4, 1]).1 = #[97, 98] ∧
        machine.NoOverrun pump (intervals machine.limit) ∧
        machine.NoOverrun pump (List.replicate machine.limit 1) ∧
        ∃ count,
          (Session.ofMachine machine).start = ((Session.ofMachine machine).afterRun count).stop ∧
          gather (·.serial) (machine.runSwept pump (List.replicate count 1)).1 =
            machine.run.2.serial := by
  intro config program
  have hruns : ∃ built, ofConfig config = .ok built ∧
      let machine := (built.load program).1
      machine.limit = 5 ∧ machine.cpu.isRunning = true ∧ ⟨100, [16]⟩ ∈ machine.serialLines ∧
        machine.NoOverrun drainAll [5] ∧ machine.NoOverrun drainAll [4, 1] ∧
        machine.NoOverrun pump [5, 0] ∧ machine.NoOverrun pump (List.replicate 5 1) ∧
        gather (bytesFrom [16]) (machine.runSwept drainAll [5]).1 = #[97, 98] :=
    ⟨_, rfl, by decide +kernel⟩
  obtain ⟨built, hbuilt, hlimit, hrunning, hlocation, hwhole, hsplit, hrun, hsteps, hbytes⟩ := hruns
  have hcut : intervals 5 = [5, 0] := by simp [intervals, pumpInterval]
  obtain ⟨hlines, hsession⟩ := delivery_independent_of_drains (built.load program).1
  have hsame := hlines [5] [4, 1] rfl (by simp) hwhole hsplit _ hlocation
  rw [hlimit, hcut] at hsession
  obtain ⟨count, hstart, -, hserial⟩ := hsession hrunning (by decide) hrun hsteps
  refine ⟨built, hbuilt, hwhole, hsplit, hbytes, hsame.symm.trans hbytes, ?_, ?_, count, hstart,
    hserial⟩
  · rwa [hlimit, hcut]
  · rwa [hlimit]

-- The third of three bytes takes the place of the second, unless the host has drained that.
theorem delivery_depends_on_drains :
    ¬∀ (config : MachineConfig) (program : Program) (built : Machine) (first second : List Nat),
      ofConfig config = .ok built → first.sum = second.sum → (first = [] ↔ second = []) →
      let machine := (built.load program).1
      ∀ location ∈ machine.serialLines,
        gather (bytesFrom location.path) (machine.runSwept drainAll first).1 =
          gather (bytesFrom location.path) (machine.runSwept drainAll second).1 := by
  intro h
  let config : MachineConfig :=
    { processor := { ProcessorConfig.standard with addressWidth := 8 }
      devices := [{ index := 16, id := 100, kind := .serial 9600 (.fixed 0), connected := [] }]
      maxCycles := none }
  let program := Program.ofWords
    [0x4D40, 0x0102, 0x4940, 1, 0x4D40, 0x0108, 0x4940, 97, 0x4940, 98, 0x4940, 99]
  have hsame := h config program _ [6] [5, 1] rfl rfl (by simp) ⟨100, [16]⟩ (by decide +kernel)
  exact absurd hsame (by decide +kernel)

end MicroCisc.Debugger
