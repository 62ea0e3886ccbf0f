import MicroCisc.Device.ChaCha
import MicroCisc.Proofs.Machine.Build
import MicroCisc.Proofs.Machine.Events
import MicroCisc.Proofs.Machine.Load
import MicroCisc.Proofs.Machine.Trajectory
import MicroCisc.Proofs.Processor.Rom

namespace MicroCisc

namespace Machine

-- What a machine can go through: an event, a write or a load of the processor's memory behind the back
-- of the machine, any change of the registers, and the runs.
inductive Episode where
  | event (event : Event)
  | memory (event : Memory.Event)
  | registers (f : Registers → Registers)
  | runProcessor
  | runLimited (limit : Nat)
  | run

def undergo (machine : Machine) : Episode → Machine
  | .event event => machine.perform event
  | .memory event =>
      { machine with
        cpu := machine.cpu.mapDevice fun device =>
          { device with memory := device.memory.perform event } }
  | .registers f => { machine with cpu := machine.cpu.mapRegs f }
  | .runProcessor => { machine with cpu := machine.cpu.run.2 }
  | .runLimited limit => { machine with cpu := (machine.cpu.runLimited limit).2 }
  | .run => machine.run.1.2

def undergoAll (machine : Machine) (history : List Episode) : Machine :=
  history.foldl undergo machine

/-! ### The setup of a machine -/

-- What a machine keeps of how it was built: where programs start, and how much memory there is for
-- them.
structure SameSetup (built machine : Machine) : Prop where
  startPc : machine.startPc = built.startPc
  size : machine.cpu.memory.size = built.cpu.memory.size
  romEnd_le_size : machine.cpu.memory.romEnd ≤ machine.cpu.memory.size

namespace SameSetup

variable {built machine : Machine}

-- The processor may change, as long as its memory keeps its size and its boot ROM within it.
theorem of_cpu (h : built.SameSetup machine) {cpu : Processor}
    (hsize : cpu.memory.size = machine.cpu.memory.size)
    (hromEnd : cpu.memory.romEnd ≤ machine.cpu.memory.size) :
    built.SameSetup { machine with cpu } :=
  ⟨h.startPc, hsize.trans h.size, hsize.symm ▸ hromEnd⟩

theorem of_memory_eq (h : built.SameSetup machine) {cpu : Processor}
    (hmemory : cpu.memory = machine.cpu.memory) : built.SameSetup { machine with cpu } :=
  h.of_cpu (congrArg Memory.size hmemory) (hmemory ▸ h.romEnd_le_size)

theorem of_bootRegion_eq (h : built.SameSetup machine) {cpu : Processor}
    (hregion : cpu.memory.bootRegion = machine.cpu.memory.bootRegion) :
    built.SameSetup { machine with cpu } :=
  h.of_cpu (Memory.size_eq_of_bootRegion_eq hregion)
    (Memory.romEnd_eq_of_bootRegion_eq hregion ▸ h.romEnd_le_size)

theorem of_memory_perform (h : built.SameSetup machine) (event : Memory.Event) {cpu : Processor}
    (hmemory : cpu.memory = machine.cpu.memory.perform event) :
    built.SameSetup { machine with cpu } := by
  obtain ⟨hsize, hromEnd⟩ := Memory.romEnd_le_size_perform h.romEnd_le_size event
  rw [← hmemory] at hsize hromEnd
  exact h.of_cpu hsize hromEnd

theorem of_drained_eq {after : Machine} (h : built.SameSetup machine)
    (hdrained : after.drained = machine.drained) : built.SameSetup after := by
  have hstart : after.startPc = machine.startPc :=
    view_eq_of_drained_eq (·.startPc) (fun _ => rfl) hdrained
  have hmemory : after.cpu.memory = machine.cpu.memory :=
    view_eq_of_drained_eq (·.cpu.memory) (fun _ => rfl) hdrained
  refine ⟨hstart.trans h.startPc, ?_, ?_⟩
  · rw [hmemory, h.size]
  · rw [hmemory]
    exact h.romEnd_le_size

/-! ### Runs -/

theorem runFor (h : built.SameSetup machine) (limit : Nat) :
    built.SameSetup (machine.runFor limit) := by
  refine h.of_bootRegion_eq ?_
  have hcpu (cpu : Processor) : (cpu.runFor limit).memory.bootRegion = cpu.memory.bootRegion := by
    induction limit generalizing cpu with
    | zero => rfl
    | succ limit ih =>
      rw [Processor.runFor]
      split
      · exact (ih cpu.advance).trans cpu.sameRoms_advance.own
      · rfl
  exact hcpu machine.cpu

theorem runFrom (h : built.SameSetup machine) (emit : Output → StateM Output Unit) (start : Nat)
    (output : Output) :
    built.SameSetup ((machine.runFrom emit start).run output).1.2 := by
  induction machine using Machine.runFrom.induct start generalizing output with
  | case1 machine used hspent =>
    rw [Machine.runFrom]
    dsimp only
    rw [if_pos hspent]
    exact h.of_drained_eq machine.drained_pump
  | case2 machine used hspent ran pumped ih =>
    have hran : ran.2 = machine.runFor (min pumpInterval (machine.left start)) :=
      congrArg Prod.snd (runLimited_budget start machine)
    have hpumped : built.SameSetup pumped.2 := (hran ▸ h.runFor _).of_drained_eq ran.2.drained_pump
    rw [Machine.runFrom]
    dsimp only
    rw [if_neg hspent]
    simp only [StateT.run_bind]
    split
    · exact hpumped
    · split
      · exact hpumped
      · next hcounted => exact ih hcounted hpumped _

theorem perform (h : built.SameSetup machine) (event : Event) :
    built.SameSetup (machine.perform event) := by
  cases event with
  | step =>
    unfold Machine.perform Processor.step
    cases machine.cpu.isRunning with
    | true => exact h.of_bootRegion_eq machine.cpu.sameRoms_advance.own
    | false => exact h
  | load program =>
    obtain ⟨event, hevent⟩ := machine.fst_loaded program
    rw [Machine.perform, load_eq]
    split <;> exact h.of_memory_perform event hevent
  | feed location bytes => exact h.of_memory_eq rfl
  | drain location => exact h.of_drained_eq (machine.drained_drain location)
  | take location => exact h.of_drained_eq (machine.drained_take location)
  | pump => exact h.of_drained_eq machine.drained_pump
  | raiseInterrupt pointer | reset => exact h.of_memory_eq rfl
  | resume =>
    refine h.of_memory_eq ?_
    unfold Processor.resume
    split <;> rfl

theorem undergo (h : built.SameSetup machine) (episode : Episode) :
    built.SameSetup (machine.undergo episode) := by
  cases episode with
  | event event => exact h.perform event
  | memory event => exact h.of_memory_perform event rfl
  | registers f => exact h.of_memory_eq rfl
  | runProcessor =>
    rw [Machine.undergo, Processor.run_eq]
    exact h.runFor _
  | runLimited limit =>
    rw [Machine.undergo, Processor.runLimited_eq]
    exact h.runFor _
  | run => exact h.runFrom _ _ _

theorem undergoAll (h : built.SameSetup machine) (history : List Episode) :
    built.SameSetup (machine.undergoAll history) := by
  induction history generalizing machine with
  | nil => exact h
  | cons episode rest ih => exact ih (h.undergo episode)

end SameSetup

/-! ### Resets -/

theorem romEnd_of_ofWidth {width : UInt8} {memory : Memory}
    (h : Memory.ofWidth width = .ok memory) : memory.romEnd = 0 := by
  unfold Memory.ofWidth at h
  split at h
  · cases h
    rfl
  · split at h
    · cases h
      rfl
    · cases h

-- The registers of a processor that starts at a pc, in signed arithmetic or not.
def startRegs (signed : Bool) (pc : Word) : Registers :=
  ({ Registers.initial with flags := Flags.initial.put .signed signed }).setPc pc

theorem startRegs_true (signed : Bool) (pc : Word) :
    startRegs true pc =
      { startRegs signed pc with flags := (startRegs signed pc).flags.put .signed true } := by
  have hflags : Flags.initial.put .signed true =
      (Flags.initial.put .signed signed).put .signed true := by
    cases signed <;> decide
  exact congrArg (fun flags => ({ Registers.initial with flags }).setPc pc) hflags

theorem startRegs_true_eq_iff {signed : Bool} {pc : Word} :
    startRegs true pc = startRegs signed pc ↔ signed = true := by
  constructor
  · intro h
    have hsigned : (startRegs true pc).flags.has .signed = (startRegs signed pc).flags.has .signed :=
      congrArg (·.flags.has .signed) h
    simp only [startRegs, Registers.setPc, Flags.has_put, if_true] at hsigned
    exact hsigned.symm
  · rintro rfl
    rfl

-- A reset does not depend on anything that came before it.
theorem load_reset (machine : Machine) {program : Program}
    (hfits : program.words.length ≤ machine.cpu.memory.size) :
    ∃ restarted, (machine.perform .reset).load program = (restarted, none) ∧
      restarted.cpu.state = .running ∧ restarted.cpu.device.halted = false ∧
      restarted.cpu.cycles = 0 ∧ restarted.cpu.last = none ∧
      restarted.cpu.regs = startRegs true machine.startPc := by
  have hload := load_eq (machine.perform .reset) program
  have hmemory : (machine.perform .reset).cpu.memory = machine.cpu.memory := rfl
  rw [hmemory, if_pos hfits] at hload
  exact ⟨_, hload, rfl, rfl, rfl, rfl, rfl⟩

section Built

variable [Generator] {config : MachineConfig} {built : Machine} (h : ofConfig config = .ok built)

include h

theorem sameSetup_ofConfig : built.SameSetup built := by
  obtain ⟨cpu, master, hcpu, hall, rfl⟩ := ofConfig_eq_ok_iff.1 h
  obtain ⟨_, _, memory, hmemory, rfl⟩ := ProcessorConfig.build_eq_ok_iff.1 hcpu
  have hbuilt : master.device.memory = memory :=
    congrArg (·.memory) (BusMaster.device_connectAll hall)
  refine ⟨rfl, rfl, ?_⟩
  show master.device.memory.romEnd ≤ master.device.memory.size
  rw [hbuilt, romEnd_of_ofWidth hmemory]
  exact Nat.zero_le _

theorem regs_ofConfig : built.cpu.regs = startRegs config.processor.signed built.startPc := by
  obtain ⟨cpu, master, hcpu, hall, rfl⟩ := ofConfig_eq_ok_iff.1 h
  obtain ⟨_, _, memory, _, rfl⟩ := ProcessorConfig.build_eq_ok_iff.1 hcpu
  exact congrArg (·.kind.setPc config.processor.startPc) (BusMaster.device_connectAll hall)

theorem regs_load_ofConfig (program : Program) :
    (built.load program).1.cpu.regs = startRegs config.processor.signed built.startPc := by
  have hbuilt := regs_ofConfig h
  rw [load_eq]
  split
  · exact congrArg (·.setPc built.startPc) hbuilt
  · exact hbuilt

-- A machine that is reset after any history and loaded with a program that fits starts over. Its
-- registers are those of a new machine with the same program, but arithmetic is signed: so they are the
-- same exactly if the machine is configured that way.
theorem load_reset_undergoAll {program : Program} (hfits : (built.load program).2 = none)
    (history : List Episode) :
    let fresh := (built.load program).1
    ∃ restarted, ((built.undergoAll history).perform .reset).load program = (restarted, none) ∧
      restarted.cpu.state = .running ∧ restarted.cpu.device.halted = false ∧
      restarted.cpu.cycles = 0 ∧ restarted.cpu.last = none ∧
      restarted.cpu.regs =
        { fresh.cpu.regs with flags := fresh.cpu.regs.flags.put .signed true } ∧
      (restarted.cpu.regs = fresh.cpu.regs ↔ config.processor.signed = true) := by
  intro fresh
  have hsetup := (sameSetup_ofConfig h).undergoAll history
  have hlength : program.words.length ≤ built.cpu.memory.size := by
    by_contra hlength
    rw [load_eq, if_neg hlength] at hfits
    cases hfits
  rw [← hsetup.size] at hlength
  obtain ⟨restarted, hload, hstate, hhalted, hcycles, hlast, hregs⟩ :=
    (built.undergoAll history).load_reset hlength
  have hfresh : fresh.cpu.regs = startRegs config.processor.signed built.startPc :=
    regs_load_ofConfig h program
  rw [hsetup.startPc] at hregs
  refine ⟨restarted, hload, hstate, hhalted, hcycles, hlast, ?_, ?_⟩
  · rw [hregs, hfresh]
    exact startRegs_true config.processor.signed built.startPc
  · rw [hregs, hfresh]
    exact startRegs_true_eq_iff

end Built

-- A machine with a boot ROM that halts, is interrupted and written to, and is then reset.
theorem load_reset_undergoAll_rom :
    let config : MachineConfig :=
      { processor :=
          { ProcessorConfig.standard with addressWidth := 8, startPc := 2, rom := true }
        devices := [{ index := 16, id := 100, kind := .leds, connected := [] }]
        maxCycles := none }
    let program := Program.ofWords [0, 0, 0x4540, 9, 0x0040, 0]
    let history : List Episode :=
      [.event (.load program), .runLimited 10, .event (.raiseInterrupt 0x100), .event .resume,
        .registers (·.set .r2 7), .memory (.loadProgram [1, 2, 3]), .event .step, .run]
    ∃ built, ofConfig config = .ok built ∧ (built.load program).2 = none ∧
      ∃ restarted, ((built.undergoAll history).perform .reset).load program = (restarted, none) ∧
        restarted.cpu.state = .running ∧ restarted.cpu.regs = (built.load program).1.cpu.regs := by
  intro config program history
  have hbuilt : ∃ built, ofConfig config = .ok built ∧ (built.load program).2 = none :=
    ⟨_, rfl, by decide +kernel⟩
  obtain ⟨built, hbuilt, hfits⟩ := hbuilt
  obtain ⟨restarted, hload, hstate, -, -, -, -, hregs⟩ := load_reset_undergoAll hbuilt hfits history
  exact ⟨built, hbuilt, hfits, restarted, hload, hstate, hregs.2 rfl⟩

-- A machine that is configured for unsigned arithmetic.
theorem load_reset_undergoAll_unsigned :
    ¬∀ (config : MachineConfig) (built : Machine) (program : Program) (history : List Episode),
      ofConfig config = .ok built → (built.load program).2 = none →
      (((built.undergoAll history).perform .reset).load program).1.cpu.regs =
        (built.load program).1.cpu.regs := by
  intro h
  let config : MachineConfig :=
    { processor := { ProcessorConfig.standard with addressWidth := 8, signed := false }
      devices := [], maxCycles := none }
  let program := Program.ofWords [1]
  have hbuilt : ∃ built, ofConfig config = .ok built ∧ (built.load program).2 = none ∧
      program.words.length ≤ built.cpu.memory.size :=
    ⟨_, rfl, by decide +kernel, by decide +kernel⟩
  obtain ⟨built, hbuilt, hfits, hlength⟩ := hbuilt
  obtain ⟨restarted, hload, -, -, -, -, hrestarted⟩ := built.load_reset hlength
  have hregs := h config built program [] hbuilt hfits
  rw [regs_load_ofConfig hbuilt program] at hregs
  have hsame : startRegs true built.startPc = startRegs false built.startPc := by
    rw [← hrestarted]
    exact (congrArg (·.1.cpu.regs) hload).symm.trans hregs
  exact absurd (startRegs_true_eq_iff.1 hsame) Bool.false_ne_true

end Machine

end MicroCisc
