import MicroCisc.Proofs.Config.Build
import MicroCisc.Proofs.Faults.Processor
import MicroCisc.Proofs.Machine.Load

namespace MicroCisc

variable {p : Nat → Nat → Prop}

theorem Bus.EveryLine.insert {bus : Bus} (h : bus.EveryLine p) {tree : DeviceTree}
    (htree : tree.EveryLine p) (index : UInt8) : (Bus.insert index tree bus).EveryLine p := by
  rw [everyLine_iff] at h ⊢
  exact h.insert (tree.everyLine_iff.1 htree) index

namespace DeviceConfig

-- What is true of every new line is true of all those that are connected.
theorem everyLine_connectAll [Generator] (hp : ∀ asked : UInt32, p (max asked.toNat 10) 0)
    (configs : List DeviceConfig) :
    ∀ {κ : Type} {master after : BusMaster κ}, master.bus.EveryLine p →
      master.connectAll (buildAll configs) = .ok after → after.bus.EveryLine p := by
  induction configs using DeviceConfig.induction with
  | nil =>
    intro κ master after hmaster hall
    cases hall
    exact hmaster
  | cons config rest ihBelow ihBeside =>
    intro κ master after hmaster hall
    obtain ⟨tree, next, hbuild, hconnect, hrest⟩ := connectAll_buildAll_cons.1 hall
    obtain ⟨_, memory, top, _, htop, rfl⟩ := build_eq_ok_iff.1 hbuild
    have hkind : config.kind.initialKind.EveryLine p := by
      cases config.kind with
      | serial baud fill => exact hp baud
      | terminal | leds | memory | processor => trivial
    have hdevice : top.device = config.device memory := BusMaster.device_connectAll htop
    have hempty : (BusMaster.mk (config.device memory) []).bus.EveryLine p := trivial
    have htree : (top.toTree.placedAt config.index).EveryLine p := by
      refine ⟨?_, ihBelow hempty htop⟩
      show top.device.kind.EveryLine p
      rw [hdevice]
      exact hkind
    obtain ⟨_, _, _, rfl⟩ := BusMaster.connect_eq_ok_iff.1 hconnect
    exact ihBeside (hmaster.insert htree config.index) hrest

end DeviceConfig

namespace Machine

variable {config : MachineConfig} {built : Machine}

theorem everyLine_ofConfig [Generator] (hp : ∀ asked : UInt32, p (max asked.toNat 10) 0)
    (h : ofConfig config = .ok built) : built.cpu.bus.EveryLine p := by
  obtain ⟨cpu, master, hcpu, hall, rfl⟩ := ofConfig_eq_ok_iff.1 h
  obtain ⟨_, _, memory, _, rfl⟩ := ProcessorConfig.build_eq_ok_iff.1 hcpu
  have hempty : (config.processor.processor memory).bus.EveryLine p := trivial
  have hmaster : master.bus.EveryLine p :=
    DeviceConfig.everyLine_connectAll hp config.devices hempty hall
  exact hmaster

theorem pace_ofConfig [Generator] (h : ofConfig config = .ok built) :
    built.cpu.cycles = 0 ∧
      built.cpu.nanosPerInstruction = config.processor.nanosPerInstruction.toNat := by
  obtain ⟨cpu, master, hcpu, hall, rfl⟩ := ofConfig_eq_ok_iff.1 h
  obtain ⟨_, _, memory, _, rfl⟩ := ProcessorConfig.build_eq_ok_iff.1 hcpu
  exact ⟨rfl, rfl⟩

-- A load leaves all but the device of the processor as it was.
theorem exists_load_eq (machine : Machine) (program : Program) :
    ∃ device, (machine.load program).1.cpu = { machine.cpu with device } := by
  rw [load_eq]
  split <;> exact ⟨_, rfl⟩

-- A machine runs any program for as long as its cycles can be counted, at any pace but those at which an
-- instruction takes centuries.
theorem checkedRunFor_ofConfig [Generator] (h : ofConfig config = .ok built) (program : Program) {limit : Nat}
    (hlimit : limit < 2 ^ 64)
    (hnanos : 1000000000 + config.processor.nanosPerInstruction.toNat ≤ 2 ^ 64) :
    (built.load program).1.cpu.checkedRunFor limit =
      pure ((built.load program).1.cpu.runFor limit) := by
  obtain ⟨device, hload⟩ := built.exists_load_eq program
  obtain ⟨hcycles, hpace⟩ := pace_ofConfig h
  have hlines : built.cpu.bus.EveryLine IsRegular :=
    everyLine_ofConfig (fun asked => ⟨⟨asked, rfl⟩, by decide⟩) h
  have hrates : built.cpu.HasRates := hlines.mono fun baud elapsed hline => hline.1
  rw [hload]
  refine Processor.checkedRunFor_eq hrates fun n hn after hsteps => ?_
  refine Processor.hasRoom_of_steps hsteps hlines (hpace ▸ hnanos) ?_
  show built.cpu.cycles + n + 1 < 2 ^ 64
  omega

end Machine

end MicroCisc
