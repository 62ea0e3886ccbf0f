import MicroCisc.Machine
import MicroCisc.Proofs.Device.Connect
import MicroCisc.Proofs.Except

namespace MicroCisc

theorem DeviceTree.assemble_eq_ok_iff {id : Word} {kind : Kind} {width : UInt8} {parts : List Part}
    {tree : DeviceTree} :
    DeviceTree.assemble id kind width parts = .ok tree ↔
      ∃ device master, Device.ofKind id kind width = .ok device ∧
        BusMaster.connectAll ⟨device, []⟩ parts = .ok master ∧ tree = master.toTree := by
  simp only [assemble, bind_eq_ok_iff, pure, Except.pure, Except.ok.injEq]
  constructor
  · rintro ⟨device, hdevice, master, hall, rfl⟩
    exact ⟨device, master, hdevice, hall, rfl⟩
  · rintro ⟨device, master, hdevice, hall, rfl⟩
    exact ⟨device, hdevice, master, hall, rfl⟩

mutual

-- The device tree that a configuration describes. It does not depend on the ports.
def DeviceConfig.build [Generator] : DeviceConfig → Except DeviceError DeviceTree
  | { id, kind, connected, .. } =>
      DeviceTree.assemble id kind.initialKind kind.width (DeviceConfig.buildAll connected)

def DeviceConfig.buildAll [Generator] : List DeviceConfig → List Part
  | [] => []
  | config :: rest => (config.index, config.build) :: DeviceConfig.buildAll rest

end

mutual

-- What is entered among the ports while a device is built, in that order.
def DeviceConfig.entries (path : List UInt8) : DeviceConfig → List (KindConfig × Location)
  | { id, kind, connected, .. } => (kind, ⟨id, path⟩) :: DeviceConfig.entriesBelow path connected

def DeviceConfig.entriesBelow (path : List UInt8) :
    List DeviceConfig → List (KindConfig × Location)
  | [] => []
  | config :: rest =>
      config.entries (path ++ [config.index]) ++ DeviceConfig.entriesBelow path rest

end

namespace Ports

def enterAll (ports : Ports) (entries : List (KindConfig × Location)) : Ports :=
  entries.foldl (fun ports (kind, location) => ports.enter kind location) ports

theorem enterAll_cons (ports : Ports) (kind : KindConfig) (location : Location)
    (rest : List (KindConfig × Location)) :
    ports.enterAll ((kind, location) :: rest) = (ports.enter kind location).enterAll rest :=
  rfl

theorem enterAll_append (ports : Ports) (entries later : List (KindConfig × Location)) :
    ports.enterAll (entries ++ later) = (ports.enterAll entries).enterAll later :=
  List.foldl_append

end Ports

namespace DeviceConfig

mutual

-- A build is the building of the tree beside the entering of the ports.
theorem buildAt_eq [Generator] (path : List UInt8) (ports : Ports) :
    (config : DeviceConfig) → config.buildAt path ports =
      config.build.map fun tree => (tree, ports.enterAll (config.entries path))
  | { id, kind, connected, .. } => by
      rw [buildAt, build, DeviceTree.assemble, entries, Ports.enterAll_cons]
      cases Device.ofKind id kind.initialKind kind.width with
      | error e => rfl
      | ok device =>
        have hbelow := connectBelow_eq path (ports.enter kind ⟨id, path⟩) ⟨device, []⟩ connected
        simp only [bind, Except.bind, hbelow]
        cases BusMaster.connectAll ⟨device, []⟩ (buildAll connected) <;> rfl

theorem connectBelow_eq [Generator] (path : List UInt8) (ports : Ports) (master : BusMaster Kind) :
    (configs : List DeviceConfig) → connectBelow path ports master configs =
      (master.connectAll (buildAll configs)).map fun after =>
        (after, ports.enterAll (entriesBelow path configs))
  | [] => rfl
  | config :: rest => by
      rw [connectBelow, buildAt_eq (path ++ [config.index]) ports config, buildAll, entriesBelow,
        Ports.enterAll_append]
      cases config.build with
      | error e => rfl
      | ok tree =>
        rw [BusMaster.connectAll_cons]
        cases hconnect : master.connect config.index tree with
        | error e => simp [bind, Except.bind, Except.map, hconnect]
        | ok next =>
          have hrest := connectBelow_eq path
            (ports.enterAll (config.entries (path ++ [config.index]))) next rest
          simpa [bind, Except.bind, Except.map, hconnect] using hrest

end

-- The loop over the devices on the bus of a processor is the same as that below a device.
theorem foldlM_addDevice_eq [Generator] (ports : Ports) (master : BusMaster Registers)
    (configs : List DeviceConfig) :
    configs.foldlM Machine.addDevice (master, ports) =
      (master.connectAll (buildAll configs)).map fun after =>
        (after, ports.enterAll (entriesBelow [] configs)) := by
  induction configs generalizing ports master with
  | nil => rfl
  | cons config rest ih =>
    rw [List.foldlM_cons, Machine.addDevice, buildAt_eq [config.index], buildAll, entriesBelow,
      Ports.enterAll_append]
    cases config.build with
    | error e => rfl
    | ok tree =>
      rw [BusMaster.connectAll_cons]
      cases hconnect : master.connect config.index tree with
      | error e => simp [bind, Except.bind, Except.map, hconnect]
      | ok next =>
        have hrest := ih (ports.enterAll (config.entries [config.index])) next
        simpa [bind, Except.bind, Except.map, pure, Except.pure, hconnect] using hrest

-- The device by itself, as it comes out of its configuration.
def device [Generator] (config : DeviceConfig) (memory : Memory) : Device Kind :=
  { id := config.id, kind := config.kind.initialKind, memory, control := .initial, halted := true }

theorem build_eq_ok_iff [Generator] {config : DeviceConfig} {tree : DeviceTree} :
    config.build = .ok tree ↔
      config.id ≠ 0 ∧ ∃ memory master, Memory.ofWidth config.kind.width = .ok memory ∧
        BusMaster.connectAll ⟨config.device memory, []⟩ (buildAll config.connected) = .ok master ∧
        tree = master.toTree := by
  obtain ⟨index, id, kind, connected⟩ := config
  rw [build, DeviceTree.assemble_eq_ok_iff]
  simp only [Device.ofKind_eq_ok_iff]
  constructor
  · rintro ⟨_, master, ⟨hid, memory, hmemory, rfl⟩, hall, htree⟩
    exact ⟨hid, memory, master, hmemory, hall, htree⟩
  · rintro ⟨hid, memory, master, hmemory, hall, htree⟩
    exact ⟨_, master, ⟨hid, memory, hmemory, rfl⟩, hall, htree⟩

theorem buildAll_eq_map [Generator] (configs : List DeviceConfig) :
    buildAll configs = configs.map fun config => (config.index, config.build) := by
  induction configs with
  | nil => rfl
  | cons config rest ih => rw [buildAll, ih, List.map_cons]

-- Devices come out of their configurations halted, and nobody has claimed them.
theorem of_build_eq_ok [Generator] {config : DeviceConfig} {tree : DeviceTree} (h : config.build = .ok tree) :
    tree.device.halted = true ∧ tree.device.control.owner = 0 := by
  obtain ⟨_, memory, top, _, htop, rfl⟩ := build_eq_ok_iff.1 h
  have hdevice : top.toTree.device = config.device memory := BusMaster.device_connectAll htop
  rw [hdevice]
  exact ⟨rfl, rfl⟩

end DeviceConfig

namespace ProcessorConfig

-- The processor as it comes out of its configuration.
def processor (config : ProcessorConfig) (memory : Memory) : Processor :=
  let regs := { Registers.initial with flags := Registers.initial.flags.put .signed config.signed }
  { device := { id := config.id, kind := regs, memory, control := .initial, halted := false }
    bus := []
    state := .running
    cycles := 0
    nanosPerInstruction := config.nanosPerInstruction.toNat
    last := none }

theorem build_eq_ok_iff {config : ProcessorConfig} {cpu : Processor} :
    config.build = .ok cpu ↔
      config.addressWidth ≠ 0 ∧ config.id ≠ 0 ∧
        ∃ memory, Memory.ofWidth config.addressWidth = .ok memory ∧
          cpu = config.processor memory := by
  unfold build Processor.ofWidth
  by_cases hwidth : config.addressWidth = 0
  · simp [hwidth, Except.map]
  · unfold Device.ofKind
    by_cases hid : config.id = 0
    · simp [hwidth, hid, Except.map]
    · cases Memory.ofWidth config.addressWidth with
      | error e => simp [hwidth, hid, Except.map]
      | ok memory =>
        simp only [hwidth, hid, beq_iff_eq, if_false, Except.map, Except.ok.injEq, ne_eq,
          not_false_eq_true, true_and, exists_eq_left']
        exact eq_comm

end ProcessorConfig

-- The ports of the machine that a configuration describes.
def MachineConfig.ports (config : MachineConfig) : Ports :=
  Ports.empty.enterAll (DeviceConfig.entriesBelow [] config.devices)

namespace Machine

theorem ofConfig_eq_ok_iff [Generator] {config : MachineConfig} {machine : Machine} :
    ofConfig config = .ok machine ↔
      ∃ cpu master, config.processor.build = .ok cpu ∧
        cpu.toBusMaster.connectAll (DeviceConfig.buildAll config.devices) = .ok master ∧
        machine = {
          cpu := { cpu with toBusMaster := master }.setPc config.processor.startPc
          serialLines := config.ports.serialLines
          terminals := config.ports.terminals
          maxCycles := config.maxCycles.map UInt64.toNat
          startPc := config.processor.startPc
          rom := config.processor.rom } := by
  simp only [ofConfig, DeviceConfig.foldlM_addDevice_eq, map_eq_ok_iff, bind_eq_ok_iff, pure,
    Except.pure, Except.ok.injEq]
  constructor
  · rintro ⟨cpu, hcpu, _, ⟨master, hall, rfl⟩, rfl⟩
    exact ⟨cpu, master, hcpu, hall, rfl⟩
  · rintro ⟨cpu, master, hcpu, hall, rfl⟩
    exact ⟨cpu, hcpu, _, ⟨master, hall, rfl⟩, rfl⟩

-- A machine as it is built: the processor has the configured id, and its devices are new.
theorem of_ofConfig_eq_ok [Generator] {config : MachineConfig} {built : Machine}
    (h : ofConfig config = .ok built) :
    built.cpu.id = config.processor.id ∧ built.cpu.id ≠ 0 ∧ built.cpu.Fresh := by
  obtain ⟨cpu, master, hcpu, hall, rfl⟩ := ofConfig_eq_ok_iff.1 h
  obtain ⟨_, hne, memory, _, rfl⟩ := ProcessorConfig.build_eq_ok_iff.1 hcpu
  have hstart : BusMaster.Fresh (config.processor.processor memory).toBusMaster :=
    BusMaster.fresh_nil _
  have hfresh : master.Fresh := by
    refine hstart.connectAll (fun index tree hmem => ?_) hall
    rw [DeviceConfig.buildAll_eq_map, List.mem_map] at hmem
    obtain ⟨device, _, hpart⟩ := hmem
    exact DeviceConfig.of_build_eq_ok (Prod.mk.inj hpart).2
  have hid : master.device.id = config.processor.id :=
    congrArg (·.id) (BusMaster.device_connectAll hall)
  refine ⟨hid, ?_, hfresh.free, hfresh.foreign, hfresh.halted, hfresh.unclaimed⟩
  show master.device.id ≠ 0
  rw [hid]
  exact hne

end Machine

end MicroCisc
