import MicroCisc.Device.ChaCha
import MicroCisc.Proofs.Config.Mirror
import MicroCisc.Proofs.Config.Reorder
import MicroCisc.Proofs.Machine.Ports

namespace MicroCisc

namespace ProcessorConfig

theorem exists_build_iff {config : ProcessorConfig} :
    (∃ cpu, config.build = .ok cpu) ↔
      config.id ≠ 0 ∧ 8 ≤ config.addressWidth ∧ config.addressWidth ≤ 16 := by
  simp only [build_eq_ok_iff]
  constructor
  · rintro ⟨cpu, hwidth, hid, memory, hmemory, _⟩
    exact ⟨hid, (Memory.exists_ofWidth_iff.1 ⟨memory, hmemory⟩).resolve_left hwidth⟩
  · rintro ⟨hid, hwidth⟩
    obtain ⟨memory, hmemory⟩ := Memory.exists_ofWidth_iff.2 (.inr hwidth)
    refine ⟨config.processor memory, ?_, hid, memory, hmemory, rfl⟩
    intro hzero
    rw [hzero] at hwidth
    exact absurd hwidth.1 (by decide)

theorem nodup_ids_processor (config : ProcessorConfig) (memory : Memory) :
    (config.processor memory).ids.Nodup :=
  List.nodup_singleton config.id

end ProcessorConfig

-- The pc is set in the device, which connecting others leaves as it is.
theorem Processor.setPc_connected {cpu : Processor} {master : BusMaster Registers}
    (h : master.device = cpu.device) (pc : Word) :
    ({ cpu with toBusMaster := master } : Processor).setPc pc =
      { cpu.setPc pc with bus := master.bus } := by
  obtain ⟨device, bus⟩ := master
  subst h
  rfl

namespace Machine

-- The host's handles: one for each device of certain kinds, in the order of their ids and found by
-- them. What is done through a handle is done to its device and to no other.
structure Handles (machine : Machine) (wanted : Kind → Bool) (locations : List Location)
    (find? : Word → Option Location) : Prop where
  mem_iff : ∀ location, location ∈ locations ↔
    ∃ device, machine.cpu.bus.deviceAt? location.path = some device ∧ device.id = location.id ∧
      wanted device.kind = true
  sorted : locations.Pairwise fun a b => a.id < b.id
  find?_iff : ∀ id location, find? id = some location ↔ location ∈ locations ∧ location.id = id
  shared : ∀ location ∈ locations, ∀ {α : Type} (f : Kind → Option α × Kind),
    ∃ device, machine.cpu.bus.deviceAt? location.path = some device ∧
      (machine.visitDevice f location).1 = (f device.kind).1 ∧
      ∀ path, (machine.visitDevice f location).2.cpu.bus.deviceAt? path =
        if path = location.path then some (device.visited f) else machine.cpu.bus.deviceAt? path

theorem find?_eq_some_iff {locations : List Location}
    (hsorted : locations.Pairwise fun a b => a.id < b.id) (id : Word) (location : Location) :
    locations.find? (·.id == id) = some location ↔ location ∈ locations ∧ location.id = id := by
  constructor
  · intro hfind
    exact ⟨List.mem_of_find?_eq_some hfind, by simpa using List.find?_some hfind⟩
  · rintro ⟨hmem, hid⟩
    have hdistinct : (locations.map (·.id)).Nodup :=
      List.pairwise_map.2 (hsorted.imp fun h => UInt16.ne_of_lt h)
    cases hfind : locations.find? (·.id == id) with
    | none =>
      have hnot := List.find?_eq_none.1 hfind location hmem
      simp [hid] at hnot
    | some found =>
      have hsame : found.id = location.id := by
        rw [hid]
        simpa using List.find?_some hfind
      rw [List.inj_on_of_nodup_map hdistinct (List.mem_of_find?_eq_some hfind) hmem hsame]

theorem handles_sortedLocations {machine : Machine} (wanted : Kind → Bool)
    (hindexes : machine.cpu.bus.DistinctIndexes) (hids : machine.cpu.bus.ids.Nodup) :
    machine.Handles wanted (sortedLocations wanted machine.cpu.bus)
      fun id => (sortedLocations wanted machine.cpu.bus).find? (·.id == id) where
  mem_iff _ := mem_sortedLocations hindexes
  sorted := pairwise_sortedLocations hids
  find?_iff := find?_eq_some_iff (pairwise_sortedLocations hids)
  shared := by
    intro location hmem α f
    obtain ⟨device, hdevice, _, _⟩ := (mem_sortedLocations hindexes).1 hmem
    refine ⟨device, hdevice, ?_, fun path => ?_⟩
    · show (machine.cpu.bus.visitKind f location.path).1 = _
      rw [Bus.fst_visitKind, Bus.kindAt?_eq, hdevice]
      rfl
    · show (machine.cpu.bus.visitKind f location.path).2.deviceAt? path = _
      rw [Bus.deviceAt?_visitKind]
      split
      · next heq => rw [heq, hdevice]; rfl
      · rfl

/-! ### Building -/

-- A machine as its configuration describes it: the processor, the device at the end of every path,
-- and no devices besides.
structure Mirrors [Generator] (machine : Machine) (config : MachineConfig) : Prop where
  processor : ∃ memory, Memory.ofWidth config.processor.addressWidth = .ok memory ∧
    machine.cpu = { (config.processor.processor memory).setPc config.processor.startPc with
      bus := machine.cpu.bus }
  devices : ∀ path, Option.Rel DeviceConfig.Mirrors
    (DeviceConfig.atOf? config.devices path) (machine.cpu.bus.deviceAt? path)
  ids : machine.cpu.ids.Perm (config.processor.id :: DeviceConfig.idsOf config.devices)

theorem exists_ofConfig_iff [Generator] {config : MachineConfig} :
    (∃ machine, ofConfig config = .ok machine) ↔ config.Valid := by
  constructor
  · rintro ⟨machine, h⟩
    obtain ⟨cpu, master, hcpu, hall, _⟩ := ofConfig_eq_ok_iff.1 h
    obtain ⟨hid, hwidth⟩ := ProcessorConfig.exists_build_iff.1 ⟨cpu, hcpu⟩
    obtain ⟨_, _, memory, _, rfl⟩ := ProcessorConfig.build_eq_ok_iff.1 hcpu
    have hstart := config.processor.nodup_ids_processor memory
    have hfits := (DeviceConfig.exists_connectAll_iff config.devices _ hstart).1 ⟨master, hall⟩
    exact ⟨hid, hwidth, hfits.sound, hfits.indexes, hfits.ids⟩
  · intro hvalid
    obtain ⟨cpu, hcpu⟩ := ProcessorConfig.exists_build_iff.2 ⟨hvalid.id, hvalid.width⟩
    obtain ⟨_, _, memory, _, rfl⟩ := ProcessorConfig.build_eq_ok_iff.1 hcpu
    have hfits : DeviceConfig.Fits config.devices (config.processor.processor memory).toBusMaster :=
      ⟨hvalid.devices, hvalid.indexes, fun _ _ => rfl, hvalid.ids⟩
    have hstart := config.processor.nodup_ids_processor memory
    obtain ⟨master, hall⟩ := (DeviceConfig.exists_connectAll_iff config.devices _ hstart).2 hfits
    exact ⟨_, ofConfig_eq_ok_iff.2 ⟨_, master, hcpu, hall, rfl⟩⟩

-- The ports of a machine, once it could be built.
theorem nodup_ids_and_ports_eq [Generator] {config : MachineConfig} {cpu : Processor}
    {master : BusMaster Registers} (hcpu : config.processor.build = .ok cpu)
    (hall : cpu.toBusMaster.connectAll (DeviceConfig.buildAll config.devices) = .ok master) :
    master.bus.ids.Nodup ∧ config.ports =
      ⟨sortedLocations Kind.isSerial master.bus, sortedLocations Kind.isTerminal master.bus⟩ := by
  obtain ⟨_, _, memory, _, rfl⟩ := ProcessorConfig.build_eq_ok_iff.1 hcpu
  have hstart := config.processor.nodup_ids_processor memory
  have hfits := (DeviceConfig.exists_connectAll_iff config.devices _ hstart).1 ⟨master, hall⟩
  have hids := (DeviceConfig.perm_ids_connectAll config.devices hall).nodup_iff.2 hfits.ids
  have hnodup : master.bus.ids.Nodup := (List.nodup_cons.1 hids).2
  exact ⟨hnodup, MachineConfig.ports_eq rfl hall hnodup⟩

theorem ofConfig_reordered [Generator] {config other : MachineConfig} {machine : Machine}
    (hother : config.Reordered other) (h : ofConfig config = .ok machine) :
    ofConfig other = .ok machine := by
  obtain ⟨cpu, master, hcpu, hall, rfl⟩ := ofConfig_eq_ok_iff.1 h
  have hcpu' : other.processor.build = .ok cpu := hother.processor ▸ hcpu
  have hall' := DeviceConfig.connectAll_reordered hother.devices hall
  obtain ⟨_, hports⟩ := nodup_ids_and_ports_eq hcpu hall
  obtain ⟨_, hports'⟩ := nodup_ids_and_ports_eq hcpu' hall'
  refine ofConfig_eq_ok_iff.2 ⟨cpu, master, hcpu', hall', ?_⟩
  rw [hports, hports', hother.processor, hother.maxCycles]

-- A machine is built from the valid configurations and from no others, and it is then the machine
-- that the configuration describes, whatever the order of its lists.
theorem ofConfig_builds_exactly_valid [Generator] (config : MachineConfig) :
    ((∃ machine, ofConfig config = .ok machine) ↔ config.Valid) ∧
      ∀ machine, ofConfig config = .ok machine →
        machine.Mirrors config ∧
        machine.Handles Kind.isSerial machine.serialLines machine.serialLine? ∧
        machine.Handles Kind.isTerminal machine.terminals machine.terminal? ∧
        ∀ other, config.Reordered other → ofConfig other = .ok machine := by
  refine ⟨exists_ofConfig_iff, fun machine h => ?_⟩
  have hsame := fun other (hother : config.Reordered other) => ofConfig_reordered hother h
  obtain ⟨cpu, master, hcpu, hall, rfl⟩ := ofConfig_eq_ok_iff.1 h
  obtain ⟨hnodup, hports⟩ := nodup_ids_and_ports_eq hcpu hall
  obtain ⟨_, _, memory, hmemory, rfl⟩ := ProcessorConfig.build_eq_ok_iff.1 hcpu
  have hdevice := BusMaster.device_connectAll hall
  have hpaths := fun path => DeviceConfig.mirrors_connectAll path rfl hall
  have hempty : Bus.DistinctIndexes (config.processor.processor memory).bus := trivial
  have hindexes := DeviceConfig.distinctIndexes_connectAll config.devices hempty hall
  have hids := DeviceConfig.perm_ids_connectAll config.devices hall
  have hcpu' := Processor.setPc_connected hdevice config.processor.startPc
  refine ⟨⟨⟨memory, hmemory, hcpu'⟩, hpaths, hids⟩, ?_, ?_, hsame⟩
  · simp only [hports]
    exact handles_sortedLocations Kind.isSerial hindexes hnodup
  · simp only [hports]
    exact handles_sortedLocations Kind.isTerminal hindexes hnodup

-- A serial line below a bank of LEDs, and a memory below another serial line.
theorem ofConfig_builds_exactly_valid_nested :
    let line : KindConfig := .serial SerialLine.defaultBaud .standard
    let lower : DeviceConfig := ⟨2, 9, line, []⟩
    let upper : DeviceConfig := ⟨16, 100, line, [⟨1, 7, .memory 8, []⟩]⟩
    let config : MachineConfig :=
      { processor := .standard, devices := [upper, ⟨3, 5, .leds, [lower]⟩], maxCycles := none }
    let other : MachineConfig := { config with devices := [⟨3, 5, .leds, [lower]⟩, upper] }
    config.Valid ∧ config.Reordered other ∧ ∃ machine, ofConfig config = .ok machine ∧
      ofConfig other = .ok machine ∧ machine.serialLine? 9 = some ⟨9, [3, 2]⟩ := by
  intro line lower upper config other
  have hvalid : config.Valid := by decide
  have hother : config.Reordered other := ⟨rfl, .swap _ _ _, rfl⟩
  obtain ⟨hiff, hbuilt⟩ := ofConfig_builds_exactly_valid config
  obtain ⟨machine, hmachine⟩ := hiff.2 hvalid
  obtain ⟨hmirrors, hserial, _, hsame⟩ := hbuilt machine hmachine
  have hlower : Option.Rel DeviceConfig.Mirrors (some lower) (machine.cpu.bus.deviceAt? [3, 2]) :=
    hmirrors.devices [3, 2]
  generalize hdevice : machine.cpu.bus.deviceAt? [3, 2] = device? at hlower
  cases hlower with
  | some h =>
    have hmem := (hserial.mem_iff ⟨9, [3, 2]⟩).2 ⟨_, hdevice, h.id, by rw [h.kind]; rfl⟩
    exact ⟨hvalid, hother, machine, hmachine, hsame other hother,
      (hserial.find?_iff 9 _).2 ⟨hmem, rfl⟩⟩

end Machine

end MicroCisc
