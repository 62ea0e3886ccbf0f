import MicroCisc.Config.Basic

namespace MicroCisc

namespace KindConfig

-- Is the width one that a memory can have? A memory or a processor has the width that it is given,
-- and all others have one of their own.
def HasValidWidth : KindConfig → Prop
  | .memory width | .processor width => width = 0 ∨ 8 ≤ width ∧ width ≤ 16
  | .serial _ _ | .terminal | .leds => True

instance : DecidablePred HasValidWidth
  | .memory width | .processor width =>
      inferInstanceAs (Decidable (width = 0 ∨ 8 ≤ width ∧ width ≤ 16))
  | .serial _ _ | .terminal | .leds => .isTrue trivial

-- The type that a device of this kind reports.
def type : KindConfig → DeviceType
  | .serial _ _ => .serial
  | .terminal => .terminal
  | .leds => .pinIo
  | .memory _ => .blockMemory
  | .processor _ => .processor

end KindConfig

namespace DeviceConfig

mutual

-- A device and all those below it.
def all : DeviceConfig → List DeviceConfig
  | ⟨index, id, kind, connected⟩ => ⟨index, id, kind, connected⟩ :: allOf connected

def allOf : List DeviceConfig → List DeviceConfig
  | [] => []
  | config :: rest => config.all ++ allOf rest

end

-- The ids of some devices and of all those below them.
def idsOf (configs : List DeviceConfig) : List Word :=
  (allOf configs).map (·.id)

-- What each device needs for itself and for the bus that it masters.
structure Sound (config : DeviceConfig) : Prop where
  index : config.index ≠ 0
  id : config.id ≠ 0
  width : config.kind.HasValidWidth
  connected : (config.connected.map (·.index)).Nodup

instance : DecidablePred Sound := fun config =>
  decidable_of_iff
    (config.index ≠ 0 ∧ config.id ≠ 0 ∧ config.kind.HasValidWidth ∧
      (config.connected.map (·.index)).Nodup)
    ⟨fun ⟨hindex, hid, hwidth, hconnected⟩ => ⟨hindex, hid, hwidth, hconnected⟩,
      fun h => ⟨h.index, h.id, h.width, h.connected⟩⟩

-- The device that a path leads to from another one, or from a list of devices on one bus.
def at? : List UInt8 → DeviceConfig → Option DeviceConfig
  | [], config => some config
  | index :: path, config => (config.connected.find? (·.index == index)).bind (at? path)

def atOf? (configs : List DeviceConfig) : List UInt8 → Option DeviceConfig
  | [] => none
  | index :: path => (configs.find? (·.index == index)).bind (at? path)

-- The same devices, listed in another order here or on any of the buses below.
inductive Reordered : List DeviceConfig → List DeviceConfig → Prop
  | nil : Reordered [] []
  | cons {index : UInt8} {id : Word} {kind : KindConfig}
      {connected connected' rest rest' : List DeviceConfig} (below : Reordered connected connected')
      (beside : Reordered rest rest') :
      Reordered (⟨index, id, kind, connected⟩ :: rest) (⟨index, id, kind, connected'⟩ :: rest')
  | swap (first second : DeviceConfig) (rest : List DeviceConfig) :
      Reordered (first :: second :: rest) (second :: first :: rest)
  | trans {configs between configs' : List DeviceConfig} (left : Reordered configs between)
      (right : Reordered between configs') : Reordered configs configs'

-- What holds of no devices, and of a device and others if it holds of those below it and beside it,
-- holds of all devices.
theorem induction {motive : List DeviceConfig → Prop} (nil : motive [])
    (cons : ∀ config rest, motive config.connected → motive rest → motive (config :: rest))
    (configs : List DeviceConfig) : motive configs :=
  @rec_1 (fun config => motive config.connected) motive (fun _ _ _ _ below => below) nil cons configs

variable (config : DeviceConfig) (rest : List DeviceConfig)

theorem all_eq : config.all = config :: allOf config.connected := by
  cases config
  rw [all]

theorem idsOf_cons : idsOf (config :: rest) = config.id :: idsOf config.connected ++ idsOf rest := by
  rw [idsOf, allOf, all_eq, List.map_append, List.map_cons]
  rfl

end DeviceConfig

-- What a configuration must meet to be built.
structure MachineConfig.Valid (config : MachineConfig) : Prop where
  id : config.processor.id ≠ 0
  width : 8 ≤ config.processor.addressWidth ∧ config.processor.addressWidth ≤ 16
  devices : ∀ device ∈ DeviceConfig.allOf config.devices, device.Sound
  indexes : (config.devices.map (·.index)).Nodup
  ids : (config.processor.id :: DeviceConfig.idsOf config.devices).Nodup

instance : DecidablePred MachineConfig.Valid := fun config =>
  decidable_of_iff
    (config.processor.id ≠ 0 ∧
      (8 ≤ config.processor.addressWidth ∧ config.processor.addressWidth ≤ 16) ∧
      (∀ device ∈ DeviceConfig.allOf config.devices, device.Sound) ∧
      (config.devices.map (·.index)).Nodup ∧
      (config.processor.id :: DeviceConfig.idsOf config.devices).Nodup)
    ⟨fun ⟨hid, hwidth, hdevices, hindexes, hids⟩ => ⟨hid, hwidth, hdevices, hindexes, hids⟩,
      fun h => ⟨h.id, h.width, h.devices, h.indexes, h.ids⟩⟩

-- The same configuration, with its devices listed in another order.
structure MachineConfig.Reordered (config other : MachineConfig) : Prop where
  processor : other.processor = config.processor
  devices : DeviceConfig.Reordered config.devices other.devices
  maxCycles : other.maxCycles = config.maxCycles

end MicroCisc
