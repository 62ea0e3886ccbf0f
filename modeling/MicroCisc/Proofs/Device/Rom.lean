import MicroCisc.Proofs.Device.Visit
import MicroCisc.Proofs.Memory.BootRom

namespace MicroCisc

-- What writes leave as it is in a memory.
structure BootRegion where
  size : Nat
  romEnd : Nat
  rom : List Word

namespace Memory

def bootRegion (memory : Memory) : BootRegion :=
  ⟨memory.size, memory.romEnd, memory.rom⟩

theorem bootRegion_write (memory : Memory) (address value : Word) :
    (memory.write address value).bootRegion = memory.bootRegion := by
  simp only [bootRegion, size_write, romEnd_write, rom_write]

section SameRegion

variable {before after : Memory} (h : after.bootRegion = before.bootRegion)

include h

theorem size_eq_of_bootRegion_eq : after.size = before.size :=
  congrArg BootRegion.size h

theorem romEnd_eq_of_bootRegion_eq : after.romEnd = before.romEnd :=
  congrArg BootRegion.romEnd h

theorem getElem?_eq_of_bootRegion_eq {i : Nat} (hi : i < before.romEnd) :
    after.words[i]? = before.words[i]? := by
  have hrom : after.rom[i]? = before.rom[i]? := congrArg (·.rom[i]?) h
  have hafter : i < after.romEnd := romEnd_eq_of_bootRegion_eq h ▸ hi
  rwa [rom, rom, List.getElem?_take_of_lt hafter, List.getElem?_take_of_lt hi,
    Array.getElem?_toList, Array.getElem?_toList] at hrom

-- An address falls in the ROM as it is or once it has wrapped.
theorem read_eq_of_bootRegion_eq {address : Word} (haddress : before.index address < before.romEnd) :
    after.read address = before.read address := by
  have hindex : after.index address = before.index address := by
    rw [index, index, size_eq_of_bootRegion_eq h]
  rw [read, read, hindex, Array.getD_eq_getD_getElem?, Array.getD_eq_getD_getElem?,
    getElem?_eq_of_bootRegion_eq h haddress]

end SameRegion

end Memory

namespace Device

variable {κ : Type} [Behavior κ]

theorem memory_writeSlot (device : Device κ) (source : Word) (slot : Slot) (value : Word) :
    (device.writeSlot source slot value).memory = device.memory := by
  obtain ⟨kind, control, hwrite⟩ := device.writeSlot_eq source slot value
  rw [hwrite]

theorem memory_readSlot (device : Device κ) (source : Word) (slot : Slot) (access : Access) :
    (device.readSlot source slot access).2.memory = device.memory := by
  obtain ⟨kind, hread⟩ := device.readSlot_eq source slot access
  rw [hread]

omit [Behavior κ] in
theorem bootRegion_writeBlock (device : Device κ) (source : Word) (offset : UInt8) (value : Word) :
    (device.writeBlock source offset value).memory.bootRegion = device.memory.bootRegion := by
  unfold writeBlock
  split
  · exact Memory.bootRegion_write _ _ _
  · rfl

end Device

namespace DeviceTree

-- Every path leads to the same ROM in both trees.
def SameRoms (old new : DeviceTree) : Prop :=
  ∀ path, (new.deviceAt? path).map (·.memory.bootRegion) =
    (old.deviceAt? path).map (·.memory.bootRegion)

theorem SameRoms.refl (tree : DeviceTree) : tree.SameRoms tree :=
  fun _ => rfl

theorem SameRoms.trans {old middle new : DeviceTree} (hfirst : old.SameRoms middle)
    (hsecond : middle.SameRoms new) : old.SameRoms new :=
  fun path => (hsecond path).trans (hfirst path)

theorem sameRoms_mapDevice {f : Device Kind → Device Kind}
    (hf : ∀ device : Device Kind, (f device).memory.bootRegion = device.memory.bootRegion)
    (tree : DeviceTree) : tree.SameRoms (tree.mapDevice f) := by
  cases tree with
  | node device bus =>
    intro path
    cases path with
    | nil => exact congrArg some (hf device)
    | cons index path => rfl

theorem treeAt?_tick (nanos : Nat) (path : List UInt8) (tree : DeviceTree) :
    (tree.tick nanos).treeAt? path = (tree.treeAt? path).map (DeviceTree.tick nanos) := by
  induction path generalizing tree with
  | nil => rfl
  | cons index path ih =>
    cases tree with
    | node device bus =>
      simp only [tick, treeAt?, DeviceTree.bus, Bus.get?_tick, Option.bind_map, Option.map_bind]
      exact Option.bind_congr fun below _ => ih below

theorem sameRoms_tick (nanos : Nat) (tree : DeviceTree) : tree.SameRoms (tree.tick nanos) := by
  intro path
  simp only [deviceAt?, treeAt?_tick, Option.map_map]
  refine Option.map_congr fun below _ => ?_
  cases below with
  | node device bus => simp only [Function.comp_apply, tick, DeviceTree.device, Device.tick]

end DeviceTree

namespace BusMaster

variable {κ : Type}

-- The memory of the device at the end of a path. The empty path leads to the master itself.
def memoryAt? (master : BusMaster κ) : List UInt8 → Option Memory
  | [] => some master.device.memory
  | index :: path => (master.bus.deviceAt? (index :: path)).map (·.memory)

-- The master and every device below it have the same ROMs.
structure SameRoms (old new : BusMaster κ) : Prop where
  own : new.device.memory.bootRegion = old.device.memory.bootRegion
  below : Bus.Pointwise (fun _ => DeviceTree.SameRoms) old.bus new.bus

theorem SameRoms.refl (master : BusMaster κ) : master.SameRoms master :=
  ⟨rfl, .refl (fun _ => .refl) master.bus⟩

theorem SameRoms.trans {old middle new : BusMaster κ} (hfirst : old.SameRoms middle)
    (hsecond : middle.SameRoms new) : old.SameRoms new :=
  ⟨hsecond.own.trans hfirst.own, hfirst.below.trans (fun _ _ _ _ => .trans) hsecond.below⟩

theorem SameRoms.bootRegion_memoryAt? {old new : BusMaster κ} (h : old.SameRoms new)
    (path : List UInt8) :
    (new.memoryAt? path).map (·.bootRegion) = (old.memoryAt? path).map (·.bootRegion) := by
  cases path with
  | nil => exact congrArg some h.own
  | cons index path =>
    have hbelow := h.below.get? index
    simp only [memoryAt?, Option.map_map, Bus.deviceAt?_cons]
    generalize old.bus.get? index = before at hbelow
    generalize new.bus.get? index = after at hbelow
    cases hbelow with
    | none => rfl
    | some htree => exact htree path

theorem SameRoms.toTree {tree : DeviceTree} {new : BusMaster Kind} (h : tree.master.SameRoms new) :
    tree.SameRoms new.toTree := by
  cases tree with
  | node device bus =>
    intro path
    have hregion := h.bootRegion_memoryAt? path
    cases path with
    | nil => exact hregion
    | cons index path =>
      simp only [memoryAt?, Option.map_map] at hregion
      exact hregion

end BusMaster

namespace Bus

variable (source : Word) (bus : Bus)

theorem pointwise_afterReads_sameRoms (addresses : List Word) :
    Pointwise (fun _ => DeviceTree.SameRoms) bus (bus.afterReads source addresses) := by
  apply pointwise_afterReads (fun _ => .refl) (fun _ _ _ _ => .trans)
  intro address _ tree
  apply DeviceTree.sameRoms_mapDevice
  intro device
  obtain ⟨kind, hreceive⟩ := device.receive_eq source
  rw [hreceive]

theorem pointwise_afterWrite_sameRoms (address value : Word) :
    Pointwise (fun _ => DeviceTree.SameRoms) bus (bus.afterWrite source address value) := by
  apply pointwise_afterWrite (fun _ => .refl)
  · intro tree slot
    apply DeviceTree.sameRoms_mapDevice
    intro device
    rw [device.memory_writeSlot]
  · intro tree offset
    exact DeviceTree.sameRoms_mapDevice (·.bootRegion_writeBlock source offset value) tree

theorem pointwise_tick_sameRoms (nanos : Nat) :
    Pointwise (fun _ => DeviceTree.SameRoms) bus (Bus.tick nanos bus) :=
  pointwise_tick (fun _ tree nanos => tree.sameRoms_tick nanos) nanos bus

end Bus

/-! ### The host -/

-- What a host can do with a device: let time pass, use its slots and its mapped block for a source,
-- write to its memory, and use its bus in its place.
inductive HostAction where
  | tick (nanos : Nat)
  | readSlot (source : Word) (slot : Slot) (access : Access)
  | writeSlot (source : Word) (slot : Slot) (value : Word)
  | writeLocal (address value : Word)
  | writeBlock (source : Word) (offset : UInt8) (value : Word)
  | readBus (address : Word) (access : Access)
  | writeBus (address value : Word)

namespace BusMaster

variable {κ : Type} [Behavior κ]

def act (master : BusMaster κ) : HostAction → BusMaster κ
  | .tick nanos => master.tick nanos
  | .readSlot source slot access =>
      { master with device := (master.device.readSlot source slot access).2 }
  | .writeSlot source slot value =>
      { master with device := master.device.writeSlot source slot value }
  | .writeLocal address value => { master with device := master.device.writeLocal address value }
  | .writeBlock source offset value =>
      { master with device := master.device.writeBlock source offset value }
  | .readBus address access => (master.read address access).2
  | .writeBus address value => master.write address value

-- Acts on the device at the end of a path, if the path leads to one.
def actAt (action : HostAction) :
    List UInt8 → {κ : Type} → [Behavior κ] → BusMaster κ → BusMaster κ
  | [], _, _, master => master.act action
  | index :: path, _, _, master =>
      { master with
        bus := master.bus.modify (fun below => (actAt action path below.master).toTree) index }

theorem sameRoms_read (master : BusMaster κ) (address : Word) (access : Access) :
    master.SameRoms (master.read address access).2 := by
  unfold read
  split
  · next slot _ =>
    exact ⟨congrArg _ (master.device.memory_readSlot _ slot access), .refl (fun _ => .refl) _⟩
  · next index slot _ _ =>
    refine ⟨rfl, ?_⟩
    simp only [Bus.snd_readSlot]
    apply Bus.pointwise_modify (fun _ => .refl)
    intro tree
    apply DeviceTree.sameRoms_mapDevice
    intro device
    rw [device.memory_readSlot]
  · exact .refl master

theorem sameRoms_write (master : BusMaster κ) (address value : Word) :
    master.SameRoms (master.write address value) := by
  constructor
  · rw [device_write]
    split
    · rw [Device.memory_writeSlot]
    · rfl
  · rw [bus_write]
    exact master.bus.pointwise_afterWrite_sameRoms _ address value

theorem sameRoms_act (master : BusMaster κ) (action : HostAction) :
    master.SameRoms (master.act action) := by
  have hbus := (SameRoms.refl master).below
  cases action with
  | tick nanos => exact ⟨rfl, master.bus.pointwise_tick_sameRoms nanos⟩
  | readSlot source slot access =>
    exact ⟨congrArg _ (master.device.memory_readSlot source slot access), hbus⟩
  | writeSlot source slot value =>
    exact ⟨congrArg _ (master.device.memory_writeSlot source slot value), hbus⟩
  | writeLocal address value => exact ⟨Memory.bootRegion_write _ address value, hbus⟩
  | writeBlock source offset value =>
    exact ⟨master.device.bootRegion_writeBlock source offset value, hbus⟩
  | readBus address access => exact master.sameRoms_read address access
  | writeBus address value => exact master.sameRoms_write address value

theorem sameRoms_actAt (action : HostAction) (path : List UInt8) {κ : Type} [Behavior κ]
    (master : BusMaster κ) : master.SameRoms (master.actAt action path) := by
  induction path generalizing κ master with
  | nil => exact master.sameRoms_act action
  | cons index path ih =>
    refine ⟨rfl, ?_⟩
    apply Bus.pointwise_modify (fun _ => .refl)
    intro tree
    exact (ih tree.master).toTree

end BusMaster

end MicroCisc
