import MicroCisc.Proofs.Device.Access

namespace MicroCisc

namespace SerialLine

theorem readSlot_drain (line : SerialLine) (slot : Slot) (access : Access) :
    line.drain.2.readSlot slot access =
      ((line.readSlot slot access).1, (line.readSlot slot access).2.drain.2) := by
  have hreceive : line.drain.2.receive = (line.receive.1, line.receive.2.drain.2) := by
    simp only [receive, drain]
    split
    · rfl
    · split <;> simp_all [receiveFiller]
  unfold readSlot
  split
  · rfl
  · rfl
  · rfl
  · simp only [hreceive]
  · simp_all

theorem drain_writeSlot (line : SerialLine) (slot : Slot) (value : Word) :
    (line.drain.2.writeSlot slot value).drain.2 = (line.writeSlot slot value).drain.2 := by
  unfold writeSlot
  split
  · by_cases hfree : line.free = 0 <;> simp [transmit, drain, hfree]
  · rfl

theorem passPeriods_drain (n : Nat) (line : SerialLine) :
    passPeriods n line.drain.2 = (passPeriods n line).drain.2 := by
  induction n generalizing line with
  | zero => rfl
  | succ n ih =>
    rw [passPeriods_succ, passPeriods_succ, ← ih]
    rfl

theorem tick_drain (line : SerialLine) (nanos : Nat) :
    line.drain.2.tick nanos = (line.tick nanos).drain.2 := by
  unfold tick
  exact passPeriods_drain _ { line with elapsed := (line.elapsed + nanos) % line.bytePeriod }

end SerialLine

namespace Kind

-- The host has taken all that the device has sent.
def drained : Kind → Kind
  | .serial line => .serial line.drain.2
  | .terminal display => .terminal display.take.2
  | kind => kind

theorem drained_drained (kind : Kind) : kind.drained.drained = kind.drained := by
  cases kind <;> rfl

theorem type_drained (kind : Kind) : kind.drained.type = kind.type := by
  cases kind <;> rfl

theorem readSlot_drained (kind : Kind) (memory : Memory) (slot : Slot) (access : Access) :
    kind.drained.readSlot memory slot access =
      ((kind.readSlot memory slot access).1, (kind.readSlot memory slot access).2.drained) := by
  cases kind with
  | serial line => simp only [drained, readSlot, SerialLine.readSlot_drain]
  | processor regs | memory | terminal display | leds bank => rfl

theorem drained_writeSlot (kind : Kind) (slot : Slot) (value : Word) :
    (kind.drained.writeSlot slot value).drained = (kind.writeSlot slot value).drained := by
  cases kind with
  | serial line => simp only [drained, writeSlot, SerialLine.drain_writeSlot]
  | terminal display =>
    simp only [drained, writeSlot, Terminal.writeSlot, Terminal.take]
    split <;> rfl
  | processor regs | memory | leds bank => rfl

theorem drained_tick (kind : Kind) (memory : Memory) (nanos : Nat) :
    (kind.drained.tick memory nanos).drained = (kind.tick memory nanos).drained := by
  cases kind with
  | serial line => simp only [drained, tick, SerialLine.tick_drain]; rfl
  | terminal display =>
    simp only [drained, tick, Terminal.tick, Terminal.take]
    split <;> rfl
  | processor regs | memory | leds bank => rfl

end Kind

namespace Device

def drained (device : Device Kind) : Device Kind :=
  { device with kind := device.kind.drained }

variable (device : Device Kind) (source : Word)

theorem drained_drained : device.drained.drained = device.drained := by
  simp only [drained, Kind.drained_drained]

theorem readSlot_drained (slot : Slot) (access : Access) :
    device.drained.readSlot source slot access =
      ((device.readSlot source slot access).1, (device.readSlot source slot access).2.drained) := by
  have htype : device.drained.type = device.type := device.kind.type_drained
  have hcontroller : device.drained.isController source = device.isController source := rfl
  have hgated : device.drained.readGatedSlot slot access =
      ((device.readGatedSlot slot access).1, (device.readGatedSlot slot access).2.drained) := by
    have hkind := device.kind.readSlot_drained device.memory slot access
    unfold readGatedSlot
    split
    · rfl
    · rfl
    · rfl
    · simp only [drained, Behavior.readSlot, hkind]
  unfold readSlot
  split
  · rfl
  · rw [htype]
    rfl
  · rfl
  · rw [hcontroller]
    split
    · exact hgated
    · rfl

theorem drained_writeSlot (slot : Slot) (value : Word) :
    (device.drained.writeSlot source slot value).drained =
      (device.writeSlot source slot value).drained := by
  have hcontroller : device.drained.isController source = device.isController source := rfl
  have howner : device.drained.control.owner = device.control.owner := rfl
  have hgated : (device.drained.writeGatedSlot slot value).drained =
      (device.writeGatedSlot slot value).drained := by
    have hkind := device.kind.drained_writeSlot slot value
    unfold writeGatedSlot
    split
    · simp only [drained, Kind.drained_drained]
    · simp only [drained, Kind.drained_drained]
    · simp only [drained, setInterruptHandler, Kind.drained_drained]
    · simp only [drained, Behavior.writeSlot, hkind]
  unfold writeSlot
  split
  · exact device.drained_drained
  · exact device.drained_drained
  · simp only [claim, hcontroller, howner]
    split
    · simp only [drained, setOwner, Kind.drained_drained]
    · split <;> simp only [drained, setOwner, Kind.drained_drained]
  · rw [hcontroller]
    split
    · exact hgated
    · exact device.drained_drained

theorem drained_writeBlock (offset : UInt8) (value : Word) :
    (device.drained.writeBlock source offset value).drained =
      (device.writeBlock source offset value).drained := by
  have hcontroller : device.drained.isController source = device.isController source := rfl
  simp only [writeBlock, hcontroller]
  split
  · simp only [writeLocal, blockAddress, drained, Kind.drained_drained]
  · exact device.drained_drained

theorem drained_tick (nanos : Nat) :
    (device.drained.tick nanos).drained = (device.tick nanos).drained := by
  have hkind := device.kind.drained_tick device.memory nanos
  simp only [drained, tick, Behavior.tick, hkind]

end Device

mutual

def DeviceTree.drained : DeviceTree → DeviceTree
  | .node device bus => .node device.drained (Bus.drained bus)

def Bus.drained : Bus → Bus
  | [] => []
  | (index, tree) :: rest => (index, tree.drained) :: Bus.drained rest

end

mutual

theorem DeviceTree.drained_drained : (tree : DeviceTree) → tree.drained.drained = tree.drained
  | .node device bus => by
      rw [DeviceTree.drained, DeviceTree.drained, device.drained_drained, Bus.drained_drained bus]

theorem Bus.drained_drained : (bus : Bus) → Bus.drained (Bus.drained bus) = Bus.drained bus
  | [] => rfl
  | (index, tree) :: rest => by
      rw [Bus.drained, Bus.drained, tree.drained_drained, Bus.drained_drained rest]

end

mutual

theorem DeviceTree.drained_tick (nanos : Nat) :
    (tree : DeviceTree) → (tree.drained.tick nanos).drained = (tree.tick nanos).drained
  | .node device bus => by
      rw [DeviceTree.drained, DeviceTree.tick, DeviceTree.tick, DeviceTree.drained,
        DeviceTree.drained, device.drained_tick, Bus.drained_tick nanos bus]

theorem Bus.drained_tick (nanos : Nat) :
    (bus : Bus) → (Bus.tick nanos bus.drained).drained = (Bus.tick nanos bus).drained
  | [] => rfl
  | (index, tree) :: rest => by
      rw [Bus.drained, Bus.tick, Bus.tick, Bus.drained, Bus.drained, tree.drained_tick nanos,
        Bus.drained_tick nanos rest]

end

namespace DeviceTree

theorem device_drained (tree : DeviceTree) : tree.drained.device = tree.device.drained := by
  cases tree
  rw [drained]
  rfl

theorem drained_mapDevice {f : Device Kind → Device Kind}
    (hf : ∀ device : Device Kind, (f device.drained).drained = (f device).drained)
    (tree : DeviceTree) : (tree.drained.mapDevice f).drained = (tree.mapDevice f).drained := by
  cases tree with
  | node device bus =>
    simp only [drained, mapDevice, hf, Bus.drained_drained]

end DeviceTree

namespace Bus

theorem get?_drained (bus : Bus) (index : UInt8) :
    bus.drained.get? index = (bus.get? index).map DeviceTree.drained := by
  induction bus with
  | nil => rfl
  | cons first rest ih =>
    obtain ⟨i, tree⟩ := first
    simp only [drained, get?, List.lookup_cons] at ih ⊢
    split
    · rfl
    · exact ih

theorem drained_modify {f : DeviceTree → DeviceTree}
    (hf : ∀ tree : DeviceTree, (f tree.drained).drained = (f tree).drained) (index : UInt8)
    (bus : Bus) : (Bus.modify f index bus.drained).drained = (Bus.modify f index bus).drained := by
  induction bus with
  | nil => rfl
  | cons first rest ih =>
    obtain ⟨i, tree⟩ := first
    simp only [drained, modify]
    split
    · simp only [drained, hf, drained_drained]
    · simp only [drained, tree.drained_drained, ih]

theorem readSlot_drained (source : Word) (index : UInt8) (slot : Slot) (access : Access)
    (bus : Bus) :
    Bus.readSlot source index slot access bus.drained =
      ((Bus.readSlot source index slot access bus).1,
        (Bus.readSlot source index slot access bus).2.drained) := by
  induction bus with
  | nil => rfl
  | cons first rest ih =>
    obtain ⟨i, ⟨device, below⟩⟩ := first
    simp only [drained, DeviceTree.drained, readSlot]
    split
    · simp only [device.readSlot_drained, drained, DeviceTree.drained]
    · simp only [ih, drained, DeviceTree.drained]

theorem readBlock_drained (bus : Bus) (source : Word) (index offset : UInt8) :
    bus.drained.readBlock source index offset = bus.readBlock source index offset := by
  unfold readBlock
  rw [get?_drained]
  cases bus.get? index with
  | none => rfl
  | some tree =>
    simp only [Option.map_some, DeviceTree.device_drained]
    rfl

end Bus

namespace BusMaster

-- A master of devices whose output has all been drained.
def drained (master : BusMaster Registers) : BusMaster Registers :=
  { master with bus := master.bus.drained }

variable (master : BusMaster Registers)

theorem read_drained (address : Word) (access : Access) :
    master.drained.read address access =
      ((master.read address access).1, (master.read address access).2.drained) := by
  unfold read
  split
  · rfl
  · simp only [drained, Bus.readSlot_drained]
  · simp only [drained, Bus.readBlock_drained]

theorem drained_write (address value : Word) :
    (master.drained.write address value).drained = (master.write address value).drained := by
  unfold write
  split
  · simp only [drained, Bus.drained_drained]
  · next index slot _ _ =>
    simp only [drained, Bus.writeSlot]
    rw [Bus.drained_modify]
    exact DeviceTree.drained_mapDevice fun device => device.drained_writeSlot _ slot value
  · next index offset _ =>
    simp only [drained, Bus.writeBlock]
    rw [Bus.drained_modify]
    exact DeviceTree.drained_mapDevice fun device => device.drained_writeBlock _ offset value

theorem drained_tick (nanos : Nat) :
    (master.drained.tick nanos).drained = (master.tick nanos).drained := by
  simp only [drained, tick, Bus.drained_tick]

end BusMaster

end MicroCisc
