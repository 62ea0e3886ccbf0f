import MicroCisc.Proofs.Device.Gating
import MicroCisc.Proofs.Device.Pointwise

namespace MicroCisc

namespace BusAddress

-- The bus index that an address selects, 0 for the master itself.
def index : BusAddress → UInt8
  | .slot index _ | .block index _ => index

-- All but the slots 0 to 2 is open only to a controller.
def IsGated : BusAddress → Prop
  | .slot _ number => 3 ≤ number
  | .block _ _ => True

end BusAddress

namespace DeviceTree

@[simp] theorem device_mapDevice (f : Device Kind → Device Kind) (tree : DeviceTree) :
    (tree.mapDevice f).device = f tree.device := by
  cases tree
  rfl

@[simp] theorem bus_mapDevice (f : Device Kind → Device Kind) (tree : DeviceTree) :
    (tree.mapDevice f).bus = tree.bus := by
  cases tree
  rfl

theorem mapDevice_eq_self {f : Device Kind → Device Kind} {tree : DeviceTree}
    (h : f tree.device = tree.device) : tree.mapDevice f = tree := by
  cases tree
  exact congrArg (DeviceTree.node · _) h

theorem mapDevice_congr {f g : Device Kind → Device Kind} {tree : DeviceTree}
    (h : f tree.device = g tree.device) : tree.mapDevice f = tree.mapDevice g := by
  cases tree
  exact congrArg (DeviceTree.node · _) h

theorem mapDevice_mapDevice (f g : Device Kind → Device Kind) (tree : DeviceTree) :
    (tree.mapDevice f).mapDevice g = tree.mapDevice fun device => g (f device) := by
  cases tree
  rfl

-- The device at the top of a tree is as it was, but for the state of its kind.
def SameButKind (old new : DeviceTree) : Prop :=
  ∃ kind, new.device = { old.device with kind }

theorem SameButKind.refl (tree : DeviceTree) : tree.SameButKind tree :=
  ⟨tree.device.kind, rfl⟩

theorem SameButKind.trans {old middle new : DeviceTree} (hfirst : old.SameButKind middle)
    (hsecond : middle.SameButKind new) : old.SameButKind new := by
  obtain ⟨_, hfirst⟩ := hfirst
  obtain ⟨kind, hsecond⟩ := hsecond
  rw [hfirst] at hsecond
  exact ⟨kind, hsecond⟩

end DeviceTree

-- A serial line receives a byte, or else a byte of its filler.
def Kind.receive : Kind → Kind
  | .serial line => .serial line.receive.2
  | kind => kind

theorem Kind.snd_readSlot_consume (kind : Kind) (memory : Memory) (slot : Slot) :
    (kind.readSlot memory slot .consume).2 = if slot = 10 then kind.receive else kind := by
  cases kind with
  | serial line =>
    simp only [Kind.readSlot, SerialLine.readSlot, Kind.receive]
    split <;> simp_all
  | processor | memory | terminal | leds => simp [Kind.readSlot, Kind.receive]

theorem Kind.snd_readSlot_peek (kind : Kind) (memory : Memory) (slot : Slot) :
    (kind.readSlot memory slot .peek).2 = kind := by
  cases kind with
  | serial line =>
    simp only [Kind.readSlot, SerialLine.readSlot]
    split <;> simp_all
  | processor | memory | terminal | leds => rfl

namespace Device

-- What a read of slot 10 leaves.
def receive (device : Device Kind) (source : Word) : Device Kind :=
  if device.isController source then { device with kind := device.kind.receive } else device

variable {device : Device Kind} {source : Word}

theorem receive_of_isStranger (h : device.IsStranger source) : device.receive source = device := by
  rw [← isController_eq_false_iff] at h
  simp [receive, h]

theorem receive_eq (device : Device Kind) (source : Word) :
    ∃ kind, device.receive source = { device with kind } := by
  unfold receive
  split
  · exact ⟨_, rfl⟩
  · exact ⟨device.kind, rfl⟩

theorem snd_readSlot_consume (device : Device Kind) (source : Word) (slot : Slot) :
    (device.readSlot source slot .consume).2 =
      if slot = 10 then device.receive source else device := by
  cases hsource : device.isController source with
  | false =>
    have hstranger := (isController_eq_false_iff device source).1 hsource
    simp only [readSlot_of_isStranger hstranger, receive_of_isStranger hstranger, ite_self]
  | true =>
    unfold readSlot
    split
    · simp
    · simp
    · simp
    · simp only [hsource, if_true]
      unfold readGatedSlot
      split
      · simp
      · simp
      · simp
      · simp only [Behavior.readSlot, Kind.snd_readSlot_consume, receive, hsource, if_true]
        split <;> rfl

theorem snd_readSlot_peek (device : Device Kind) (source : Word) (slot : Slot) :
    (device.readSlot source slot .peek).2 = device := by
  unfold readSlot
  split
  · rfl
  · rfl
  · rfl
  · split
    · unfold readGatedSlot
      split
      · rfl
      · rfl
      · rfl
      · simp only [Behavior.readSlot, Kind.snd_readSlot_peek]
    · rfl

-- The registers of a processor can be read without effect.
theorem snd_readSlot_registers (device : Device Registers) (source : Word) (slot : Slot)
    (access : Access) : (device.readSlot source slot access).2 = device := by
  unfold readSlot
  split
  · rfl
  · rfl
  · rfl
  · split
    · unfold readGatedSlot
      split <;> rfl
    · rfl

-- What a write to an address leaves of the device at an index.
def afterWrite (device : Device Kind) (source : Word) (index : UInt8) (address value : Word) :
    Device Kind :=
  match BusAddress.ofWord address with
  | .slot i slot => if i = index ∧ i ≠ 0 then device.writeSlot source slot value else device
  | .block i offset => if i = index then device.writeBlock source offset value else device

end Device

namespace Bus

theorem snd_readSlot (source : Word) (index : UInt8) (slot : Slot) (access : Access) (bus : Bus) :
    (Bus.readSlot source index slot access bus).2 =
      Bus.modify (.mapDevice fun device => (device.readSlot source slot access).2) index bus := by
  induction bus with
  | nil => rfl
  | cons first rest ih =>
    obtain ⟨i, ⟨device, below⟩⟩ := first
    simp only [Bus.readSlot, modify]
    split
    · rfl
    · simp only [ih]

theorem fst_readSlot (source : Word) (index : UInt8) (slot : Slot) (access : Access) (bus : Bus) :
    (Bus.readSlot source index slot access bus).1 =
      match bus.get? index with
      | some tree => (tree.device.readSlot source slot access).1
      | none => 0 := by
  induction bus with
  | nil => rfl
  | cons first rest ih =>
    obtain ⟨i, ⟨device, below⟩⟩ := first
    simp only [Bus.readSlot, get?, List.lookup_cons, beq_iff_eq] at ih ⊢
    by_cases hindex : i = index
    · simp [hindex, DeviceTree.device]
    · simp only [hindex, if_false, beq_false_of_ne (Ne.symm hindex)]
      exact ih

-- What a read of an address, as the master with the id `source`, leaves of the bus.
def afterRead (source : Word) (bus : Bus) (address : Word) : Bus :=
  match BusAddress.ofWord address with
  | .slot index slot =>
      if index ≠ 0 ∧ slot = 10 then Bus.modify (.mapDevice (·.receive source)) index bus else bus
  | .block _ _ => bus

def afterReads (source : Word) (bus : Bus) (addresses : List Word) : Bus :=
  addresses.foldl (afterRead source) bus

variable {R : UInt8 → DeviceTree → DeviceTree → Prop}

-- What holds of a device that is not read, and of one that receives a byte, holds after reads.
theorem pointwise_afterReads (hrefl : ∀ index tree, R index tree tree)
    (htrans : ∀ index old middle new, R index old middle → R index middle new → R index old new)
    (source : Word) {addresses : List Word}
    (hreceive : ∀ address ∈ addresses, ∀ tree : DeviceTree,
      R (BusAddress.ofWord address).index tree (tree.mapDevice (·.receive source)))
    (bus : Bus) : Pointwise R bus (bus.afterReads source addresses) := by
  induction addresses generalizing bus with
  | nil => exact .refl hrefl bus
  | cons address rest ih =>
    have hfirst : Pointwise R bus (bus.afterRead source address) := by
      have hread := hreceive address (by simp)
      unfold afterRead
      split
      · next index slot h =>
        split
        · exact pointwise_modify hrefl (by simpa only [h, BusAddress.index] using hread) bus
        · exact .refl hrefl bus
      · exact .refl hrefl bus
    have hrest := ih (fun a ha => hreceive a (List.mem_cons_of_mem _ ha))
      (bus.afterRead source address)
    exact hfirst.trans htrans hrest

theorem pointwise_afterReads_sameButKind (source : Word) (addresses : List Word) (bus : Bus) :
    Pointwise (fun _ => DeviceTree.SameButKind) bus (bus.afterReads source addresses) := by
  apply pointwise_afterReads (fun _ => .refl) (fun _ _ _ _ => .trans)
  intro address _ tree
  obtain ⟨kind, hreceive⟩ := tree.device.receive_eq source
  exact ⟨kind, by rw [DeviceTree.device_mapDevice, hreceive]⟩

theorem get?_afterReads_of_isStranger {source : Word} {bus : Bus} {index : UInt8}
    {tree : DeviceTree} (hget : bus.get? index = some tree)
    (hstranger : tree.device.IsStranger source) (addresses : List Word) :
    (bus.afterReads source addresses).get? index = some tree := by
  induction addresses generalizing bus with
  | nil => exact hget
  | cons address rest ih =>
    apply ih
    unfold afterRead
    split
    · split
      · rw [get?_modify]
        split
        · have hsame : tree.mapDevice (·.receive source) = tree :=
            DeviceTree.mapDevice_eq_self (Device.receive_of_isStranger hstranger)
          rw [hget, Option.map_some, hsame]
        · exact hget
      · exact hget
    · exact hget

-- What a write to an address leaves of the bus.
def afterWrite (source : Word) (bus : Bus) (address value : Word) : Bus :=
  match BusAddress.ofWord address with
  | .slot index slot => if index = 0 then bus else bus.writeSlot source index slot value
  | .block index offset => bus.writeBlock source index offset value

theorem pointwise_afterWrite (hrefl : ∀ index tree, R index tree tree) {source address value : Word}
    (hslot : ∀ (tree : DeviceTree) slot, R (BusAddress.ofWord address).index tree
      (tree.mapDevice (·.writeSlot source slot value)))
    (hblock : ∀ (tree : DeviceTree) offset, R (BusAddress.ofWord address).index tree
      (tree.mapDevice (·.writeBlock source offset value)))
    (bus : Bus) : Pointwise R bus (bus.afterWrite source address value) := by
  unfold afterWrite
  split
  · next h =>
    rw [h] at hslot
    split
    · exact .refl hrefl bus
    · exact pointwise_modify hrefl (hslot · _) bus
  · next h =>
    rw [h] at hblock
    exact pointwise_modify hrefl (hblock · _) bus

theorem get?_afterWrite (source : Word) (bus : Bus) (address value : Word) (index : UInt8) :
    (bus.afterWrite source address value).get? index =
      (bus.get? index).map (.mapDevice (·.afterWrite source index address value)) := by
  have hsame : (bus.get? index).map (.mapDevice fun device => device) = bus.get? index := by
    cases bus.get? index with
    | none => rfl
    | some tree => exact congrArg some (DeviceTree.mapDevice_eq_self rfl)
  unfold afterWrite Device.afterWrite
  split
  · next i slot h =>
    by_cases hindex : i = index
    · subst hindex
      split <;> simp_all [Bus.writeSlot, Bus.get?_modify]
    · split <;> simp [hindex, Ne.symm hindex, hsame, Bus.writeSlot, Bus.get?_modify]
  · next i offset h =>
    by_cases hindex : i = index
    · simp [hindex, Bus.writeBlock, Bus.get?_modify]
    · simp [hindex, Ne.symm hindex, hsame, Bus.writeBlock, Bus.get?_modify]

end Bus

namespace BusMaster

-- A master that can be read without effect is as it was after reads on its bus.
theorem snd_read_consume (master : BusMaster Registers) (address : Word) :
    (master.read address .consume).2 =
      { master with bus := master.bus.afterRead master.device.id address } := by
  unfold read Bus.afterRead
  split
  · next slot h => simp [h, Device.snd_readSlot_registers]
  · next index slot hindex h =>
    simp only [h, Bus.snd_readSlot, Device.snd_readSlot_consume]
    have hne : index ≠ 0 := hindex
    by_cases hslot : slot = 10
    · simp [hslot, hne]
    · simp only [hslot, if_false, and_false]
      rw [Bus.modify_eq_self fun tree _ => DeviceTree.mapDevice_eq_self rfl]
  · next h => simp [h]

theorem snd_read_peek (master : BusMaster Registers) (address : Word) :
    (master.read address .peek).2 = master := by
  unfold read
  split
  · simp only [Device.snd_readSlot_registers]
  · simp only [Bus.snd_readSlot, Device.snd_readSlot_peek]
    rw [Bus.modify_eq_self fun tree _ => DeviceTree.mapDevice_eq_self rfl]
  · rfl

variable {κ : Type} [Behavior κ]

theorem device_write (master : BusMaster κ) (address value : Word) :
    (master.write address value).device =
      match BusAddress.ofWord address with
      | .slot 0 slot => master.device.writeSlot master.device.id slot value
      | _ => master.device := by
  unfold write
  split <;> simp_all

-- No access changes the id of the master.
theorem id_read (master : BusMaster κ) (address : Word) (access : Access) :
    (master.read address access).2.device.id = master.device.id := by
  unfold read
  split
  · next slot _ =>
    obtain ⟨kind, hread⟩ := master.device.readSlot_eq master.device.id slot access
    show (master.device.readSlot master.device.id slot access).2.id = _
    rw [hread]
  · rfl
  · rfl

theorem id_write (master : BusMaster κ) (address value : Word) :
    (master.write address value).device.id = master.device.id := by
  rw [device_write]
  split
  · next slot _ =>
    obtain ⟨kind, control, hwrite⟩ := master.device.writeSlot_eq master.device.id slot value
    rw [hwrite]
  · rfl

theorem bus_write (master : BusMaster κ) (address value : Word) :
    (master.write address value).bus =
      master.bus.afterWrite master.device.id address value := by
  unfold write Bus.afterWrite
  split <;> simp_all

-- Nothing that is gated in the device at an index can be read or written by the master.
def LockedOut (master : BusMaster κ) (index : UInt8) : Prop :=
  ∀ address, (BusAddress.ofWord address).index = index → (BusAddress.ofWord address).IsGated →
    (∀ access, master.read address access = (0, master)) ∧
      ∀ value, master.write address value = master

theorem lockedOut_of_isStranger {master : BusMaster κ} {index : UInt8} {tree : DeviceTree}
    (hindex : index ≠ 0) (hget : master.bus.get? index = some tree)
    (hstranger : tree.device.IsStranger master.device.id) : master.LockedOut index := by
  have hkept : ∀ f : Device Kind → Device Kind, f tree.device = tree.device →
      Bus.modify (.mapDevice f) index master.bus = master.bus := by
    intro f hf
    apply Bus.modify_eq_self
    intro tree' htree'
    rw [hget, Option.some.injEq] at htree'
    subst htree'
    exact DeviceTree.mapDevice_eq_self hf
  intro address haddress hgated
  unfold read write
  cases hword : BusAddress.ofWord address with
  | slot i slot =>
    rw [hword] at haddress hgated
    have hi : i = index := haddress
    subst hi
    refine ⟨fun access => ?_, fun value => ?_⟩
    · have hread := Device.readSlot_of_isStranger hstranger slot access
      have hbus := hkept (fun device => (device.readSlot master.device.id slot access).2)
        (by rw [hread])
      rw [← Bus.snd_readSlot] at hbus
      have hvalue := Bus.fst_readSlot master.device.id i slot access master.bus
      rw [hget] at hvalue
      simp only [hread, Device.publicSlot_of_three_le hgated] at hvalue
      split
      · next h => exact absurd (BusAddress.slot.inj h).1 hindex
      · next h =>
        cases h
        simp only [hvalue, hbus]
      · next h => cases h
    · have hwrite := Device.writeSlot_of_isStranger hstranger slot value
      have hslot : slot ≠ 2 := by
        rintro rfl
        have hthree : (3 : Slot) ≤ 2 := hgated
        exact absurd hthree (by decide)
      rw [if_neg (fun h => hslot h.1)] at hwrite
      have hbus := hkept (·.writeSlot master.device.id slot value) hwrite
      split
      · next h => exact absurd (BusAddress.slot.inj h).1 hindex
      · next h =>
        cases h
        simp only [Bus.writeSlot, hbus]
      · next h => cases h
  | block i offset =>
    rw [hword] at haddress
    have hi : i = index := haddress
    subst hi
    refine ⟨fun access => ?_, fun value => ?_⟩
    · simp only [Bus.readBlock, hget, Device.readBlock_of_isStranger hstranger]
    · have hbus := hkept (·.writeBlock master.device.id offset value)
        (Device.writeBlock_of_isStranger hstranger offset value)
      simp only [Bus.writeBlock, hbus]

end BusMaster

end MicroCisc
