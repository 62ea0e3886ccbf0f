import Mathlib.Algebra.Group.Nat.Defs
import MicroCisc.Proofs.Device.Connect
import MicroCisc.Proofs.Device.Noninterference

namespace MicroCisc

/-! ### Addresses -/

namespace BusAddress

-- Index times 16 and the slot, or index times 256 and the offset.
def toWord : BusAddress → Word
  | .slot index number => .ofNat (16 * index.toNat + number.val)
  | .block index offset => .ofNat (256 * index.toNat + offset.toNat)

-- Both ways to take an address apart, as quotients and remainders.
theorem ofWord_eq (address : Word) :
    ofWord address =
      if address.toNat < 4096 then .slot (.ofNat (address.toNat / 16)) (.ofNat (address.toNat % 16))
      else .block (.ofNat (address.toNat / 256)) (.ofNat (address.toNat % 256)) := by
  have hlow : (address &&& 0xF).toNat = address.toNat % 16 :=
    Nat.and_two_pow_sub_one_eq_mod address.toNat 4
  have hindex : (address >>> 4).toUInt8 = .ofNat (address.toNat / 16) := by
    simp only [← UInt8.toNat_inj, UInt8.toNat_ofNat', UInt16.toNat_toUInt8, UInt16.toNat_shiftRight,
      UInt16.reduceToNat, Nat.reduceMod, Nat.shiftRight_eq_div_pow, Nat.reducePow]
  have hblock : (address >>> 8).toUInt8 = .ofNat (address.toNat / 256) := by
    simp only [← UInt8.toNat_inj, UInt8.toNat_ofNat', UInt16.toNat_toUInt8, UInt16.toNat_shiftRight,
      UInt16.reduceToNat, Nat.reduceMod, Nat.shiftRight_eq_div_pow, Nat.reducePow]
  have hoffset : address.toUInt8 = .ofNat (address.toNat % 256) := by
    rw [← UInt8.toNat_inj, UInt8.toNat_ofNat', UInt16.toNat_toUInt8]
    exact (Nat.mod_mod _ _).symm
  rw [ofWord, hlow, hindex, hblock, hoffset]
  rfl

-- The slots of all indexes lie below block space.
theorem ofWord_toWord_slot (index : UInt8) (slot : Slot) :
    ofWord (toWord (.slot index slot)) = .slot index slot := by
  have hindex := index.toNat_lt
  have hslot := slot.isLt
  have hnat : (toWord (.slot index slot)).toNat = 16 * index.toNat + slot.val := by
    rw [toWord, UInt16.toNat_ofNat']
    omega
  have hquotient : (16 * index.toNat + slot.val) / 16 = index.toNat := by omega
  have hremainder : (16 * index.toNat + slot.val) % 16 = slot.val := by omega
  rw [ofWord_eq, hnat, if_pos (by omega), hquotient, hremainder, UInt8.ofNat_toNat]
  exact congrArg (BusAddress.slot index) (Fin.ofNat_val_eq_self slot)

theorem ofWord_toWord_block {index : UInt8} (hindex : 16 ≤ index) (offset : UInt8) :
    ofWord (toWord (.block index offset)) = .block index offset := by
  have hlt := index.toNat_lt
  have hoffset := offset.toNat_lt
  have hle : 16 ≤ index.toNat := hindex
  have hnat : (toWord (.block index offset)).toNat = 256 * index.toNat + offset.toNat := by
    rw [toWord, UInt16.toNat_ofNat']
    omega
  have hquotient : (256 * index.toNat + offset.toNat) / 256 = index.toNat := by omega
  have hremainder : (256 * index.toNat + offset.toNat) % 256 = offset.toNat := by omega
  rw [ofWord_eq, hnat, if_neg (by omega), hquotient, hremainder, UInt8.ofNat_toNat,
    UInt8.ofNat_toNat]

end BusAddress

/-! ### The array -/

-- What a master does with its bus: it selects a block of a memory and then reads or writes a word of
-- it, or it reads or writes some other address.
inductive BusUse where
  | readWord (block : Word) (offset : UInt8) (access : Access)
  | writeWord (block : Word) (offset : UInt8) (value : Word)
  | readOther (address : Word) (access : Access)
  | writeOther (address value : Word)
  deriving DecidableEq, Repr

-- Are the other addresses those of other indexes?
def BusUse.SparesIndex (index : UInt8) : BusUse → Prop
  | .readWord _ _ _ | .writeWord _ _ _ => True
  | .readOther address _ | .writeOther address _ => (BusAddress.ofWord address).index ≠ index

instance (index : UInt8) : (use : BusUse) → Decidable (use.SparesIndex index)
  | .readWord _ _ _ | .writeWord _ _ _ => inferInstanceAs (Decidable True)
  | .readOther _ _ | .writeOther _ _ => inferInstanceAs (Decidable (_ ≠ _))

-- An array of 2^w words, of which those below `romEnd` are never written.
structure FlatArray (w : Nat) where
  words : Vector Word (2 ^ w)
  romEnd : Nat

namespace FlatArray

variable {w : Nat}

-- Where a word of a block stands in the array, of which the blocks may go round several times.
def place (block : Word) (offset : UInt8) : Fin (2 ^ w) :=
  .ofNat _ (256 * block.toNat + offset.toNat)

def write (array : FlatArray w) (place : Fin (2 ^ w)) (value : Word) : FlatArray w :=
  if place.val < array.romEnd then array
  else { array with words := array.words.set place value }

theorem romEnd_write (array : FlatArray w) (place : Fin (2 ^ w)) (value : Word) :
    (array.write place value).romEnd = array.romEnd := by
  unfold write
  split <;> rfl

-- Accesses elsewhere have nothing to do with the array.
def use (array : FlatArray w) : BusUse → Option Word × FlatArray w
  | .readWord block offset _ => (some array.words[place (w := w) block offset], array)
  | .writeWord block offset value => (none, array.write (place block offset) value)
  | .readOther _ _ | .writeOther _ _ => (none, array)

def useAll (array : FlatArray w) : List BusUse → List (Option Word) × FlatArray w
  | [] => ([], array)
  | use :: rest =>
      let (answer, array) := array.use use
      let (answers, array) := array.useAll rest
      (answer :: answers, array)

-- The words of a memory of that size.
def ofMemory (memory : Memory) (hsize : memory.size = 2 ^ w) : FlatArray w :=
  ⟨⟨memory.words, hsize⟩, memory.romEnd⟩

-- Each word of the array stands in some block.
theorem exists_place_eq (hw : w ≤ 16) (place : Fin (2 ^ w)) :
    ∃ block offset, FlatArray.place block offset = place := by
  have hle : 2 ^ w ≤ 2 ^ 16 := Nat.pow_le_pow_right (by decide) hw
  have hplace := place.isLt
  have hparts : 256 * (place.val / 256 % 2 ^ 16) + place.val % 256 % 2 ^ 8 = place.val := by omega
  refine ⟨.ofNat (place.val / 256), .ofNat (place.val % 256), Fin.ext ?_⟩
  rw [FlatArray.place, Fin.val_ofNat, UInt16.toNat_ofNat', UInt8.toNat_ofNat', hparts,
    Nat.mod_eq_of_lt hplace]

end FlatArray

/-! ### Devices -/

namespace Device

variable {κ : Type}

-- The device with the words of an array in its memory and another block mapped.
def showing {w : Nat} (device : Device κ) (array : FlatArray w) (block : UInt8) : Device κ :=
  { device with
    memory := { device.memory with words := array.words.toArray }
    control := { device.control with mappedBlock := block } }

theorem writeSlot_mappedBlock [Behavior κ] {device : Device κ} {source : Word}
    (h : device.isController source = true) (block : Word) :
    device.writeSlot source 3 block =
      { device with control := { device.control with mappedBlock := block.low } } :=
  if_pos h

variable {w : Nat} {array : FlatArray w} {device : Device κ} {source : Word}

-- The words of an array, seen through the window.
theorem index_showing (hw : w ≤ 16) (block : Word) (offset : UInt8) :
    (device.showing array block.low).memory.index
        ((device.showing array block.low).blockAddress offset) =
      (FlatArray.place (w := w) block offset).val := by
  have hoffset := offset.toNat_lt
  have hdvd : 2 ^ w ∣ 2 ^ 16 := Nat.pow_dvd_pow 2 hw
  have hsize : (device.showing array block.low).memory.size = 2 ^ w :=
    array.words.size_toArray
  have haddress : ((device.showing array block.low).blockAddress offset).toNat =
      (256 * block.toNat + offset.toNat) % 2 ^ 16 := by
    rw [blockAddress, showing, Word.toNat_ofBytes, Word.toNat_low]
    omega
  rw [Memory.index, haddress, hsize, Nat.mod_mod_of_dvd _ hdvd, FlatArray.place, Fin.val_ofNat]

theorem readBlock_showing (hw : w ≤ 16) (block : Word) (offset : UInt8)
    (h : (device.showing array block.low).isController source = true) :
    (device.showing array block.low).readBlock source offset =
      array.words[FlatArray.place (w := w) block offset] := by
  have hlt := (FlatArray.place (w := w) block offset).isLt
  rw [readBlock, if_pos h, Memory.read, index_showing hw]
  simp [showing, hlt]

theorem writeBlock_showing (hw : w ≤ 16) (hrom : array.romEnd = device.memory.romEnd)
    (block : Word) (offset : UInt8) (value : Word)
    (h : (device.showing array block.low).isController source = true) :
    (device.showing array block.low).writeBlock source offset value =
      device.showing (array.write (FlatArray.place block offset) value) block.low := by
  have hlt := (FlatArray.place (w := w) block offset).isLt
  rw [writeBlock, if_pos h, writeLocal, Memory.write, index_showing hw, FlatArray.write]
  have hend : (device.showing array block.low).memory.romEnd = array.romEnd :=
    hrom.symm
  rw [hend]
  by_cases hbelow : (FlatArray.place (w := w) block offset).val < array.romEnd
  · rw [if_pos hbelow, if_neg (by omega)]
  · rw [if_neg hbelow, if_pos (by omega)]
    simp [showing, Array.setIfInBounds, hlt, hrom]

end Device

/-! ### Masters -/

namespace BusMaster

variable {κ : Type} [Behavior κ]

-- Maps a block of the memory at an index.
def selectBlock (master : BusMaster κ) (index : UInt8) (block : Word) : BusMaster κ :=
  master.write (BusAddress.toWord (.slot index 3)) block

-- The word that a use of the bus yields, if it reads one of the memory at an index, and what it leaves.
def use (master : BusMaster κ) (index : UInt8) : BusUse → Option Word × BusMaster κ
  | .readWord block offset access =>
      let address := BusAddress.toWord (.block index offset)
      let (word, master) := (master.selectBlock index block).read address access
      (some word, master)
  | .writeWord block offset value =>
      let address := BusAddress.toWord (.block index offset)
      (none, (master.selectBlock index block).write address value)
  | .readOther address access => (none, (master.read address access).2)
  | .writeOther address value => (none, master.write address value)

def useAll (master : BusMaster κ) (index : UInt8) : List BusUse → List (Option Word) × BusMaster κ
  | [] => ([], master)
  | use :: rest =>
      let (answer, master) := master.use index use
      let (answers, master) := master.useAll index rest
      (answer :: answers, master)

-- An access changes no device at another index.
theorem get?_read_of_ne (master : BusMaster κ) {address : Word} {index : UInt8}
    (h : (BusAddress.ofWord address).index ≠ index) (access : Access) :
    (master.read address access).2.bus.get? index = master.bus.get? index := by
  unfold read
  split
  · rfl
  · next i slot _ haddress =>
    have hne : index ≠ i := by
      rw [haddress] at h
      exact Ne.symm h
    simp only [Bus.snd_readSlot, Bus.get?_modify, if_neg hne]
  · rfl

theorem get?_write_of_ne (master : BusMaster κ) {address : Word} {index : UInt8}
    (h : (BusAddress.ofWord address).index ≠ index) (value : Word) :
    (master.write address value).bus.get? index = master.bus.get? index := by
  have hsame (device : Device Kind) :
      device.afterWrite master.device.id index address value = device := by
    unfold Device.afterWrite
    split
    · next haddress =>
      rw [haddress] at h
      exact if_neg fun hi => h hi.1
    · next haddress =>
      rw [haddress] at h
      exact if_neg h
  rw [bus_write, Bus.get?_afterWrite]
  cases master.bus.get? index with
  | none => rfl
  | some tree => exact congrArg some (DeviceTree.mapDevice_eq_self (hsame tree.device))

-- The master has claimed a device, which is halted, as every memory is.
structure Claimed (master : BusMaster κ) (device : Device Kind) : Prop where
  id : master.device.id ≠ 0
  owner : device.control.owner = master.device.id
  halted : device.halted = true

-- The memory at an index holds the words of the array, of which a block is mapped, and is otherwise as
-- it was in the beginning.
structure Shows {w : Nat} (master : BusMaster κ) (index : UInt8) (first : DeviceTree)
    (array : FlatArray w) (block : UInt8) : Prop where
  claimed : master.Claimed first.device
  romEnd : array.romEnd = first.device.memory.romEnd
  get? : master.bus.get? index = some (first.mapDevice (·.showing array block))

variable {master : BusMaster κ} {index : UInt8} {first : DeviceTree} {w : Nat} {array : FlatArray w}

omit [Behavior κ] in
theorem Claimed.of_id_eq {device : Device Kind} {other : BusMaster κ} (h : master.Claimed device)
    (hid : other.device.id = master.device.id) : other.Claimed device :=
  ⟨hid ▸ h.id, hid ▸ h.owner, h.halted⟩

omit [Behavior κ] in
theorem Claimed.isController {device : Device Kind} (h : master.Claimed device) (array : FlatArray w)
    (block : UInt8) : (device.showing array block).isController master.device.id = true := by
  simp [Device.isController, Device.showing, h.owner, h.halted, h.id]

namespace Shows

theorem selectBlock {shown : UInt8} (h : master.Shows index first array shown)
    (hindex : index ≠ 0) (block : Word) :
    (master.selectBlock index block).Shows index first array block.low := by
  have hcontroller := h.claimed.isController array shown
  have hmapped : ((first.device.showing array shown).afterWrite master.device.id index
      (BusAddress.toWord (.slot index 3)) block) =
      first.device.showing array block.low := by
    simp only [Device.afterWrite, BusAddress.ofWord_toWord_slot]
    rw [if_pos ⟨trivial, hindex⟩, Device.writeSlot_mappedBlock hcontroller]
    rfl
  refine ⟨h.claimed.of_id_eq (id_write _ _ _), h.romEnd, ?_⟩
  rw [BusMaster.selectBlock, bus_write, Bus.get?_afterWrite, h.get?, Option.map_some,
    DeviceTree.mapDevice_mapDevice]
  exact congrArg some (DeviceTree.mapDevice_congr hmapped)

theorem read {block : Word} (h : master.Shows index first array block.low) (hindex : 16 ≤ index)
    (hw : w ≤ 16) (offset : UInt8) (access : Access) :
    master.read (BusAddress.toWord (.block index offset)) access =
      (array.words[FlatArray.place (w := w) block offset], master) := by
  have hcontroller := h.claimed.isController array block.low
  have hword := Device.readBlock_showing hw block offset hcontroller
  simp only [BusMaster.read, BusAddress.ofWord_toWord_block hindex, Bus.readBlock, h.get?,
    DeviceTree.device_mapDevice, hword]

theorem write {block : Word} (h : master.Shows index first array block.low) (hindex : 16 ≤ index)
    (hw : w ≤ 16) (offset : UInt8) (value : Word) :
    (master.write (BusAddress.toWord (.block index offset)) value).Shows index first
      (array.write (FlatArray.place block offset) value) block.low := by
  have hcontroller := h.claimed.isController array block.low
  have hwritten : ((first.device.showing array block.low).afterWrite master.device.id
      index (BusAddress.toWord (.block index offset)) value) =
      first.device.showing (array.write (FlatArray.place block offset) value) block.low := by
    simp only [Device.afterWrite, BusAddress.ofWord_toWord_block hindex, if_true]
    exact Device.writeBlock_showing hw h.romEnd block offset value hcontroller
  refine ⟨h.claimed.of_id_eq (id_write _ _ _), ?_, ?_⟩
  · rw [FlatArray.romEnd_write]
    exact h.romEnd
  · rw [bus_write, Bus.get?_afterWrite, h.get?, Option.map_some, DeviceTree.mapDevice_mapDevice]
    exact congrArg some (DeviceTree.mapDevice_congr hwritten)

-- One use of the bus is one use of the array.
theorem use {shown : UInt8} (h : master.Shows index first array shown) (hindex : 16 ≤ index)
    (hw : w ≤ 16) {use : BusUse} (hspares : use.SparesIndex index) :
    (master.use index use).1 = (array.use use).1 ∧
      ∃ block, (master.use index use).2.Shows index first (array.use use).2 block := by
  have hne : index ≠ 0 := by
    rintro rfl
    exact absurd hindex (by decide)
  cases use with
  | readWord block offset access =>
    have hselected := h.selectBlock hne block
    have hread := hselected.read hindex hw offset access
    simp only [BusMaster.use, hread]
    exact ⟨rfl, block.low, hselected⟩
  | writeWord block offset value =>
    have hselected := h.selectBlock hne block
    exact ⟨rfl, block.low, hselected.write hindex hw offset value⟩
  | readOther address access =>
    have hget := get?_read_of_ne master hspares access
    exact ⟨rfl, shown, h.claimed.of_id_eq (id_read _ _ _), h.romEnd, hget.trans h.get?⟩
  | writeOther address value =>
    have hget := get?_write_of_ne master hspares value
    exact ⟨rfl, shown, h.claimed.of_id_eq (id_write _ _ _), h.romEnd, hget.trans h.get?⟩

theorem useAll {shown : UInt8} (h : master.Shows index first array shown) (hindex : 16 ≤ index)
    (hw : w ≤ 16) {uses : List BusUse} (hspares : ∀ use ∈ uses, use.SparesIndex index) :
    (master.useAll index uses).1 = (array.useAll uses).1 ∧
      ∃ block, (master.useAll index uses).2.Shows index first (array.useAll uses).2 block := by
  induction uses generalizing master array shown with
  | nil => exact ⟨rfl, shown, h⟩
  | cons use rest ih =>
    obtain ⟨hanswer, block, huse⟩ := h.use hindex hw (hspares use List.mem_cons_self)
    obtain ⟨hanswers, hrest⟩ := ih huse fun use huse => hspares use (List.mem_cons_of_mem _ huse)
    exact ⟨congrArg₂ List.cons hanswer hanswers, hrest⟩

end Shows

-- A memory of 2^w words at a bus index from 16 to 255 is, for the master that has claimed it, one flat
-- array with a ROM. Whatever the master does with its bus, as long as at that index it only maps blocks
-- to read or write words in them, it reads what the array would give and leaves in the memory what the
-- array would hold. Each word is in some block, and no access at another index touches the memory.
theorem window_is_flat_array {master : BusMaster κ} {index : UInt8} (hindex : 16 ≤ index)
    {tree : DeviceTree} (hget : master.bus.get? index = some tree)
    (hclaimed : master.Claimed tree.device) {w : Nat} (hw : w ≤ 16)
    (hsize : tree.device.memory.size = 2 ^ w) :
    (∀ uses : List BusUse, (∀ use ∈ uses, use.SparesIndex index) →
      let flat := (FlatArray.ofMemory tree.device.memory hsize).useAll uses
      (master.useAll index uses).1 = flat.1 ∧
        ∃ block, (master.useAll index uses).2.bus.get? index =
          some (tree.mapDevice (·.showing flat.2 block))) ∧
    (∀ place : Fin (2 ^ w), ∃ block offset, FlatArray.place block offset = place) ∧
    ∀ address, (BusAddress.ofWord address).index ≠ index →
      (∀ access, (master.read address access).2.bus.get? index = some tree) ∧
        ∀ value, (master.write address value).bus.get? index = some tree := by
  have hshows : master.Shows index tree (.ofMemory tree.device.memory hsize)
      tree.device.control.mappedBlock :=
    ⟨hclaimed, rfl, hget.trans (congrArg some (DeviceTree.mapDevice_eq_self rfl).symm)⟩
  refine ⟨fun uses hspares => ?_, FlatArray.exists_place_eq hw, fun address haddress =>
    ⟨fun access => ?_, fun value => ?_⟩⟩
  · obtain ⟨hanswers, block, hafter⟩ := hshows.useAll hindex hw hspares
    exact ⟨hanswers, block, hafter.get?⟩
  · rw [get?_read_of_ne master haddress access, hget]
  · rw [get?_write_of_ne master haddress value, hget]

-- In a memory of 256 words, of which the first is a ROM, block 3 is block 0 again.
theorem window_is_flat_array_wrapped :
    let memory : Memory := ⟨8, #[7] ++ .replicate 255 0, 1⟩
    let tree : DeviceTree := .leaf ⟨2, .memory, memory, ⟨16, 1, 0, 0, 0⟩, true⟩
    let master : BusMaster Registers :=
      ⟨⟨1, .initial, ⟨8, .replicate 256 0, 0⟩, .initial, false⟩, [(16, tree)]⟩
    let uses : List BusUse :=
      [.writeWord 3 0 9, .writeWord 5 2 8, .writeOther 0x0112 4, .readWord 0 0 .consume,
        .readWord 0x0100 2 .peek]
    master.bus.get? 16 = some tree ∧ master.Claimed tree.device ∧ memory.size = 2 ^ 8 ∧
      (∀ use ∈ uses, use.SparesIndex 16) ∧
      (master.useAll 16 uses).1 = [none, none, none, some 7, some 8] := by
  intro memory tree master uses
  have hget : master.bus.get? 16 = some tree := rfl
  have hclaimed : master.Claimed tree.device := ⟨by decide, rfl, rfl⟩
  have hsize : memory.size = 2 ^ 8 := by simp [memory, Memory.size]
  have hspares : ∀ use ∈ uses, use.SparesIndex 16 := by
    simp only [uses]
    decide
  obtain ⟨hflat, -, -⟩ := window_is_flat_array (by decide) hget hclaimed (by decide) hsize
  have hanswers := (hflat uses hspares).1
  refine ⟨hget, hclaimed, hsize, hspares, hanswers.trans ?_⟩
  simp [uses, tree, memory, DeviceTree.leaf, DeviceTree.device, FlatArray.ofMemory,
    FlatArray.useAll, FlatArray.use, FlatArray.write, FlatArray.place]

end BusMaster

end MicroCisc
