import MicroCisc.Device.Basic

namespace MicroCisc

inductive DeviceTree where
  | node (device : Device Kind) (bus : List (UInt8 × DeviceTree))

abbrev Bus := List (UInt8 × DeviceTree)

structure BusMaster (κ : Type) where
  device : Device κ
  bus : Bus

inductive BusAddress where
  | slot (index : UInt8) (slot : Slot)
  | block (index : UInt8) (offset : UInt8)
  deriving DecidableEq, Repr

-- A slot address is a bus index, 0 for the master itself, above the number of the slot. A block address
-- is a bus index above an offset.
def BusAddress.ofWord (address : Word) : BusAddress :=
  if address < 0x1000 then .slot (address >>> 4).toUInt8 (.ofNat (address &&& 0xF).toNat)
  else .block (address >>> 8).toUInt8 address.toUInt8

namespace DeviceTree

def leaf (device : Device Kind) : DeviceTree :=
  .node device []

def device : DeviceTree → Device Kind
  | .node device _ => device

def bus : DeviceTree → Bus
  | .node _ bus => bus

def master : DeviceTree → BusMaster Kind
  | .node device bus => ⟨device, bus⟩

def mapDevice (f : Device Kind → Device Kind) : DeviceTree → DeviceTree
  | .node device bus => .node (f device) bus

end DeviceTree

namespace Bus

def get? (bus : Bus) (index : UInt8) : Option DeviceTree :=
  bus.lookup index

def indexes (bus : Bus) : List UInt8 :=
  bus.map (·.1)

def modify (f : DeviceTree → DeviceTree) (index : UInt8) : Bus → Bus
  | [] => []
  | (i, tree) :: rest =>
      if i == index then (i, f tree) :: rest else (i, tree) :: modify f index rest

def insert (index : UInt8) (tree : DeviceTree) : Bus → Bus
  | [] => [(index, tree)]
  | (i, other) :: rest =>
      if index < i then (index, tree) :: (i, other) :: rest
      else (i, other) :: insert index tree rest

def readSlot (source : Word) (index : UInt8) (slot : Slot) (access : Access) : Bus → Word × Bus
  | [] => (0, [])
  | (i, .node device bus) :: rest =>
      if i == index then
        let (value, device) := device.readSlot source slot access
        (value, (i, .node device bus) :: rest)
      else
        let (value, rest) := readSlot source index slot access rest
        (value, (i, .node device bus) :: rest)

def writeSlot (bus : Bus) (source : Word) (index : UInt8) (slot : Slot) (value : Word) : Bus :=
  bus.modify (.mapDevice (·.writeSlot source slot value)) index

def readBlock (bus : Bus) (source : Word) (index offset : UInt8) : Word :=
  match bus.get? index with
  | some tree => tree.device.readBlock source offset
  | none => 0

def writeBlock (bus : Bus) (source : Word) (index offset : UInt8) (value : Word) : Bus :=
  bus.modify (.mapDevice (·.writeBlock source offset value)) index

theorem get?_modify (f : DeviceTree → DeviceTree) (index other : UInt8) (bus : Bus) :
    (Bus.modify f index bus).get? other =
      if other = index then (bus.get? other).map f else bus.get? other := by
  induction bus with
  | nil => simp [modify, get?]
  | cons first rest ih =>
    obtain ⟨i, tree⟩ := first
    simp only [modify, get?, beq_iff_eq] at ih ⊢
    split
    · next h =>
      subst h
      by_cases hother : other = i
      · simp [hother]
      · simp [hother, List.lookup_cons, beq_false_of_ne hother]
    · next h =>
      by_cases hother : other = i
      · subst hother
        simp [h]
      · simpa [List.lookup_cons, beq_false_of_ne hother] using ih

theorem get?_insert (tree : DeviceTree) (index other : UInt8) (bus : Bus)
    (hfree : bus.get? index = none) :
    (Bus.insert index tree bus).get? other =
      if other = index then some tree else bus.get? other := by
  induction bus with
  | nil =>
    simp only [insert, get?, List.lookup_cons, List.lookup_nil]
    split <;> simp_all
  | cons first rest ih =>
    obtain ⟨i, taken⟩ := first
    have hne : index ≠ i := by
      rintro rfl
      simp [get?] at hfree
    simp only [get?, List.lookup_cons, beq_false_of_ne hne] at hfree
    simp only [insert]
    split
    · simp only [get?, List.lookup_cons]
      split <;> simp_all
    · by_cases hother : other = i
      · subst hother
        simp [get?, Ne.symm hne]
      · simpa [get?, List.lookup_cons, beq_false_of_ne hother] using ih hfree

end Bus

mutual

def DeviceTree.ids : DeviceTree → List Word
  | .node device bus => device.id :: Bus.ids bus

def Bus.ids : Bus → List Word
  | [] => []
  | (_, tree) :: rest => tree.ids ++ Bus.ids rest

end

mutual

def DeviceTree.tick (nanos : Nat) : DeviceTree → DeviceTree
  | .node device bus => .node (device.tick nanos) (Bus.tick nanos bus)

def Bus.tick (nanos : Nat) : Bus → Bus
  | [] => []
  | (index, tree) :: rest => (index, tree.tick nanos) :: Bus.tick nanos rest

end

namespace BusMaster

variable {κ : Type}

def ids (master : BusMaster κ) : List Word :=
  master.device.id :: master.bus.ids

def read [Behavior κ] (master : BusMaster κ) (address : Word) (access : Access) :
    Word × BusMaster κ :=
  let source := master.device.id
  match BusAddress.ofWord address with
  | .slot 0 slot =>
      let (value, device) := master.device.readSlot source slot access
      (value, { master with device })
  | .slot index slot =>
      let (value, bus) := master.bus.readSlot source index slot access
      (value, { master with bus })
  | .block index offset => (master.bus.readBlock source index offset, master)

def write [Behavior κ] (master : BusMaster κ) (address value : Word) : BusMaster κ :=
  let source := master.device.id
  match BusAddress.ofWord address with
  | .slot 0 slot => { master with device := master.device.writeSlot source slot value }
  | .slot index slot => { master with bus := master.bus.writeSlot source index slot value }
  | .block index offset => { master with bus := master.bus.writeBlock source index offset value }

-- Connects a tree to the master's bus. Of the ids that the tree brings and the master already has,
-- the first is reported.
def connect (master : BusMaster κ) (index : UInt8) (tree : DeviceTree) :
    Except DeviceError (BusMaster κ) :=
  if index == 0 then .error .reservedIndex
  else if (master.bus.get? index).isSome then .error (.indexInUse index)
  else match tree.ids.find? (master.ids.contains ·) with
    | some id => .error (.duplicateId id)
    | none =>
        let connected := tree.mapDevice fun device =>
          { device with control := { device.control with busIndex := index } }
        .ok { master with bus := master.bus.insert index connected }

def tick [Behavior κ] (master : BusMaster κ) (nanos : Nat) : BusMaster κ :=
  { device := master.device.tick nanos, bus := Bus.tick nanos master.bus }

def describe [Behavior κ] (master : BusMaster κ) : String :=
  let device := master.device
  let connected := ", ".intercalate (master.bus.indexes.map toString)
  s!"Device \x7b id: {device.id}, type: {device.type.name}, "
    ++ s!"init_device: {device.control.owner}, halted: {device.halted}, "
    ++ s!"memory: {device.memory.describe}, connected: [{connected}] \x7d"

end BusMaster

def BusMaster.toTree (master : BusMaster Kind) : DeviceTree :=
  .node master.device master.bus

abbrev Part := UInt8 × Except DeviceError DeviceTree

-- Connects parts one after another. The first fault counts, of a part or of its connection.
def BusMaster.connectAll {κ : Type} (master : BusMaster κ) (parts : List Part) :
    Except DeviceError (BusMaster κ) :=
  parts.foldlM (fun master (index, tree) => do master.connect index (← tree)) master

def DeviceTree.assemble (id : Word) (kind : Kind) (width : UInt8) (parts : List Part) :
    Except DeviceError DeviceTree := do
  let device ← Device.ofKind id kind width
  let master ← BusMaster.connectAll ⟨device, []⟩ parts
  return master.toTree

end MicroCisc
