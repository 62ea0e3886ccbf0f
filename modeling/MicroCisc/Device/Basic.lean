import MicroCisc.Device.Kind

namespace MicroCisc

structure Control where
  -- The index on the bus that the device is connected to, or 0.
  busIndex : UInt8
  -- The id of the device that has claimed this one, or 0.
  owner : Word
  mappedBlock : UInt8
  status : UInt8
  interruptHandler : Word
  deriving DecidableEq, Repr

def Control.initial : Control :=
  ⟨0, 0, 0, 0, 0⟩

structure Device (κ : Type) where
  id : Word
  kind : κ
  memory : Memory
  control : Control
  halted : Bool
  deriving DecidableEq, Repr

namespace Device

variable {κ : Type}

-- A device comes out of a reset halted. Its id is looked at before the width of its memory.
def ofKind (id : Word) (kind : κ) (width : UInt8) : Except DeviceError (Device κ) :=
  if id == 0 then .error .reservedId
  else (Memory.ofWidth width).map fun memory =>
    { id, kind, memory, control := .initial, halted := true }

def type [Behavior κ] (device : Device κ) : DeviceType :=
  Behavior.type device.kind

-- Only a device that runs code can leave the halted state.
def setHalted [Behavior κ] (device : Device κ) (halted : Bool) : Device κ :=
  if Behavior.runsCode device.kind then { device with halted } else device

def setInterruptHandler (device : Device κ) (address : Word) : Device κ :=
  { device with control := { device.control with interruptHandler := address } }

def isController (device : Device κ) (source : Word) : Bool :=
  source == device.id
    || (device.control.owner != 0 && source == device.control.owner && device.halted)

def readGatedSlot [Behavior κ] (device : Device κ) (slot : Slot) (access : Access) :
    Word × Device κ :=
  match slot with
  | 3 => (device.control.mappedBlock.toUInt16, device)
  | 4 => (device.control.status.toUInt16, device)
  | 5 => (device.control.interruptHandler, device)
  | _ =>
      let (value, kind) := Behavior.readSlot device.kind device.memory slot access
      (value, { device with kind })

def readSlot [Behavior κ] (device : Device κ) (source : Word) (slot : Slot) (access : Access) :
    Word × Device κ :=
  match slot with
  | 0 => (device.id, device)
  | 1 => (.ofBytes device.control.busIndex device.type.code, device)
  | 2 => (device.control.owner, device)
  | slot => if device.isController source then device.readGatedSlot slot access else (0, device)

def setOwner (device : Device κ) (owner : Word) : Device κ :=
  { device with control := { device.control with owner } }

-- A controller hands the device over to any id. Anyone else can only claim it, while it is free.
def claim (device : Device κ) (source value : Word) : Device κ :=
  if device.isController source then device.setOwner value
  else if device.control.owner == 0 then device.setOwner source
  else device

def writeGatedSlot [Behavior κ] (device : Device κ) (slot : Slot) (value : Word) : Device κ :=
  match slot with
  | 3 => { device with control := { device.control with mappedBlock := value.low } }
  | 4 => { device with control := { device.control with status := value.low } }
  | 5 => device.setInterruptHandler value
  | _ => { device with kind := Behavior.writeSlot device.kind slot value }

def writeSlot [Behavior κ] (device : Device κ) (source : Word) (slot : Slot) (value : Word) :
    Device κ :=
  match slot with
  | 0 | 1 => device
  | 2 => device.claim source value
  | slot => if device.isController source then device.writeGatedSlot slot value else device

def blockAddress (device : Device κ) (offset : UInt8) : Word :=
  .ofBytes device.control.mappedBlock offset

def readBlock (device : Device κ) (source : Word) (offset : UInt8) : Word :=
  if device.isController source then device.memory.read (device.blockAddress offset) else 0

def writeLocal (device : Device κ) (address value : Word) : Device κ :=
  { device with memory := device.memory.write address value }

def writeBlock (device : Device κ) (source : Word) (offset : UInt8) (value : Word) : Device κ :=
  if device.isController source then device.writeLocal (device.blockAddress offset) value
  else device

def tick [Behavior κ] (device : Device κ) (nanos : Nat) : Device κ :=
  { device with kind := Behavior.tick device.kind device.memory nanos }

def load (device : Device κ) (loader : Memory → Memory.LoadResult) :
    Device κ × Option DeviceError :=
  let (memory, error) := loader device.memory
  ({ device with memory }, error)

end Device

end MicroCisc
