import MicroCisc.Device.Bus
import MicroCisc.Proofs.Faults.Serial
import MicroCisc.Proofs.Faults.Storage

namespace MicroCisc

-- Kinds whose slots are read and written by operations that could fail, but never do.
class CheckedBehavior (κ : Type) [Behavior κ] where
  readSlot : κ → Memory → Slot → Access → Checked (Word × κ)
  writeSlot : κ → Slot → Word → Checked κ
  readSlot_eq : ∀ kind memory slot access,
    readSlot kind memory slot access = pure (Behavior.readSlot kind memory slot access)
  writeSlot_eq : ∀ kind slot value, writeSlot kind slot value = pure (Behavior.writeSlot kind slot value)

instance : CheckedBehavior Registers where
  readSlot regs memory slot _ := return (← regs.checkedReadSlot memory slot, regs)
  writeSlot := Registers.checkedWriteSlot
  readSlot_eq regs memory slot access := by
    rw [regs.checkedReadSlot_eq, pure_bind]
    rfl
  writeSlot_eq := Registers.checkedWriteSlot_eq

namespace Kind

-- Terminals and LEDs only show words and take them.
def checkedReadSlot (kind : Kind) (memory : Memory) (slot : Slot) (access : Access) :
    Checked (Word × Kind) :=
  match kind with
  | .processor regs => return (← regs.checkedReadSlot memory slot, .processor regs)
  | .serial line => do
      let (value, line) ← line.checkedReadSlot slot access
      return (value, .serial line)
  | kind => return kind.readSlot memory slot access

def checkedWriteSlot (kind : Kind) (slot : Slot) (value : Word) : Checked Kind :=
  match kind with
  | .processor regs => return .processor (← regs.checkedWriteSlot slot value)
  | .serial line => return .serial (← line.checkedWriteSlot slot value)
  | kind => return kind.writeSlot slot value

end Kind

instance : CheckedBehavior Kind where
  readSlot := Kind.checkedReadSlot
  writeSlot := Kind.checkedWriteSlot
  readSlot_eq kind memory slot access := by
    cases kind with
    | processor regs =>
      rw [Kind.checkedReadSlot, regs.checkedReadSlot_eq, pure_bind]
      rfl
    | serial line =>
      rw [Kind.checkedReadSlot, line.checkedReadSlot_eq, pure_bind]
      rfl
    | memory | terminal display | leds bank => rfl
  writeSlot_eq kind slot value := by
    cases kind with
    | processor regs =>
      rw [Kind.checkedWriteSlot, regs.checkedWriteSlot_eq, pure_bind]
      rfl
    | serial line =>
      rw [Kind.checkedWriteSlot, line.checkedWriteSlot_eq, pure_bind]
      rfl
    | memory | terminal display | leds bank => rfl

namespace Device

section Slots

variable {κ : Type} [Behavior κ] [CheckedBehavior κ]

-- The slots that are the same for every device hold its control words.
def checkedReadSlot (device : Device κ) (source : Word) (slot : Slot) (access : Access) :
    Checked (Word × Device κ) :=
  if 6 ≤ slot.val ∧ device.isController source then do
    let (value, kind) ← CheckedBehavior.readSlot device.kind device.memory slot access
    return (value, { device with kind })
  else return device.readSlot source slot access

def checkedWriteSlot (device : Device κ) (source : Word) (slot : Slot) (value : Word) :
    Checked (Device κ) :=
  if 6 ≤ slot.val ∧ device.isController source then do
    let kind ← CheckedBehavior.writeSlot device.kind slot value
    return { device with kind }
  else return device.writeSlot source slot value

variable (device : Device κ) (source : Word) (slot : Slot)

omit [CheckedBehavior κ] in
-- To a controller the slots from 6 on are those of the kind.
theorem readSlot_of_le (hslot : 6 ≤ slot.val) (hsource : device.isController source = true)
    (access : Access) :
    device.readSlot source slot access =
      ((Behavior.readSlot device.kind device.memory slot access).1,
        { device with kind := (Behavior.readSlot device.kind device.memory slot access).2 }) := by
  unfold readSlot
  split
  iterate 3 exact absurd hslot (by decide)
  rw [if_pos hsource]
  unfold readGatedSlot
  split
  iterate 3 exact absurd hslot (by decide)
  rfl

omit [CheckedBehavior κ] in
theorem writeSlot_of_le (hslot : 6 ≤ slot.val) (hsource : device.isController source = true)
    (value : Word) :
    device.writeSlot source slot value =
      { device with kind := Behavior.writeSlot device.kind slot value } := by
  unfold writeSlot
  split
  iterate 3 exact absurd hslot (by decide)
  rw [if_pos hsource]
  unfold writeGatedSlot
  split
  iterate 3 exact absurd hslot (by decide)
  rfl

theorem checkedReadSlot_eq (access : Access) :
    device.checkedReadSlot source slot access = pure (device.readSlot source slot access) := by
  unfold checkedReadSlot
  split
  · next h =>
    rw [CheckedBehavior.readSlot_eq, pure_bind, device.readSlot_of_le source slot h.1 h.2]
  · rfl

theorem checkedWriteSlot_eq (value : Word) :
    device.checkedWriteSlot source slot value = pure (device.writeSlot source slot value) := by
  unfold checkedWriteSlot
  split
  · next h =>
    rw [CheckedBehavior.writeSlot_eq, pure_bind, device.writeSlot_of_le source slot h.1 h.2]
  · rfl

end Slots

variable {κ : Type}

def checkedReadBlock (device : Device κ) (source : Word) (offset : UInt8) : Checked Word :=
  if device.isController source then device.memory.checkedRead (device.blockAddress offset)
  else return 0

def checkedWriteLocal (device : Device κ) (address value : Word) : Checked (Device κ) :=
  return { device with memory := ← device.memory.checkedWrite address value }

def checkedWriteBlock (device : Device κ) (source : Word) (offset : UInt8) (value : Word) :
    Checked (Device κ) :=
  if device.isController source then device.checkedWriteLocal (device.blockAddress offset) value
  else return device

variable (device : Device κ)

theorem checkedReadBlock_eq (source : Word) (offset : UInt8) :
    device.checkedReadBlock source offset = pure (device.readBlock source offset) := by
  rw [checkedReadBlock, Memory.checkedRead_eq]
  exact (apply_ite pure _ _ _).symm

theorem checkedWriteLocal_eq (address value : Word) :
    device.checkedWriteLocal address value = pure (device.writeLocal address value) := by
  rw [checkedWriteLocal, Memory.checkedWrite_eq, pure_bind]
  rfl

theorem checkedWriteBlock_eq (source : Word) (offset : UInt8) (value : Word) :
    device.checkedWriteBlock source offset value = pure (device.writeBlock source offset value) := by
  rw [checkedWriteBlock, checkedWriteLocal_eq]
  exact (apply_ite pure _ _ _).symm

end Device

/-! ### The bus -/

namespace Bus

def checkedReadSlot (source : Word) (index : UInt8) (slot : Slot) (access : Access) :
    Bus → Checked (Word × Bus)
  | [] => return (0, [])
  | (i, .node device bus) :: rest =>
      if i == index then do
        let (value, device) ← device.checkedReadSlot source slot access
        return (value, (i, .node device bus) :: rest)
      else do
        let (value, rest) ← checkedReadSlot source index slot access rest
        return (value, (i, .node device bus) :: rest)

def checkedReadBlock (bus : Bus) (source : Word) (index offset : UInt8) : Checked Word :=
  match bus.get? index with
  | some tree => tree.device.checkedReadBlock source offset
  | none => return 0

-- Changes the device at an index, if there is one.
def checkedModify (f : Device Kind → Checked (Device Kind)) (index : UInt8) : Bus → Checked Bus
  | [] => return []
  | (i, .node device bus) :: rest =>
      if i == index then return (i, .node (← f device) bus) :: rest
      else return (i, .node device bus) :: (← checkedModify f index rest)

def checkedWriteSlot (bus : Bus) (source : Word) (index : UInt8) (slot : Slot) (value : Word) :
    Checked Bus :=
  bus.checkedModify (·.checkedWriteSlot source slot value) index

def checkedWriteBlock (bus : Bus) (source : Word) (index offset : UInt8) (value : Word) :
    Checked Bus :=
  bus.checkedModify (·.checkedWriteBlock source offset value) index

theorem checkedReadSlot_eq (source : Word) (index : UInt8) (slot : Slot) (access : Access)
    (bus : Bus) :
    Bus.checkedReadSlot source index slot access bus =
      pure (Bus.readSlot source index slot access bus) := by
  induction bus with
  | nil => rfl
  | cons first rest ih =>
    obtain ⟨i, ⟨device, below⟩⟩ := first
    rw [checkedReadSlot, readSlot]
    split
    · rw [device.checkedReadSlot_eq, pure_bind]
    · rw [ih, pure_bind]

theorem checkedReadBlock_eq (bus : Bus) (source : Word) (index offset : UInt8) :
    bus.checkedReadBlock source index offset = pure (bus.readBlock source index offset) := by
  unfold checkedReadBlock readBlock
  cases bus.get? index with
  | none => rfl
  | some tree => exact tree.device.checkedReadBlock_eq source offset

theorem checkedModify_eq {f : Device Kind → Checked (Device Kind)} {g : Device Kind → Device Kind}
    (hf : ∀ device, f device = pure (g device)) (index : UInt8) (bus : Bus) :
    Bus.checkedModify f index bus = pure (Bus.modify (.mapDevice g) index bus) := by
  induction bus with
  | nil => rfl
  | cons first rest ih =>
    obtain ⟨i, ⟨device, below⟩⟩ := first
    rw [checkedModify, modify]
    split
    · rw [hf, pure_bind]
      rfl
    · rw [ih, pure_bind]

theorem checkedWriteSlot_eq (bus : Bus) (source : Word) (index : UInt8) (slot : Slot)
    (value : Word) :
    bus.checkedWriteSlot source index slot value = pure (bus.writeSlot source index slot value) :=
  bus.checkedModify_eq (fun device => device.checkedWriteSlot_eq source slot value) index

theorem checkedWriteBlock_eq (bus : Bus) (source : Word) (index offset : UInt8) (value : Word) :
    bus.checkedWriteBlock source index offset value =
      pure (bus.writeBlock source index offset value) :=
  bus.checkedModify_eq (fun device => device.checkedWriteBlock_eq source offset value) index

end Bus

namespace BusMaster

variable {κ : Type} [Behavior κ] [CheckedBehavior κ]

def checkedRead (master : BusMaster κ) (address : Word) (access : Access) :
    Checked (Word × BusMaster κ) :=
  let source := master.device.id
  match BusAddress.ofWord address with
  | .slot 0 slot => do
      let (value, device) ← master.device.checkedReadSlot source slot access
      return (value, { master with device })
  | .slot index slot => do
      let (value, bus) ← master.bus.checkedReadSlot source index slot access
      return (value, { master with bus })
  | .block index offset => return (← master.bus.checkedReadBlock source index offset, master)

def checkedWrite (master : BusMaster κ) (address value : Word) : Checked (BusMaster κ) :=
  let source := master.device.id
  match BusAddress.ofWord address with
  | .slot 0 slot => return { master with device := ← master.device.checkedWriteSlot source slot value }
  | .slot index slot =>
      return { master with bus := ← master.bus.checkedWriteSlot source index slot value }
  | .block index offset =>
      return { master with bus := ← master.bus.checkedWriteBlock source index offset value }

variable (master : BusMaster κ) (address : Word)

theorem checkedRead_eq (access : Access) :
    master.checkedRead address access = pure (master.read address access) := by
  unfold checkedRead read
  simp only [Device.checkedReadSlot_eq, Bus.checkedReadSlot_eq, Bus.checkedReadBlock_eq, pure_bind]
  split <;> simp_all

theorem checkedWrite_eq (value : Word) :
    master.checkedWrite address value = pure (master.write address value) := by
  unfold checkedWrite write
  simp only [Device.checkedWriteSlot_eq, Bus.checkedWriteSlot_eq, Bus.checkedWriteBlock_eq, pure_bind]
  split <;> simp_all

end BusMaster

end MicroCisc
