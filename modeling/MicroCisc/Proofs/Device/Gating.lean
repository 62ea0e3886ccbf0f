import MicroCisc.Device.Bus

namespace MicroCisc

namespace Device

variable {κ : Type}

-- Neither the device itself nor, while the device is halted, the one that has claimed it.
def IsStranger (device : Device κ) (source : Word) : Prop :=
  source ≠ device.id ∧
    ¬(device.control.owner ≠ 0 ∧ source = device.control.owner ∧ device.halted = true)

instance (device : Device κ) (source : Word) : Decidable (device.IsStranger source) :=
  inferInstanceAs (Decidable (_ ∧ _))

-- What anyone may read in a slot: 0 from the third on.
def publicSlot [Behavior κ] (device : Device κ) : Slot → Word
  | 0 => device.id
  | 1 => .ofBytes device.control.busIndex device.type.code
  | 2 => device.control.owner
  | _ => 0

variable (device : Device κ)

theorem isController_eq_false_iff (source : Word) :
    device.isController source = false ↔ device.IsStranger source := by
  simp only [isController, IsStranger, Bool.or_eq_false_iff, beq_eq_false_iff_ne,
    Bool.and_eq_false_iff, bne_eq_false_iff_eq]
  grind

@[simp] theorem owner_setOwner (owner : Word) : (device.setOwner owner).control.owner = owner :=
  rfl

@[simp] theorem setOwner_owner : device.setOwner device.control.owner = device :=
  rfl

variable {device} [Behavior κ] {source : Word}

theorem publicSlot_of_three_le {slot : Slot} (h : 3 ≤ slot) : device.publicSlot slot = 0 := by
  unfold publicSlot
  split
  · exact absurd h (by decide)
  · exact absurd h (by decide)
  · exact absurd h (by decide)
  · rfl

theorem readSlot_of_isStranger (h : device.IsStranger source) (slot : Slot) (access : Access) :
    device.readSlot source slot access = (device.publicSlot slot, device) := by
  rw [← isController_eq_false_iff] at h
  unfold readSlot publicSlot
  split <;> simp_all

omit [Behavior κ] in
theorem claim_of_isStranger (h : device.IsStranger source) (value : Word) :
    device.claim source value =
      if device.control.owner = 0 then device.setOwner source else device := by
  rw [← isController_eq_false_iff] at h
  simp [claim, h]

theorem writeSlot_of_isStranger (h : device.IsStranger source) (slot : Slot) (value : Word) :
    device.writeSlot source slot value =
      if slot = 2 ∧ device.control.owner = 0 then device.setOwner source else device := by
  by_cases hslot : slot = 2
  · subst hslot
    simp only [true_and]
    exact claim_of_isStranger h value
  · rw [← isController_eq_false_iff] at h
    unfold writeSlot
    split <;> simp_all

omit [Behavior κ] in
theorem readBlock_of_isStranger (h : device.IsStranger source) (offset : UInt8) :
    device.readBlock source offset = 0 := by
  rw [← isController_eq_false_iff] at h
  simp [readBlock, h]

omit [Behavior κ] in
theorem writeBlock_of_isStranger (h : device.IsStranger source) (offset : UInt8) (value : Word) :
    device.writeBlock source offset value = device := by
  rw [← isController_eq_false_iff] at h
  simp [writeBlock, h]

-- A read changes nothing but the state of the kind.
theorem readSlot_eq (device : Device κ) (source : Word) (slot : Slot) (access : Access) :
    ∃ kind, (device.readSlot source slot access).2 = { device with kind } := by
  unfold readSlot
  split
  · exact ⟨_, rfl⟩
  · exact ⟨_, rfl⟩
  · exact ⟨_, rfl⟩
  · split
    · unfold readGatedSlot
      split <;> exact ⟨_, rfl⟩
    · exact ⟨_, rfl⟩

-- A write to a slot never changes the identity of a device, its memory or whether it is halted.
theorem writeSlot_eq (device : Device κ) (source : Word) (slot : Slot) (value : Word) :
    ∃ kind control, device.writeSlot source slot value = { device with kind, control } := by
  unfold writeSlot
  split
  · exact ⟨_, _, rfl⟩
  · exact ⟨_, _, rfl⟩
  · unfold claim
    split
    · exact ⟨_, _, rfl⟩
    · split <;> exact ⟨_, _, rfl⟩
  · split
    · unfold writeGatedSlot
      split <;> exact ⟨_, _, rfl⟩
    · exact ⟨_, _, rfl⟩

omit [Behavior κ] in
theorem writeBlock_eq (device : Device κ) (source : Word) (offset : UInt8) (value : Word) :
    ∃ memory, device.writeBlock source offset value = { device with memory } := by
  unfold writeBlock
  split <;> exact ⟨_, rfl⟩

-- A controller hands the device over through slot 2, and through no other.
theorem owner_writeSlot_of_isController (h : device.isController source = true) (slot : Slot)
    (value : Word) :
    (device.writeSlot source slot value).control.owner =
      if slot = 2 then value else device.control.owner := by
  unfold writeSlot
  split
  · rfl
  · rfl
  · simp [claim, h]
  · simp only [h, if_true]
    unfold writeGatedSlot
    split <;> simp_all [setInterruptHandler]

end Device

end MicroCisc
