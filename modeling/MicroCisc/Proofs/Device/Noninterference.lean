import MicroCisc.Proofs.Device.Gating

namespace MicroCisc

namespace Device

-- A use of a device by some source.
inductive Call where
  | readSlot (source : Word) (slot : Slot) (access : Access)
  | writeSlot (source : Word) (slot : Slot) (value : Word)
  | readBlock (source : Word) (offset : UInt8)
  | writeBlock (source : Word) (offset : UInt8) (value : Word)
  deriving DecidableEq, Repr

namespace Call

def source : Call → Word
  | .readSlot source _ _ | .writeSlot source _ _ | .readBlock source _
  | .writeBlock source _ _ => source

-- The source of a write to slot 2.
def claimant? : Call → Option Word
  | .writeSlot source 2 _ => some source
  | _ => none

end Call

variable {κ κ' : Type} [Behavior κ] [Behavior κ']

-- What a call reads, if it is a read, and the device after it.
def answer (device : Device κ) : Call → Option Word × Device κ
  | .readSlot source slot access =>
      let (value, device) := device.readSlot source slot access
      (some value, device)
  | .writeSlot source slot value => (none, device.writeSlot source slot value)
  | .readBlock source offset => (some (device.readBlock source offset), device)
  | .writeBlock source offset value => (none, device.writeBlock source offset value)

-- What a call by a stranger reads.
def publicAnswer (device : Device κ) : Call → Option Word
  | .readSlot _ slot _ => some (device.publicSlot slot)
  | .readBlock _ _ => some 0
  | .writeSlot _ _ _ | .writeBlock _ _ _ => none

-- Two devices, of whatever kinds, that look the same to strangers.
structure SameFace (left : Device κ) (right : Device κ') : Prop where
  id : left.id = right.id
  type : left.type = right.type
  busIndex : left.control.busIndex = right.control.busIndex
  owner : left.control.owner = right.control.owner
  halted : left.halted = right.halted

-- The owner after a call by a stranger: a device without one can be claimed.
def ownerAfter (owner : Word) (call : Call) : Word :=
  if owner = 0 then call.claimant?.getD 0 else owner

-- The owner after any number of them. Id 0 claims nothing, and the first other one everything.
def ownerAfterAll (owner : Word) (calls : List Call) : Word :=
  if owner = 0 then ((calls.filterMap Call.claimant?).find? (· ≠ 0)).getD 0 else owner

theorem ownerAfterAll_cons (owner : Word) (call : Call) (rest : List Call) :
    ownerAfterAll owner (call :: rest) = ownerAfterAll (ownerAfter owner call) rest := by
  unfold ownerAfterAll ownerAfter
  by_cases howner : owner = 0
  · simp only [howner, if_true, List.filterMap_cons]
    cases call.claimant? with
    | none => simp
    | some source =>
      by_cases hsource : source = 0 <;> simp [hsource]
  · simp [howner]

theorem answer_of_isStranger {device : Device κ} {call : Call}
    (h : device.IsStranger call.source) :
    device.answer call =
      (device.publicAnswer call, device.setOwner (ownerAfter device.control.owner call)) := by
  have hkept : call.claimant? = none →
      device.setOwner (ownerAfter device.control.owner call) = device := by
    intro hnone
    have howner : ownerAfter device.control.owner call = device.control.owner := by
      simp only [ownerAfter, hnone, Option.getD_none]
      split <;> simp_all
    rw [howner, setOwner_owner]
  cases call with
  | readSlot source slot access =>
    have hsource : device.IsStranger source := h
    have hread := readSlot_of_isStranger hsource slot access
    simp only [answer, publicAnswer, hread, hkept rfl]
  | writeSlot source slot value =>
    have hsource : device.IsStranger source := h
    have hwrite := writeSlot_of_isStranger hsource slot value
    simp only [answer, publicAnswer, hwrite]
    by_cases hslot : slot = 2
    · subst hslot
      simp only [ownerAfter, Call.claimant?, true_and, Option.getD_some]
      split <;> simp
    · have hnone : (Call.writeSlot source slot value).claimant? = none := by
        unfold Call.claimant?
        split <;> simp_all
      simp only [hslot, false_and, if_false, hkept hnone]
  | readBlock source offset =>
    have hsource : device.IsStranger source := h
    have hread := readBlock_of_isStranger hsource offset
    simp only [answer, publicAnswer, hread, hkept rfl]
  | writeBlock source offset value =>
    have hsource : device.IsStranger source := h
    have hwrite := writeBlock_of_isStranger hsource offset value
    simp only [answer, publicAnswer, hwrite, hkept rfl]

theorem SameFace.publicAnswer_eq {left : Device κ} {right : Device κ'}
    (hface : left.SameFace right) (call : Call) :
    left.publicAnswer call = right.publicAnswer call := by
  have hslot : ∀ slot, left.publicSlot slot = right.publicSlot slot := by
    intro slot
    unfold publicSlot
    split <;> simp only [hface.id, hface.type, hface.busIndex, hface.owner]
  cases call <;> simp only [publicAnswer, hslot]

theorem SameFace.setOwner {left : Device κ} {right : Device κ'} (hface : left.SameFace right)
    (owner : Word) : (left.setOwner owner).SameFace (right.setOwner owner) :=
  ⟨hface.id, hface.type, hface.busIndex, rfl, hface.halted⟩

theorem SameFace.isStranger_iff {left : Device κ} {right : Device κ'}
    (hface : left.SameFace right) (source : Word) :
    left.IsStranger source ↔ right.IsStranger source := by
  simp only [IsStranger, hface.id, hface.owner, hface.halted]

end Device

namespace BusMaster

open Device

variable {κ κ' : Type} [Behavior κ] [Behavior κ']

-- A call of the device that masters the bus.
def answer (master : BusMaster κ) (call : Call) : Option Word × BusMaster κ :=
  let (answer, device) := master.device.answer call
  (answer, { master with device })

def answerAll (master : BusMaster κ) : List Call → List (Option Word) × BusMaster κ
  | [] => ([], master)
  | call :: rest =>
      let (first, master) := master.answer call
      let (others, master) := master.answerAll rest
      (first :: others, master)

-- Every source is a stranger at the moment of its call.
def StrangersOnly : BusMaster κ → List Call → Prop
  | _, [] => True
  | master, call :: rest =>
      master.device.IsStranger call.source ∧ StrangersOnly (master.answer call).2 rest

instance decidableStrangersOnly :
    (master : BusMaster κ) → (calls : List Call) → Decidable (master.StrangersOnly calls)
  | _, [] => .isTrue trivial
  | master, call :: rest =>
      have := decidableStrangersOnly (master.answer call).2 rest
      inferInstanceAs (Decidable (_ ∧ _))

def setOwner (master : BusMaster κ) (owner : Word) : BusMaster κ :=
  { master with device := master.device.setOwner owner }

theorem answer_of_isStranger {master : BusMaster κ} {call : Call}
    (h : master.device.IsStranger call.source) :
    master.answer call = (master.device.publicAnswer call,
      master.setOwner (ownerAfter master.device.control.owner call)) := by
  simp only [answer, Device.answer_of_isStranger h, setOwner]

theorem ownerAfterAll_nil (owner : Word) : ownerAfterAll owner [] = owner := by
  unfold ownerAfterAll
  split <;> simp_all

-- As long as every caller is a stranger when it calls, two devices that look the same to strangers
-- answer alike, and all that the calls leave of either is its owner. The induction is on the calls:
-- after each, the devices still look the same and differ from how they began in their owners alone.
theorem answerAll_of_strangersOnly {left : BusMaster κ} {right : BusMaster κ'}
    (hface : left.device.SameFace right.device) {calls : List Call}
    (hcalls : left.StrangersOnly calls) :
    (left.answerAll calls).1 = (right.answerAll calls).1 ∧
      (left.answerAll calls).2 = left.setOwner (ownerAfterAll left.device.control.owner calls) ∧
      (right.answerAll calls).2 =
        right.setOwner (ownerAfterAll left.device.control.owner calls) := by
  induction calls generalizing left right with
  | nil =>
    simp only [answerAll, ownerAfterAll_nil]
    refine ⟨trivial, rfl, ?_⟩
    rw [hface.owner]
    rfl
  | cons call rest ih =>
    obtain ⟨hcall, hrest⟩ := hcalls
    have hcall' := (hface.isStranger_iff call.source).1 hcall
    have howner := hface.owner
    simp only [answer_of_isStranger hcall, howner] at hrest
    have hface' : (left.setOwner (ownerAfter right.device.control.owner call)).device.SameFace
        (right.setOwner (ownerAfter right.device.control.owner call)).device :=
      hface.setOwner _
    obtain ⟨hanswers, hleft, hright⟩ := ih hface' hrest
    simp only [answerAll, answer_of_isStranger hcall, answer_of_isStranger hcall',
      hface.publicAnswer_eq, howner, ownerAfterAll_cons]
    exact ⟨congrArg _ hanswers, hleft, hright⟩

-- A processor that runs and one that could sit on a bus differ in their memories, registers and
-- devices. The source 9 claims either and, as it runs, stays a stranger to it.
theorem answerAll_of_strangersOnly_processors :
    let left : BusMaster Registers :=
      { device := ⟨3, .initial, ⟨8, #[7, 8] ++ .replicate 254 0, 0⟩, ⟨4, 0, 0, 1, 2⟩, false⟩
        bus := [] }
    let right : BusMaster Kind :=
      { device :=
          ⟨3, .processor (Registers.initial.setPc 6), ⟨8, .replicate 256 0, 0⟩, ⟨4, 0, 5, 0, 0⟩,
            false⟩
        bus := [(1, .leaf ⟨5, .memory, ⟨8, .replicate 256 0, 0⟩, .initial, true⟩)] }
    let calls : List Call :=
      [.readSlot 7 6 .consume, .writeSlot 0 2 1, .writeSlot 9 2 5, .writeBlock 9 0 1,
        .readSlot 9 8 .peek, .writeSlot 7 2 7, .readSlot 7 2 .peek, .readBlock 7 0]
    left.device.SameFace right.device ∧ left.StrangersOnly calls ∧
      (left.answerAll calls).1 = (right.answerAll calls).1 ∧
      (left.answerAll calls).2 = left.setOwner 9 ∧ (right.answerAll calls).2 = right.setOwner 9 := by
  intro left right calls
  have hface : left.device.SameFace right.device := ⟨rfl, rfl, rfl, rfl, rfl⟩
  have hcalls : left.StrangersOnly calls := by
    simp only [left, calls]
    decide
  exact ⟨hface, hcalls, answerAll_of_strangersOnly hface hcalls⟩

-- The first source that claims a device need not be the one that gets it: id 0 claims nothing, so
-- that the next source finds the device free.
theorem owner_not_first_claimant :
    ¬∀ (master : BusMaster Kind) (calls : List Call) (owner : Word),
      master.StrangersOnly calls → master.device.control.owner = 0 →
      (master.answerAll calls).2.device.control.owner = owner → owner ≠ 0 →
      (calls.filterMap Call.claimant?).head? = some owner := by
  intro h
  have hfirst := h { device := ⟨3, .memory, ⟨0, #[], 0⟩, .initial, true⟩, bus := [] }
    [.writeSlot 0 2 9, .writeSlot 5 2 9] 5 (by decide) (by decide) (by decide) (by decide)
  exact absurd hfirst (by decide)

end BusMaster

end MicroCisc
