import Mathlib.Data.List.Nodup
import MicroCisc.Proofs.Device.Connect

namespace MicroCisc

namespace DeviceTree

theorem ids_placedAt (tree : DeviceTree) (index : UInt8) :
    (tree.placedAt index).ids = tree.ids := by
  cases tree with
  | node device bus => simp only [placedAt, mapDevice, ids]

theorem ids_toTree (master : BusMaster Kind) : master.toTree.ids = master.ids := by
  rw [BusMaster.toTree, ids]
  rfl

theorem ids_master (tree : DeviceTree) : tree.master.ids = tree.ids := by
  cases tree with
  | node device bus => rw [ids]; rfl

end DeviceTree

namespace Bus

theorem ids_insert (index : UInt8) (tree : DeviceTree) (bus : Bus) :
    (Bus.insert index tree bus).ids.Perm (tree.ids ++ bus.ids) := by
  induction bus with
  | nil => simp [insert, ids]
  | cons first rest ih =>
    obtain ⟨i, other⟩ := first
    simp only [insert]
    split
    · exact .refl _
    · simp only [ids]
      exact (ih.append_left other.ids).trans (List.perm_append_comm_assoc ..)

-- A tree that takes the place of another, and has more ids.
theorem ids_modify {index : UInt8} {old new : DeviceTree} {brought : List Word} {bus : Bus}
    (hget : bus.get? index = some old) (hids : new.ids.Perm (brought ++ old.ids)) :
    (Bus.modify (fun _ => new) index bus).ids.Perm (brought ++ bus.ids) := by
  induction bus with
  | nil => cases hget
  | cons first rest ih =>
    obtain ⟨i, tree⟩ := first
    simp only [get?, List.lookup_cons] at ih hget
    simp only [modify, beq_iff_eq]
    by_cases hi : i = index
    · subst hi
      simp only [beq_self_eq_true, Option.some.injEq] at hget
      subst hget
      simp only [if_true, ids, ← List.append_assoc]
      exact hids.append_right _
    · simp only [beq_false_of_ne (Ne.symm hi)] at hget
      simp only [hi, if_false, ids]
      exact ((ih hget).append_left tree.ids).trans (List.perm_append_comm_assoc ..)

end Bus

namespace BusMaster

-- Connects a tree to the device at the end of a path, if the path leads to one.
def connectAt (index : UInt8) (incoming : DeviceTree) :
    List UInt8 → {κ : Type} → BusMaster κ → Option (Except DeviceError (BusMaster κ))
  | [], _, master => some (master.connect index incoming)
  | step :: path, _, master =>
      (master.bus.get? step).bind fun below =>
        (connectAt index incoming path below.master).map fun connected =>
          connected.map fun below =>
            { master with bus := master.bus.modify (fun _ => below.toTree) step }

variable {κ : Type} {master after : BusMaster κ} {path : List UInt8} {index : UInt8}
  {incoming : DeviceTree}

theorem perm_ids_connect (h : master.connect index incoming = .ok after) :
    after.ids.Perm (incoming.ids ++ master.ids) := by
  obtain ⟨_, _, _, rfl⟩ := connect_eq_ok_iff.1 h
  have hinsert := Bus.ids_insert index (incoming.placedAt index) master.bus
  rw [DeviceTree.ids_placedAt] at hinsert
  exact (hinsert.cons master.device.id).trans List.perm_middle.symm

theorem nodup_ids_connect (hids : master.ids.Nodup) (hincoming : incoming.ids.Nodup)
    (h : master.connect index incoming = .ok after) : after.ids.Nodup := by
  obtain ⟨_, _, hnew, _⟩ := connect_eq_ok_iff.1 h
  refine (perm_ids_connect h).nodup_iff.2 (List.nodup_append.2 ⟨hincoming, hids, ?_⟩)
  intro id hin other hhere heq
  exact hnew id hin (heq ▸ hhere)

-- Wherever a tree is connected, its ids join those of the whole.
theorem perm_ids_connectAt (h : master.connectAt index incoming path = some (.ok after)) :
    after.ids.Perm (incoming.ids ++ master.ids) := by
  induction path generalizing κ master after with
  | nil =>
    simp only [connectAt, Option.some.injEq] at h
    exact perm_ids_connect h
  | cons step path ih =>
    simp only [connectAt, Option.bind_eq_some_iff, Option.map_eq_some_iff] at h
    obtain ⟨below, hbelow, connected, hconnected, hafter⟩ := h
    cases connected with
    | error e => cases hafter
    | ok new =>
      cases hafter
      have hnew := ih hconnected
      rw [DeviceTree.ids_master, ← DeviceTree.ids_toTree] at hnew
      have hbus := Bus.ids_modify hbelow hnew
      exact (hbus.cons master.device.id).trans List.perm_middle.symm

-- The ids of a whole tree stay distinct if and only if none of those that come in is one that the
-- tree has anywhere. That is certain where the tree is connected to the root.
theorem nodup_ids_connectAt (hids : master.ids.Nodup) (hincoming : incoming.ids.Nodup)
    (h : master.connectAt index incoming path = some (.ok after)) :
    (after.ids.Nodup ↔ ∀ id ∈ incoming.ids, id ∉ master.ids) ∧ (path = [] → after.ids.Nodup) := by
  have hiff : after.ids.Nodup ↔ ∀ id ∈ incoming.ids, id ∉ master.ids := by
    rw [(perm_ids_connectAt h).nodup_iff, List.nodup_append]
    constructor
    · rintro ⟨_, _, hdistinct⟩ id hin hhere
      exact hdistinct id hin id hhere rfl
    · intro hnew
      refine ⟨hincoming, hids, fun id hin other hhere heq => ?_⟩
      exact hnew id hin (heq ▸ hhere)
  refine ⟨hiff, ?_⟩
  rintro rfl
  simp only [connectAt, Option.some.injEq] at h
  exact nodup_ids_connect hids hincoming h

-- A device 4 that is connected to device 2, on the bus of device 1, beside device 3.
theorem nodup_ids_connectAt_fourth :
    let device : Word → Device Kind := fun id =>
      { id, kind := .memory, memory := ⟨0, #[], 0⟩, control := .initial, halted := true }
    let master : BusMaster Kind := ⟨device 1, [(1, .leaf (device 2)), (2, .leaf (device 3))]⟩
    let incoming := DeviceTree.leaf (device 4)
    ∃ after, master.connectAt 5 incoming [1] = some (.ok after) ∧ master.ids.Nodup ∧
      incoming.ids.Nodup ∧ after.ids = [1, 2, 4, 3] ∧
      (after.ids.Nodup ↔ ∀ id ∈ incoming.ids, id ∉ master.ids) := by
  intro device master incoming
  have hconnected : ∃ after, master.connectAt 5 incoming [1] = some (.ok after) ∧
      after.ids = [1, 2, 4, 3] := ⟨_, rfl, rfl⟩
  have hids : master.ids.Nodup := by decide
  have hincoming : incoming.ids.Nodup := by decide
  obtain ⟨after, hafter, hall⟩ := hconnected
  exact ⟨after, hafter, hids, hincoming, hall, (nodup_ids_connectAt hids hincoming hafter).1⟩

-- Device 2 knows nothing of the device beside it, and takes another of the same id.
theorem not_nodup_ids_connectAt :
    ¬∀ (master after : BusMaster Kind) (path : List UInt8) (index : UInt8) (incoming : DeviceTree),
      master.ids.Nodup → incoming.ids.Nodup →
      master.connectAt index incoming path = some (.ok after) → after.ids.Nodup := by
  intro h
  let device : Word → Device Kind := fun id =>
    { id, kind := .memory, memory := ⟨0, #[], 0⟩, control := .initial, halted := true }
  let master : BusMaster Kind := ⟨device 1, [(1, .leaf (device 2)), (2, .leaf (device 3))]⟩
  have hnodup := h master _ [1] 5 (.leaf (device 3)) (by decide) (by decide) rfl
  exact absurd hnodup (by decide)

end BusMaster

end MicroCisc
