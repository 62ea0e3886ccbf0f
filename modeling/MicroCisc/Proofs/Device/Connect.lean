import MicroCisc.Proofs.Device.Access

namespace MicroCisc

theorem Device.ofKind_eq_ok_iff {κ : Type} {id : Word} {kind : κ} {width : UInt8}
    {device : Device κ} :
    Device.ofKind id kind width = .ok device ↔
      id ≠ 0 ∧ ∃ memory, Memory.ofWidth width = .ok memory ∧
        device = { id, kind, memory, control := .initial, halted := true } := by
  unfold ofKind
  by_cases hid : id = 0
  · simp [hid]
  · cases Memory.ofWidth width with
    | error e => simp [hid, Except.map]
    | ok memory =>
      simp only [hid, beq_iff_eq, if_false, Except.map, Except.ok.injEq, exists_eq_left', ne_eq,
        not_false_eq_true, true_and]
      exact eq_comm

namespace DeviceTree

-- A tree that hangs at an index.
def placedAt (tree : DeviceTree) (index : UInt8) : DeviceTree :=
  tree.mapDevice fun device =>
    { device with control := { device.control with busIndex := index } }

theorem id_mem_ids (tree : DeviceTree) : tree.device.id ∈ tree.ids := by
  cases tree
  simp [ids, device]

end DeviceTree

namespace BusMaster

variable {κ : Type} {master after : BusMaster κ}

theorem connect_eq_ok_iff {index : UInt8} {tree : DeviceTree} :
    master.connect index tree = .ok after ↔
      index ≠ 0 ∧ master.bus.get? index = none ∧ (∀ id ∈ tree.ids, id ∉ master.ids) ∧
        after = { master with bus := master.bus.insert index (tree.placedAt index) } := by
  have hids : tree.ids.find? (master.ids.contains ·) = none ↔ ∀ id ∈ tree.ids, id ∉ master.ids := by
    simp
  unfold connect
  by_cases hindex : index = 0
  · simp [hindex]
  · cases hfree : master.bus.get? index with
    | some taken => simp [hindex]
    | none =>
      cases hfind : tree.ids.find? (master.ids.contains ·) with
      | some id =>
        have hdup : ¬∀ id ∈ tree.ids, id ∉ master.ids := by
          rw [← hids, hfind]
          simp
        simp [hindex, hdup]
      | none =>
        have hfresh := hids.1 hfind
        simp only [hindex, beq_iff_eq, if_false, Option.isSome_none, Bool.false_eq_true,
          Except.ok.injEq, ne_eq, not_false_eq_true, true_and]
        rw [and_iff_right hfresh]
        exact eq_comm

theorem connectAll_cons (index : UInt8) (tree : DeviceTree) (rest : List Part) :
    master.connectAll ((index, .ok tree) :: rest) =
      (master.connect index tree).bind (·.connectAll rest) :=
  rfl

-- What holds of a master and survives each connection of a part holds once all are connected.
theorem connectAll_induction {motive : BusMaster κ → Prop} {parts : List Part}
    (hstep : ∀ (master after : BusMaster κ) (index : UInt8) (tree : DeviceTree),
      (index, .ok tree) ∈ parts → motive master → master.connect index tree = .ok after →
      motive after)
    (hstart : motive master) (hall : master.connectAll parts = .ok after) : motive after := by
  induction parts generalizing master with
  | nil =>
    cases hall
    exact hstart
  | cons part rest ih =>
    obtain ⟨index, built⟩ := part
    cases built with
    | error e => cases hall
    | ok tree =>
      rw [connectAll_cons] at hall
      cases hconnect : master.connect index tree with
      | error e =>
        rw [hconnect] at hall
        cases hall
      | ok next =>
        rw [hconnect] at hall
        have hnext := hstep master next index tree (by simp) hstart hconnect
        exact ih (fun m m' i t hmem => hstep m m' i t (List.mem_cons_of_mem _ hmem)) hnext hall

theorem device_connectAll {parts : List Part} (hall : master.connectAll parts = .ok after) :
    after.device = master.device := by
  apply connectAll_induction (motive := fun m => m.device = master.device) _ rfl hall
  intro m m' index tree _ hdevice hconnect
  obtain ⟨_, _, _, rfl⟩ := connect_eq_ok_iff.1 hconnect
  exact hdevice

-- Nothing hangs at index 0, and the devices on the bus have ids other than the master's, are halted
-- and belong to nobody.
structure Fresh (master : BusMaster κ) : Prop where
  free : master.bus.get? 0 = none
  foreign : ∀ index tree, master.bus.get? index = some tree → tree.device.id ≠ master.device.id
  halted : ∀ index tree, master.bus.get? index = some tree → tree.device.halted = true
  unclaimed : ∀ index tree, master.bus.get? index = some tree → tree.device.control.owner = 0

theorem fresh_nil (device : Device κ) : Fresh ⟨device, []⟩ := by
  constructor
  · rfl
  all_goals
    intro index tree hget
    cases hget

theorem Fresh.connect (h : master.Fresh) {index : UInt8} {tree : DeviceTree}
    (hhalted : tree.device.halted = true) (howner : tree.device.control.owner = 0)
    (hconnect : master.connect index tree = .ok after) : after.Fresh := by
  obtain ⟨hindex, hfree, hids, rfl⟩ := connect_eq_ok_iff.1 hconnect
  have hget := Bus.get?_insert (tree.placedAt index) index
  have hid : tree.device.id ≠ master.device.id := by
    intro heq
    apply hids tree.device.id tree.id_mem_ids
    rw [heq]
    exact List.mem_cons_self
  -- Every device is the new one or was there before.
  have hcases : ∀ {other : UInt8} {found : DeviceTree},
      (master.bus.insert index (tree.placedAt index)).get? other = some found →
      found = tree.placedAt index ∨ master.bus.get? other = some found := by
    intro other found hfound
    rw [hget other master.bus hfree] at hfound
    split at hfound
    · exact .inl (Option.some.inj hfound).symm
    · exact .inr hfound
  refine ⟨?_, fun other found hfound => ?_, fun other found hfound => ?_,
    fun other found hfound => ?_⟩
  · rw [hget 0 master.bus hfree, if_neg hindex.symm]
    exact h.free
  · obtain rfl | hold := hcases hfound
    · rwa [DeviceTree.placedAt, DeviceTree.device_mapDevice]
    · exact h.foreign other found hold
  · obtain rfl | hold := hcases hfound
    · rwa [DeviceTree.placedAt, DeviceTree.device_mapDevice]
    · exact h.halted other found hold
  · obtain rfl | hold := hcases hfound
    · rwa [DeviceTree.placedAt, DeviceTree.device_mapDevice]
    · exact h.unclaimed other found hold

theorem Fresh.connectAll (h : master.Fresh) {parts : List Part}
    (hparts : ∀ index tree, (index, .ok tree) ∈ parts →
      tree.device.halted = true ∧ tree.device.control.owner = 0)
    (hall : master.connectAll parts = .ok after) : after.Fresh := by
  refine connectAll_induction (fun m m' index tree hmem hfresh hconnect => ?_) h hall
  obtain ⟨hhalted, howner⟩ := hparts index tree hmem
  exact hfresh.connect hhalted howner hconnect

end BusMaster

end MicroCisc
