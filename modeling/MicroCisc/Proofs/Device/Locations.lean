import Mathlib.Data.List.Nodup
import MicroCisc.Proofs.Device.Visit

namespace MicroCisc

mutual

-- No bus of a tree has two devices at one index.
def DeviceTree.DistinctIndexes : DeviceTree → Prop
  | .node _ bus => Bus.DistinctIndexes bus

def Bus.DistinctIndexes : Bus → Prop
  | [] => True
  | (index, tree) :: rest =>
      index ∉ Bus.indexes rest ∧ tree.DistinctIndexes ∧ Bus.DistinctIndexes rest

end

theorem DeviceTree.distinctIndexes_iff {tree : DeviceTree} :
    tree.DistinctIndexes ↔ tree.bus.DistinctIndexes := by
  cases tree
  rw [DistinctIndexes, bus]

namespace Bus

theorem get?_eq_none_iff {index : UInt8} {bus : Bus} :
    bus.get? index = none ↔ index ∉ bus.indexes := by
  simp only [get?, List.lookup_eq_none_iff, indexes, List.mem_map, bne_iff_ne, not_exists, not_and]
  exact ⟨fun h entry hentry heq => h entry hentry heq.symm,
    fun h entry hentry heq => h entry hentry heq.symm⟩

theorem mem_indexes_insert {index other : UInt8} {tree : DeviceTree} {bus : Bus} :
    other ∈ (Bus.insert index tree bus).indexes ↔ other = index ∨ other ∈ bus.indexes := by
  induction bus with
  | nil => simp [insert, indexes]
  | cons first rest ih =>
    simp only [insert]
    split
    · simp [indexes]
    · simp only [indexes, List.map_cons, List.mem_cons] at ih ⊢
      rw [ih, or_left_comm]

theorem distinctIndexes_insert {index : UInt8} {tree : DeviceTree} {bus : Bus}
    (hfree : bus.get? index = none) (htree : tree.DistinctIndexes) (hbus : bus.DistinctIndexes) :
    (Bus.insert index tree bus).DistinctIndexes := by
  rw [get?_eq_none_iff] at hfree
  induction bus with
  | nil => exact ⟨hfree, htree, trivial⟩
  | cons first rest ih =>
    have hne : first.1 ≠ index ∧ index ∉ Bus.indexes rest := by
      simpa [indexes, eq_comm] using hfree
    obtain ⟨hfirst, hother, hrest⟩ := hbus
    simp only [insert]
    split
    · exact ⟨hfree, htree, hfirst, hother, hrest⟩
    · refine ⟨?_, hother, ih hne.2 hrest⟩
      rw [mem_indexes_insert, not_or]
      exact ⟨hne.1, hfirst⟩

end Bus

section Below

variable {device found : Device Kind} {bus rest : Bus} {index : UInt8} {tree : DeviceTree}
  {path : List UInt8}

theorem DeviceTree.deviceAt?_eq_some_iff :
    (DeviceTree.node device bus).deviceAt? path = some found ↔
      path = [] ∧ device = found ∨ bus.deviceAt? path = some found := by
  cases path with
  | nil => simp [deviceAt?, treeAt?, DeviceTree.device, Bus.deviceAt?, Bus.treeAt?]
  | cons index path => simp [deviceAt?_cons]

theorem Bus.deviceAt?_eq_some_iff (hindex : index ∉ rest.indexes) :
    Bus.deviceAt? ((index, tree) :: rest) path = some found ↔
      (∃ below, path = index :: below ∧ tree.deviceAt? below = some found) ∨
        rest.deviceAt? path = some found := by
  cases path with
  | nil => simp [deviceAt?, treeAt?]
  | cons other path =>
    simp only [deviceAt?_cons, get?, List.lookup_cons, List.cons.injEq]
    by_cases hother : other = index
    · subst hother
      have hrest : rest.lookup other = none := get?_eq_none_iff.2 hindex
      simp [hrest]
    · simp [hother, beq_false_of_ne hother]

end Below

section Members

variable {wanted : Kind → Bool} {location : Location}

mutual

theorem DeviceTree.mem_locations (path : List UInt8) :
    (tree : DeviceTree) → tree.DistinctIndexes →
      (location ∈ tree.locations wanted path ↔
        ∃ suffix device, location.path = path ++ suffix ∧ tree.deviceAt? suffix = some device ∧
          device.id = location.id ∧ wanted device.kind = true)
  | .node device bus, hdistinct => by
      rw [DeviceTree.DistinctIndexes] at hdistinct
      have hhere : location ∈ (if wanted device.kind then [(⟨device.id, path⟩ : Location)] else [])
          ↔ location.path = path ∧ device.id = location.id ∧ wanted device.kind = true := by
        obtain ⟨id, path'⟩ := location
        split
        · next hwanted =>
          simp only [List.mem_singleton, Location.mk.injEq, hwanted, and_true]
          exact ⟨fun h => ⟨h.2, h.1.symm⟩, fun h => ⟨h.2.symm, h.1⟩⟩
        · next hwanted => simp [hwanted]
      rw [DeviceTree.locations, List.mem_append, hhere, Bus.mem_locations path bus hdistinct]
      simp only [DeviceTree.deviceAt?_eq_some_iff]
      constructor
      · rintro (⟨hpath, hfound⟩ | ⟨suffix, found, hpath, hfound, hwanted⟩)
        · exact ⟨[], device, by simpa using hpath, .inl ⟨rfl, rfl⟩, hfound⟩
        · exact ⟨suffix, found, hpath, .inr hfound, hwanted⟩
      · rintro ⟨suffix, found, hpath, ⟨rfl, rfl⟩ | hfound, hwanted⟩
        · exact .inl ⟨by simpa using hpath, hwanted⟩
        · exact .inr ⟨suffix, found, hpath, hfound, hwanted⟩

theorem Bus.mem_locations (path : List UInt8) :
    (bus : Bus) → bus.DistinctIndexes →
      (location ∈ bus.locations wanted path ↔
        ∃ suffix device, location.path = path ++ suffix ∧ bus.deviceAt? suffix = some device ∧
          device.id = location.id ∧ wanted device.kind = true)
  | [], _ => by
      simp only [Bus.locations, List.not_mem_nil, false_iff]
      rintro ⟨suffix, device, _, hdevice, _⟩
      cases suffix <;> cases hdevice
  | (index, tree) :: rest, hdistinct => by
      rw [Bus.DistinctIndexes] at hdistinct
      obtain ⟨hindex, htree, hrest⟩ := hdistinct
      rw [Bus.locations, List.mem_append, DeviceTree.mem_locations (path ++ [index]) tree htree,
        Bus.mem_locations path rest hrest]
      simp only [Bus.deviceAt?_eq_some_iff hindex, List.append_assoc, List.singleton_append]
      constructor
      · rintro (⟨below, found, hpath, hfound, hwanted⟩ | ⟨suffix, found, hpath, hfound, hwanted⟩)
        · exact ⟨index :: below, found, hpath, .inl ⟨below, rfl, hfound⟩, hwanted⟩
        · exact ⟨suffix, found, hpath, .inr hfound, hwanted⟩
      · rintro ⟨suffix, found, hpath, ⟨below, rfl, hfound⟩ | hfound, hwanted⟩
        · exact .inl ⟨below, found, hpath, hfound, hwanted⟩
        · exact .inr ⟨suffix, found, hpath, hfound, hwanted⟩

end

mutual

theorem DeviceTree.ids_locations (wanted : Kind → Bool) (path : List UInt8) :
    (tree : DeviceTree) → ((tree.locations wanted path).map (·.id)).Sublist tree.ids
  | .node device bus => by
      have hbus := Bus.ids_locations wanted path bus
      rw [DeviceTree.locations, DeviceTree.ids, List.map_append]
      split
      · exact hbus.cons_cons device.id
      · exact hbus.cons device.id

theorem Bus.ids_locations (wanted : Kind → Bool) (path : List UInt8) :
    (bus : Bus) → ((bus.locations wanted path).map (·.id)).Sublist bus.ids
  | [] => List.Sublist.refl []
  | (index, tree) :: rest => by
      rw [Bus.locations, Bus.ids, List.map_append]
      exact (DeviceTree.ids_locations wanted (path ++ [index]) tree).append
        (Bus.ids_locations wanted path rest)

end

end Members

end MicroCisc
