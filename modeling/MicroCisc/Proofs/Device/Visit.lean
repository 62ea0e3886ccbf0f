import MicroCisc.Proofs.Device.Drained
import MicroCisc.Proofs.Device.Pointwise

namespace MicroCisc

-- The tree at the end of a path.
def DeviceTree.treeAt? : List UInt8 → DeviceTree → Option DeviceTree
  | [], tree => some tree
  | index :: path, tree => (tree.bus.get? index).bind (treeAt? path)

def Bus.treeAt? (bus : Bus) : List UInt8 → Option DeviceTree
  | [] => none
  | index :: path => (bus.get? index).bind (DeviceTree.treeAt? path)

-- The device at the end of a path.
def DeviceTree.deviceAt? (path : List UInt8) (tree : DeviceTree) : Option (Device Kind) :=
  (tree.treeAt? path).map DeviceTree.device

def Bus.deviceAt? (bus : Bus) (path : List UInt8) : Option (Device Kind) :=
  (bus.treeAt? path).map DeviceTree.device

-- The kind of the device that a path leads to.
def DeviceTree.kindAt? : List UInt8 → DeviceTree → Option Kind
  | [], tree => some tree.device.kind
  | index :: path, tree => (tree.bus.get? index).bind (kindAt? path)

def Bus.kindAt? (bus : Bus) : List UInt8 → Option Kind
  | [] => none
  | index :: path => (bus.get? index).bind (DeviceTree.kindAt? path)

theorem Bus.deviceAt?_cons (bus : Bus) (index : UInt8) (path : List UInt8) :
    bus.deviceAt? (index :: path) = (bus.get? index).bind (DeviceTree.deviceAt? path) :=
  Option.map_bind

theorem DeviceTree.deviceAt?_cons (device : Device Kind) (bus : Bus) (index : UInt8)
    (path : List UInt8) :
    (DeviceTree.node device bus).deviceAt? (index :: path) = bus.deviceAt? (index :: path) :=
  rfl

theorem DeviceTree.kindAt?_eq (path : List UInt8) (tree : DeviceTree) :
    tree.kindAt? path = (tree.deviceAt? path).map (·.kind) := by
  rw [deviceAt?, Option.map_map]
  induction path generalizing tree with
  | nil => rfl
  | cons index path ih =>
    simp only [kindAt?, treeAt?, Option.map_bind]
    exact Option.bind_congr fun below _ => ih below

theorem Bus.kindAt?_eq (bus : Bus) (path : List UInt8) :
    bus.kindAt? path = (bus.deviceAt? path).map (·.kind) := by
  cases path with
  | nil => rfl
  | cons index path =>
    rw [deviceAt?_cons, kindAt?, Option.map_bind]
    exact Option.bind_congr fun below _ => below.kindAt?_eq path

variable {α : Type}

-- Lets the kind of the device at the top of a tree answer.
def DeviceTree.visitTop (f : Kind → Option α × Kind) : DeviceTree → Option α × DeviceTree
  | .node device bus => ((f device.kind).1, .node { device with kind := (f device.kind).2 } bus)

namespace Bus

variable (f : DeviceTree → α × DeviceTree) (index : UInt8) (path : List UInt8) (bus : Bus)

theorem snd_visit :
    (bus.visit f index path).2 = Bus.modify (fun tree => (tree.visit f path).2) index bus := by
  induction bus with
  | nil => rfl
  | cons first rest ih =>
    obtain ⟨i, tree⟩ := first
    simp only [visit, modify]
    split
    · rfl
    · exact congrArg ((i, tree) :: ·) ih

theorem fst_visit :
    (bus.visit f index path).1 = (bus.get? index).bind fun tree => (tree.visit f path).1 := by
  induction bus with
  | nil => rfl
  | cons first rest ih =>
    obtain ⟨i, tree⟩ := first
    simp only [visit, get?, List.lookup_cons, BEq.comm (a := index)] at ih ⊢
    split
    · next h => simp [h]
    · next h => simp [h, ih]

-- A change that drained devices do not show.
theorem drained_modify_eq {change : DeviceTree → DeviceTree}
    (hchange : ∀ tree : DeviceTree, (change tree).drained = tree.drained) :
    (Bus.modify change index bus).drained = bus.drained := by
  induction bus with
  | nil => rfl
  | cons first rest ih =>
    obtain ⟨i, tree⟩ := first
    simp only [modify]
    split
    · simp only [drained, hchange]
    · simp only [drained, ih]

end Bus

variable {f : Kind → Option α × Kind}

namespace DeviceTree

theorem drained_visit (hf : ∀ kind, (f kind).2.drained = kind.drained) (path : List UInt8)
    (tree : DeviceTree) : (tree.visit (visitTop f) path).2.drained = tree.drained := by
  induction path generalizing tree with
  | nil =>
    cases tree with
    | node device bus =>
      rw [visit]
      simp only [visitTop, drained, Device.drained, hf]
  | cons index path ih =>
    cases tree with
    | node device bus =>
      rw [visit]
      simp only [drained, Bus.snd_visit, Bus.drained_modify_eq _ _ ih]

theorem fst_visit (path : List UInt8) (tree : DeviceTree) :
    (tree.visit (visitTop f) path).1 = (tree.kindAt? path).map fun kind => (f kind).1 := by
  induction path generalizing tree with
  | nil =>
    cases tree with
    | node device bus =>
      rw [visit]
      rfl
  | cons index path ih =>
    cases tree with
    | node device bus =>
      rw [visit]
      simp only [Bus.fst_visit, ih, kindAt?, Option.map_bind]
      rfl

end DeviceTree

-- A device after a visit.
def Device.visited (f : Kind → Option α × Kind) (device : Device Kind) : Device Kind :=
  { device with kind := (f device.kind).2 }

-- The visits on a bus, given those to the trees that it holds.
theorem Bus.deviceAt?_visit {path : List UInt8}
    (htrees : ∀ (tree : DeviceTree) (other : List UInt8),
      (tree.visit (DeviceTree.visitTop f) path).2.deviceAt? other =
        if other = path then (tree.deviceAt? other).map (Device.visited f)
        else tree.deviceAt? other) (index : UInt8) (bus : Bus) (other : List UInt8) :
    (bus.visit (DeviceTree.visitTop f) index path).2.deviceAt? other =
      if other = index :: path then (bus.deviceAt? other).map (Device.visited f)
      else bus.deviceAt? other := by
  cases other with
  | nil => rfl
  | cons index' path' =>
    simp only [deviceAt?_cons, snd_visit, get?_modify, List.cons.injEq]
    by_cases hindex : index' = index
    · subst hindex
      cases bus.get? index' with
      | none => simp
      | some below => simpa using htrees below path'
    · simp only [hindex, if_false, false_and]

theorem DeviceTree.deviceAt?_visit (path other : List UInt8) (tree : DeviceTree) :
    (tree.visit (visitTop f) path).2.deviceAt? other =
      if other = path then (tree.deviceAt? other).map (Device.visited f)
      else tree.deviceAt? other := by
  induction path generalizing other tree with
  | nil =>
    cases tree with
    | node device bus =>
      rw [visit]
      cases other <;> rfl
  | cons index path ih =>
    cases tree with
    | node device bus =>
      rw [visit]
      cases other with
      | nil => rfl
      | cons index' path' =>
        simp only [deviceAt?_cons]
        exact Bus.deviceAt?_visit (fun tree other => ih other tree) index bus (index' :: path')

namespace Bus

variable (path other : List UInt8) (bus : Bus)

theorem drained_visitKind (hf : ∀ kind, (f kind).2.drained = kind.drained) :
    (bus.visitKind f path).2.drained = bus.drained := by
  cases path with
  | nil => rfl
  | cons index path =>
    have hvisit : (bus.visitKind f (index :: path)).2 =
        (bus.visit (DeviceTree.visitTop f) index path).2 := rfl
    rw [hvisit, snd_visit, drained_modify_eq _ _ (DeviceTree.drained_visit hf path)]

theorem fst_visitKind :
    (bus.visitKind f path).1 = (bus.kindAt? path).bind fun kind => (f kind).1 := by
  cases path with
  | nil => rfl
  | cons index path =>
    have hvisit : (bus.visitKind f (index :: path)).1 =
        (bus.visit (DeviceTree.visitTop f) index path).1.join := rfl
    rw [hvisit, fst_visit]
    cases hget : bus.get? index with
    | none => simp [kindAt?, hget]
    | some tree =>
      simp only [Option.bind_some, DeviceTree.fst_visit, kindAt?, hget]
      cases tree.kindAt? path <;> rfl

theorem deviceAt?_visitKind :
    (bus.visitKind f path).2.deviceAt? other =
      if other = path then (bus.deviceAt? other).map (Device.visited f)
      else bus.deviceAt? other := by
  cases path with
  | nil => cases other <;> rfl
  | cons index path =>
    have hvisit : (bus.visitKind f (index :: path)).2 =
        (bus.visit (DeviceTree.visitTop f) index path).2 := rfl
    rw [hvisit]
    exact deviceAt?_visit (fun tree other => tree.deviceAt?_visit path other) index bus other

theorem kindAt?_visitKind :
    (bus.visitKind f path).2.kindAt? other =
      if other = path then (bus.kindAt? other).map fun kind => (f kind).2
      else bus.kindAt? other := by
  simp only [kindAt?_eq, deviceAt?_visitKind]
  split
  · simp only [Option.map_map]
    rfl
  · rfl

end Bus

theorem DeviceTree.treeAt?_drained (path : List UInt8) (tree : DeviceTree) :
    tree.drained.treeAt? path = (tree.treeAt? path).map DeviceTree.drained := by
  induction path generalizing tree with
  | nil => rfl
  | cons index path ih =>
    cases tree with
    | node device bus =>
      simp only [drained, treeAt?, DeviceTree.bus, Bus.get?_drained, Option.bind_map,
        Option.map_bind]
      exact Option.bind_congr fun below _ => ih below

theorem Bus.deviceAt?_drained (path : List UInt8) (bus : Bus) :
    bus.drained.deviceAt? path = (bus.deviceAt? path).map Device.drained := by
  cases path with
  | nil => rfl
  | cons index path =>
    simp only [deviceAt?, treeAt?, get?_drained, Option.bind_map, Option.map_bind]
    refine Option.bind_congr fun below _ => ?_
    simp only [Function.comp_apply, DeviceTree.treeAt?_drained, Option.map_map]
    exact Option.map_congr fun tree _ => tree.device_drained

theorem Bus.kindAt?_drained (path : List UInt8) (bus : Bus) :
    bus.drained.kindAt? path = (bus.kindAt? path).map Kind.drained := by
  simp only [kindAt?_eq, deviceAt?_drained, Option.map_map]
  rfl

end MicroCisc
