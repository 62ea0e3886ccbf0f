import Mathlib.Data.List.Perm.Basic
import MicroCisc.Device.ChaCha
import MicroCisc.Proofs.Device.Locations
import MicroCisc.Proofs.Device.Serial.Traffic

namespace MicroCisc

/-! ### Time in two pieces -/

namespace SerialLine

theorem passPeriods_elapsed (n elapsed : Nat) (line : SerialLine) :
    passPeriods n { line with elapsed } = { passPeriods n line with elapsed } := by
  induction n generalizing line with
  | zero => rfl
  | succ n ih =>
    rw [passPeriods_succ, passPeriods_succ]
    exact ih line.passPeriod

theorem passPeriods_eq (n : Nat) (line : SerialLine) :
    ∃ ready free, passPeriods n line = { line with ready, free } := by
  induction n generalizing line with
  | zero => exact ⟨_, _, rfl⟩
  | succ n ih =>
    obtain ⟨ready, free, hrest⟩ := ih line.passPeriod
    exact ⟨ready, free, (passPeriods_succ n line).trans hrest⟩

-- The time left over from the first piece counts towards the periods that end in the second.
theorem tick_tick (line : SerialLine) (a b : Nat) : (line.tick a).tick b = line.tick (a + b) := by
  have hperiod : (line.tick a).bytePeriod = line.bytePeriod ∧
      (line.tick a).elapsed = (line.elapsed + a) % line.bytePeriod := by
    obtain ⟨ready, free, htick⟩ := passPeriods_eq ((line.elapsed + a) / line.bytePeriod)
      { line with elapsed := (line.elapsed + a) % line.bytePeriod }
    rw [tick, htick]
    exact ⟨rfl, rfl⟩
  rw [tick, hperiod.1, hperiod.2, tick, ← passPeriods_elapsed, ← passPeriods_add,
    ← periods_add, Nat.mod_add_mod, Nat.add_assoc]
  rfl

end SerialLine

-- Once a terminal has printed, there is nothing more to print.
theorem Terminal.tick_tick (display : Terminal) (memory : Memory) :
    (display.tick memory).tick memory = display.tick memory := by
  unfold Terminal.tick
  split <;> simp_all

-- Kinds for which it makes no difference whether time passes in one piece or in two.
class SteadyBehavior (κ : Type) [Behavior κ] : Prop where
  tick_tick : ∀ (kind : κ) (memory : Memory) (a b : Nat),
    Behavior.tick (Behavior.tick kind memory a) memory b = Behavior.tick kind memory (a + b)

instance : SteadyBehavior Registers where
  tick_tick _ _ _ _ := rfl

instance : SteadyBehavior Kind where
  tick_tick kind memory a b := by
    cases kind with
    | serial line => exact congrArg Kind.serial (line.tick_tick a b)
    | terminal display => exact congrArg Kind.terminal (display.tick_tick memory)
    | processor regs | memory | leds bank => rfl

theorem Device.tick_tick {κ : Type} [Behavior κ] [SteadyBehavior κ] (device : Device κ)
    (a b : Nat) : (device.tick a).tick b = device.tick (a + b) := by
  simp only [tick, SteadyBehavior.tick_tick]

mutual

theorem DeviceTree.tick_tick (a b : Nat) :
    (tree : DeviceTree) → (tree.tick a).tick b = tree.tick (a + b)
  | .node device bus => by
      simp only [DeviceTree.tick, device.tick_tick, Bus.tick_tick a b bus]

theorem Bus.tick_tick (a b : Nat) :
    (bus : Bus) → Bus.tick b (Bus.tick a bus) = Bus.tick (a + b) bus
  | [] => rfl
  | (index, tree) :: rest => by
      simp only [Bus.tick, tree.tick_tick a b, Bus.tick_tick a b rest]

end

/-! ### Siblings in any order -/

mutual

-- Time passes for a device and then, in some order, for each of those on its bus.
inductive DeviceTree.Elapses (nanos : Nat) : DeviceTree → DeviceTree → Prop
  | node {device : Device Kind} {bus after : Bus} {order : List UInt8}
      (horder : order.Perm bus.indexes) (hbus : Bus.Elapses nanos order bus after) :
      DeviceTree.Elapses nanos (.node device bus) (.node (device.tick nanos) after)

-- Time passes for the devices at the indexes in a list, one after the other.
inductive Bus.Elapses (nanos : Nat) : List UInt8 → Bus → Bus → Prop
  | nil (bus : Bus) : Bus.Elapses nanos [] bus bus
  | cons {index : UInt8} {order : List UInt8} {bus after : Bus} {tree later : DeviceTree}
      (hget : bus.get? index = some tree) (htree : DeviceTree.Elapses nanos tree later)
      (hrest : Bus.Elapses nanos order (Bus.modify (fun _ => later) index bus) after) :
      Bus.Elapses nanos (index :: order) bus after

end

mutual

theorem DeviceTree.distinctIndexes_tick (nanos : Nat) :
    (tree : DeviceTree) → tree.DistinctIndexes → (tree.tick nanos).DistinctIndexes
  | .node _ bus, h => Bus.distinctIndexes_tick nanos bus h

theorem Bus.distinctIndexes_tick (nanos : Nat) :
    (bus : Bus) → bus.DistinctIndexes → (Bus.tick nanos bus).DistinctIndexes
  | [], _ => trivial
  | (index, tree) :: rest, ⟨hindex, htree, hrest⟩ => by
      refine ⟨?_, tree.distinctIndexes_tick nanos htree, Bus.distinctIndexes_tick nanos rest hrest⟩
      rwa [← Bus.get?_eq_none_iff, Bus.get?_tick, Option.map_eq_none_iff, Bus.get?_eq_none_iff]

end

namespace Bus

variable {f : DeviceTree → DeviceTree} {index : UInt8} {order : List UInt8} {bus : Bus}
  {tree : DeviceTree}

theorem indexes_modify (f : DeviceTree → DeviceTree) (index : UInt8) (bus : Bus) :
    (Bus.modify f index bus).indexes = bus.indexes := by
  induction bus with
  | nil => rfl
  | cons first rest ih =>
    simp only [modify]
    split
    · rfl
    · exact congrArg (first.1 :: ·) ih

theorem distinctIndexes_modify (hf : ∀ tree : DeviceTree, tree.DistinctIndexes →
    (f tree).DistinctIndexes) (h : bus.DistinctIndexes) :
    (Bus.modify f index bus).DistinctIndexes := by
  induction bus with
  | nil => trivial
  | cons first rest ih =>
    obtain ⟨hfirst, htree, hrest⟩ := h
    simp only [modify]
    split
    · exact ⟨hfirst, hf _ htree, hrest⟩
    · refine ⟨?_, htree, ih hrest⟩
      rwa [indexes_modify]

theorem distinctIndexes_of_get? (h : bus.DistinctIndexes) (hget : bus.get? index = some tree) :
    tree.DistinctIndexes := by
  induction bus with
  | nil => cases hget
  | cons first rest ih =>
    obtain ⟨i, here⟩ := first
    obtain ⟨-, htree, hrest⟩ := h
    simp only [get?, List.lookup_cons] at hget ih
    split at hget
    · cases hget
      exact htree
    · exact ih hrest hget

-- A change is known by what it makes of the tree that it finds.
theorem modify_const (hget : bus.get? index = some tree) :
    Bus.modify (fun _ => f tree) index bus = Bus.modify f index bus := by
  induction bus with
  | nil => rfl
  | cons first rest ih =>
    obtain ⟨i, here⟩ := first
    simp only [modify, get?, List.lookup_cons, beq_iff_eq] at ih hget ⊢
    split
    · next heq =>
      rw [heq, beq_self_eq_true] at hget
      cases hget
      rfl
    · next hne =>
      rw [beq_false_of_ne (Ne.symm hne)] at hget
      rw [ih hget]

theorem modify_comm (i j : UInt8) (bus : Bus) :
    Bus.modify f i (Bus.modify f j bus) = Bus.modify f j (Bus.modify f i bus) := by
  induction bus with
  | nil => rfl
  | cons first rest ih =>
    simp only [modify]
    by_cases hi : first.1 == i <;> by_cases hj : first.1 == j <;> simp [modify, hi, hj, ih]

-- Each index in a list, one after the other.
def modifyAll (f : DeviceTree → DeviceTree) (order : List UInt8) (bus : Bus) : Bus :=
  order.foldl (fun bus index => Bus.modify f index bus) bus

theorem modifyAll_perm {other : List UInt8} (h : order.Perm other) (bus : Bus) :
    Bus.modifyAll f order bus = Bus.modifyAll f other bus := by
  have hcomm : RightCommutative fun (bus : Bus) index => Bus.modify f index bus :=
    ⟨fun bus i j => modify_comm j i bus⟩
  exact h.foldl_eq bus

theorem modifyAll_of_not_mem {first : UInt8 × DeviceTree} (h : first.1 ∉ order) (rest : Bus) :
    Bus.modifyAll f order (first :: rest) = first :: Bus.modifyAll f order rest := by
  induction order generalizing rest with
  | nil => rfl
  | cons index order ih =>
    rw [List.mem_cons, not_or] at h
    have hmodify : Bus.modify f index (first :: rest) = first :: Bus.modify f index rest :=
      if_neg (by simpa using h.1)
    rw [modifyAll, List.foldl_cons, hmodify]
    exact ih h.2 _

theorem modifyAll_tick (nanos : Nat) (h : bus.DistinctIndexes) :
    Bus.modifyAll (·.tick nanos) bus.indexes bus = Bus.tick nanos bus := by
  induction bus with
  | nil => rfl
  | cons first rest ih =>
    obtain ⟨index, tree⟩ := first
    obtain ⟨hindex, -, hrest⟩ := h
    have hmodify : Bus.modify (·.tick nanos) index ((index, tree) :: rest) =
        (index, tree.tick nanos) :: rest :=
      if_pos (beq_self_eq_true index)
    show Bus.modifyAll _ (Bus.indexes rest) (Bus.modify _ index ((index, tree) :: rest)) = _
    rw [hmodify, modifyAll_of_not_mem hindex, ih hrest, Bus.tick]

theorem nodup_indexes (h : bus.DistinctIndexes) : bus.indexes.Nodup := by
  induction bus with
  | nil => exact .nil
  | cons first rest ih => exact List.nodup_cons.2 ⟨h.1, ih h.2.2⟩

-- Once a device has been told, those that are still to be told are as they were.
theorem elapses_modifyAll {nanos : Nat} (hnodup : order.Nodup)
    (htrees : ∀ index ∈ order, ∃ tree, bus.get? index = some tree ∧
      tree.Elapses nanos (tree.tick nanos)) :
    Bus.Elapses nanos order bus (Bus.modifyAll (·.tick nanos) order bus) := by
  induction order generalizing bus with
  | nil => exact .nil bus
  | cons index order ih =>
    obtain ⟨hnew, hnodup⟩ := List.nodup_cons.1 hnodup
    obtain ⟨tree, hget, htree⟩ := htrees index List.mem_cons_self
    refine .cons hget htree ?_
    rw [modify_const hget]
    apply ih hnodup
    intro other hother
    obtain ⟨tree', hget', htree'⟩ := htrees other (List.mem_cons_of_mem _ hother)
    have hne : other ≠ index := fun heq => hnew (heq ▸ hother)
    exact ⟨tree', by rw [get?_modify, if_neg hne, hget'], htree'⟩

-- Given trees for which time passes as it should, it does so for all of them, in any order.
theorem elapses_of_forall {nanos : Nat} (h : bus.DistinctIndexes)
    (htrees : ∀ index tree, bus.get? index = some tree → tree.Elapses nanos (tree.tick nanos))
    (horder : order.Perm bus.indexes) : Bus.Elapses nanos order bus (Bus.tick nanos bus) := by
  rw [← modifyAll_tick nanos h, ← modifyAll_perm horder]
  refine elapses_modifyAll (horder.nodup_iff.2 (nodup_indexes h)) fun index hindex => ?_
  have hsome : bus.get? index ≠ none := by
    rw [Ne, get?_eq_none_iff, not_not]
    exact horder.mem_iff.1 hindex
  obtain ⟨tree, hget⟩ := Option.ne_none_iff_exists'.1 hsome
  exact ⟨tree, hget, htrees index tree hget⟩

end Bus

mutual

theorem DeviceTree.elapses_tick (nanos : Nat) :
    (tree : DeviceTree) → tree.DistinctIndexes → tree.Elapses nanos (tree.tick nanos)
  | .node _ bus, h =>
      .node (.refl _) (Bus.elapses_of_forall h (Bus.forall_elapses_tick nanos bus h) (.refl _))

theorem Bus.forall_elapses_tick (nanos : Nat) :
    (bus : Bus) → bus.DistinctIndexes → ∀ index tree, bus.get? index = some tree →
      tree.Elapses nanos (tree.tick nanos)
  | [], _ => fun _ _ hget => nomatch hget
  | (i, here) :: rest, ⟨_, hhere, hrest⟩ => by
      intro index tree hget
      simp only [Bus.get?, List.lookup_cons] at hget
      split at hget
      · cases hget
        exact DeviceTree.elapses_tick nanos here hhere
      · exact Bus.forall_elapses_tick nanos rest hrest index tree hget

end

mutual

theorem DeviceTree.Elapses.eq_tick {nanos : Nat} {tree after : DeviceTree} :
    tree.Elapses nanos after → tree.DistinctIndexes → after = tree.tick nanos
  | .node horder hbus, h => by
      have hafter := hbus.eq_modifyAll h
      rw [Bus.modifyAll_perm horder, Bus.modifyAll_tick nanos h] at hafter
      rw [hafter, DeviceTree.tick]

theorem Bus.Elapses.eq_modifyAll {nanos : Nat} {order : List UInt8} {bus after : Bus} :
    Bus.Elapses nanos order bus after → bus.DistinctIndexes →
      after = Bus.modifyAll (·.tick nanos) order bus
  | .nil bus, _ => rfl
  | .cons hget htree hrest, h => by
      have hlater := htree.eq_tick (Bus.distinctIndexes_of_get? h hget)
      have hafter := hrest.eq_modifyAll
      rw [hlater, Bus.modify_const hget] at hafter
      exact hafter (Bus.distinctIndexes_modify (fun tree => tree.distinctIndexes_tick nanos) h)

end

namespace BusMaster

variable {κ : Type} [Behavior κ]

-- Time passes for a master and then for the devices on its bus, in the order of a list of indexes.
def Elapses (nanos : Nat) (order : List UInt8) (before after : BusMaster κ) : Prop :=
  after.device = before.device.tick nanos ∧ Bus.Elapses nanos order before.bus after.bus

-- For a master and all that is below it, in two pieces time does what it does in one, and whatever
-- the order of siblings at any level, all of them are then where they would be in the order of their
-- indexes.
theorem tick_additive_in_any_order [SteadyBehavior κ] {master : BusMaster κ}
    (h : master.bus.DistinctIndexes) (a b : Nat) :
    (master.tick a).tick b = master.tick (a + b) ∧
      ∀ order, order.Perm master.bus.indexes → ∀ after,
        master.Elapses (a + b) order after ↔ after = master.tick (a + b) := by
  refine ⟨?_, fun order horder after => ⟨fun helapses => ?_, ?_⟩⟩
  · simp only [tick, Device.tick_tick, Bus.tick_tick]
  · have hbus := helapses.2.eq_modifyAll h
    rw [Bus.modifyAll_perm horder, Bus.modifyAll_tick _ h] at hbus
    rw [tick, ← helapses.1, ← hbus]
  · rintro rfl
    exact ⟨rfl, Bus.elapses_of_forall h (Bus.forall_elapses_tick _ _ h) horder⟩

-- A terminal that is told before a serial line, which has a bank of LEDs below it and is half a
-- byte period behind.
theorem tick_additive_in_any_order_terminal_first :
    let line : SerialLine :=
      { SerialLine.ofBaud 9600 (.fixed 0) with inbound := .ofList [65, 66, 67], elapsed := 500000 }
    let display : Terminal := ⟨254, 1, #[]⟩
    let leds : DeviceTree := .leaf ⟨102, .leds .dark, ⟨0, #[], 0⟩, .initial, true⟩
    let master : BusMaster Registers :=
      { device := ⟨1, .initial, ⟨8, .replicate 256 0, 0⟩, .initial, false⟩
        bus :=
          [(16, .node ⟨100, .serial line, ⟨0, #[], 0⟩, .initial, true⟩ [(1, leds)]),
           (17, .leaf ⟨101, .terminal display, ⟨8, .replicate 256 0x4849, 0⟩, .initial, true⟩)] }
    master.bus.DistinctIndexes ∧ [17, 16].Perm master.bus.indexes ∧
      (master.tick 1000000).tick 583332 = master.tick 1583332 ∧
      master.Elapses 1583332 [17, 16] (master.tick 1583332) := by
  intro line display leds master
  have hdistinct : master.bus.DistinctIndexes :=
    ⟨by decide, ⟨by decide, trivial, trivial⟩, by decide, trivial, trivial⟩
  have horder : [17, 16].Perm master.bus.indexes := by decide
  obtain ⟨hpieces, hany⟩ := tick_additive_in_any_order hdistinct 1000000 583332
  exact ⟨hdistinct, horder, hpieces, (hany _ horder _).2 rfl⟩

end BusMaster

end MicroCisc
