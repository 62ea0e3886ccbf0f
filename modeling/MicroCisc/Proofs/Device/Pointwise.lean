import Mathlib.Data.List.Forall2
import MicroCisc.Device.Location

namespace MicroCisc.Bus

-- Two buses have the same indexes, and at each of them trees that `R` relates.
def Pointwise (R : UInt8 → DeviceTree → DeviceTree → Prop) (before after : Bus) : Prop :=
  List.Forall₂ (fun old new => new.1 = old.1 ∧ R old.1 old.2 new.2) before after

variable {R S : UInt8 → DeviceTree → DeviceTree → Prop} {before between after : Bus}

theorem Pointwise.refl (h : ∀ index tree, R index tree tree) (bus : Bus) : Pointwise R bus bus := by
  induction bus with
  | nil => exact .nil
  | cons first rest ih => exact .cons ⟨rfl, h _ _⟩ ih

theorem Pointwise.trans
    (h : ∀ index old middle new, R index old middle → R index middle new → R index old new)
    (hfirst : Pointwise R before between) (hsecond : Pointwise R between after) :
    Pointwise R before after := by
  induction hfirst generalizing after with
  | nil =>
    cases hsecond
    exact .nil
  | cons hold hrest ih =>
    cases hsecond with
    | cons hnew hrest' =>
      obtain ⟨hindex, hold⟩ := hold
      obtain ⟨hindex', hnew⟩ := hnew
      rw [hindex] at hindex' hnew
      exact .cons ⟨hindex', h _ _ _ _ hold hnew⟩ (ih hrest')

theorem Pointwise.mono (h : ∀ index old new, R index old new → S index old new)
    (hpoint : Pointwise R before after) : Pointwise S before after :=
  List.Forall₂.imp (fun _ _ hentry => ⟨hentry.1, h _ _ _ hentry.2⟩) hpoint

-- Look-ups agree with the relation.
theorem Pointwise.get? (hpoint : Pointwise R before after) (index : UInt8) :
    Option.Rel (R index) (before.get? index) (after.get? index) := by
  induction hpoint with
  | nil => exact .none
  | @cons old new _ _ hentry _ ih =>
    obtain ⟨i, tree⟩ := old
    obtain ⟨j, tree'⟩ := new
    obtain ⟨rfl, htree⟩ := hentry
    simp only [Bus.get?, List.lookup_cons] at ih ⊢
    split
    · next heq =>
      rw [beq_iff_eq] at heq
      subst heq
      exact .some htree
    · exact ih

theorem Pointwise.exists_before (hpoint : Pointwise R before after) {index : UInt8}
    {new : DeviceTree} (hnew : after.get? index = some new) :
    ∃ old, before.get? index = some old ∧ R index old new := by
  have hrel := hpoint.get? index
  rw [hnew] at hrel
  generalize before.get? index = found at hrel
  cases hrel with
  | some h => exact ⟨_, rfl, h⟩

theorem Pointwise.exists_after (hpoint : Pointwise R before after) {index : UInt8}
    {old : DeviceTree} (hold : before.get? index = some old) :
    ∃ new, after.get? index = some new ∧ R index old new := by
  have hrel := hpoint.get? index
  rw [hold] at hrel
  generalize after.get? index = found at hrel
  cases hrel with
  | some h => exact ⟨_, rfl, h⟩

theorem Pointwise.get?_eq_none (hpoint : Pointwise R before after) {index : UInt8}
    (hnone : before.get? index = none) : after.get? index = none := by
  have hrel := hpoint.get? index
  rw [hnone] at hrel
  generalize after.get? index = found at hrel
  cases hrel
  rfl

theorem pointwise_modify {f : DeviceTree → DeviceTree} {index : UInt8}
    (hrefl : ∀ index tree, R index tree tree) (hf : ∀ tree, R index tree (f tree)) (bus : Bus) :
    Pointwise R bus (Bus.modify f index bus) := by
  induction bus with
  | nil => exact .nil
  | cons first rest ih =>
    obtain ⟨i, tree⟩ := first
    simp only [modify, beq_iff_eq]
    split
    · next h =>
      subst h
      exact .cons ⟨rfl, hf tree⟩ (Pointwise.refl hrefl rest)
    · exact .cons ⟨rfl, hrefl _ _⟩ ih

theorem pointwise_tick (hf : ∀ index (tree : DeviceTree) nanos, R index tree (tree.tick nanos))
    (nanos : Nat) (bus : Bus) : Pointwise R bus (Bus.tick nanos bus) := by
  induction bus with
  | nil => exact .nil
  | cons first rest ih => exact .cons ⟨rfl, hf _ _ _⟩ ih

theorem get?_tick (nanos : Nat) (index : UInt8) (bus : Bus) :
    (Bus.tick nanos bus).get? index = (bus.get? index).map (DeviceTree.tick nanos) := by
  induction bus with
  | nil => rfl
  | cons first rest ih =>
    obtain ⟨i, tree⟩ := first
    simp only [Bus.tick, Bus.get?, List.lookup_cons] at ih ⊢
    split
    · rfl
    · exact ih

-- A change at an index that leaves the tree there as it is changes nothing.
theorem modify_eq_self {f : DeviceTree → DeviceTree} {index : UInt8} {bus : Bus}
    (h : ∀ tree, bus.get? index = some tree → f tree = tree) : Bus.modify f index bus = bus := by
  induction bus with
  | nil => rfl
  | cons first rest ih =>
    obtain ⟨i, tree⟩ := first
    simp only [modify, Bus.get?, List.lookup_cons, beq_iff_eq] at ih h ⊢
    split
    · next heq =>
      subst heq
      rw [h tree (by simp)]
    · next hne =>
      rw [ih]
      intro tree' htree'
      exact h tree' (by simpa [beq_false_of_ne (Ne.symm hne)] using htree')

end MicroCisc.Bus
