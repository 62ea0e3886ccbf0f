import MicroCisc.Word

namespace MicroCisc

abbrev Expectation := Word × Word

def Expectation.Sorted (entries : List Expectation) : Prop :=
  entries.Pairwise (·.1 < ·.1)

namespace Expectation

def keepLast (entries : List Expectation) : List Expectation :=
  entries.foldr (fun entry kept =>
    if (kept.head?.map (·.1)) == some entry.1 then kept else entry :: kept) []

theorem mem_of_mem_keepLast {entries : List Expectation} {entry : Expectation}
    (h : entry ∈ keepLast entries) : entry ∈ entries := by
  induction entries with
  | nil => exact h
  | cons first rest ih =>
    simp only [keepLast, List.foldr_cons] at h ih
    split at h
    · exact List.mem_cons_of_mem _ (ih h)
    · rcases List.mem_cons.1 h with rfl | h
      · exact List.mem_cons_self
      · exact List.mem_cons_of_mem _ (ih h)

theorem sorted_keepLast {entries : List Expectation} (h : entries.Pairwise (·.1 ≤ ·.1)) :
    Sorted (keepLast entries) := by
  induction entries with
  | nil => exact List.Pairwise.nil
  | cons first rest ih =>
    obtain ⟨hfirst, hrest⟩ := List.pairwise_cons.1 h
    have hkept := ih hrest
    have hle : ∀ entry ∈ keepLast rest, first.1 ≤ entry.1 :=
      fun entry hentry => hfirst entry (mem_of_mem_keepLast hentry)
    simp only [keepLast, List.foldr_cons] at hkept hle ⊢
    split
    · exact hkept
    · next hne =>
      refine List.pairwise_cons.2 ⟨fun entry hentry => ?_, hkept⟩
      -- the first entry that is kept lies above `first`, and all others above that one
      generalize List.foldr _ [] rest = kept at hkept hle hne hentry
      cases kept with
      | nil => simp at hentry
      | cons next others =>
        have hnext : first.1 < next.1 :=
          UInt16.lt_of_le_of_ne (hle next List.mem_cons_self) fun heq => by simp [heq] at hne
        rcases List.mem_cons.1 hentry with rfl | hentry
        · exact hnext
        · exact UInt16.lt_trans hnext ((List.pairwise_cons.1 hkept).1 entry hentry)

theorem decide_le_trans (a b c : Expectation) :
    decide (a.1 ≤ b.1) → decide (b.1 ≤ c.1) → decide (a.1 ≤ c.1) := by
  simp only [decide_eq_true_eq]
  exact UInt16.le_trans

theorem decide_le_total (a b : Expectation) : decide (a.1 ≤ b.1) || decide (b.1 ≤ a.1) := by
  simp only [Bool.or_eq_true, decide_eq_true_eq]
  exact UInt16.le_total a.1 b.1

theorem pairwise_mergeSort (entries : List Expectation) :
    (entries.mergeSort (·.1 ≤ ·.1)).Pairwise (·.1 ≤ ·.1) := by
  have h := List.pairwise_mergeSort decide_le_trans decide_le_total entries
  exact h.imp fun hab => of_decide_eq_true hab

end Expectation

structure Expectations where
  entries : List Expectation
  sorted : Expectation.Sorted entries := by simp [Expectation.Sorted]
  deriving DecidableEq

namespace Expectations

def empty : Expectations :=
  { entries := [] }

-- Of two expectations for one address the later counts. Sorting keeps their order.
def ofList (entries : List Expectation) : Expectations where
  entries := Expectation.keepLast (entries.mergeSort (·.1 ≤ ·.1))
  sorted := Expectation.sorted_keepLast (Expectation.pairwise_mergeSort entries)

def get? (tests : Expectations) (offset : Word) : Option Word :=
  tests.entries.lookup offset

end Expectations

structure Program where
  words : List Word
  tests : Expectations
  deriving DecidableEq

namespace Program

def empty : Program :=
  ⟨[], .empty⟩

def ofWords (words : List Word) : Program :=
  ⟨words, .empty⟩

def length (program : Program) : Nat :=
  program.words.length

def testsBehind (base : Nat) (program : Program) : List Expectation :=
  program.tests.entries.map fun (offset, expected) => (offset + .ofNat base, expected)

def append (program other : Program) : Program where
  words := program.words ++ other.words
  tests := .ofList (program.tests.entries ++ other.testsBehind program.length)

instance : Append Program :=
  ⟨append⟩

def allTestsBehind (base : Nat) : List Program → List Expectation
  | [] => []
  | program :: rest => program.testsBehind base ++ allTestsBehind (base + program.length) rest

def concat (programs : List Program) : Program where
  words := programs.flatMap (·.words)
  tests := .ofList (allTestsBehind 0 programs)

end Program

end MicroCisc
