import MicroCisc.Proofs.Program.Expectations

namespace MicroCisc

namespace Expectation

theorem lookup_moved (entries : List Expectation) (distance offset : Word) :
    (entries.map fun (start, expected) => (start + distance, expected)).lookup offset =
      entries.lookup (offset - distance) := by
  induction entries with
  | nil => rfl
  | cons entry rest ih =>
    have hmoved : entry.1 + distance = offset ↔ entry.1 = offset - distance :=
      UInt16.eq_sub_iff_add_eq.symm
    rw [List.map_cons, lookup_cons, lookup_cons, ih]
    simp only [hmoved]

end Expectation

namespace Program

variable {programs : List Program}

theorem ext_get? {program other : Program} (hwords : program.words = other.words)
    (htests : ∀ offset, program.tests.get? offset = other.tests.get? offset) : program = other := by
  obtain ⟨words, tests⟩ := program
  obtain ⟨_, others⟩ := other
  cases hwords
  cases Expectations.ext_get? htests
  rfl

theorem lookup_testsBehind (base : Nat) (program : Program) (offset : Word) :
    (program.testsBehind base).reverse.lookup offset = program.tests.get? (offset - .ofNat base) := by
  rw [testsBehind, ← List.map_reverse, Expectation.lookup_moved,
    Expectations.lookup_reverse_entries]

/-! ### Two programs -/

theorem words_append (program other : Program) :
    (program ++ other).words = program.words ++ other.words :=
  rfl

theorem length_append (program other : Program) :
    (program ++ other).length = program.length + other.length :=
  List.length_append

-- A test of the program behind counts before one of the program in front.
theorem get?_append (program other : Program) (offset : Word) :
    (program ++ other).tests.get? offset =
      (other.tests.get? (offset - .ofNat program.length)).or (program.tests.get? offset) := by
  show (Expectations.ofList (program.tests.entries ++ _)).get? offset = _
  rw [Expectations.get?_ofList, List.reverse_append, List.lookup_append, lookup_testsBehind,
    Expectations.lookup_reverse_entries]

theorem append_assoc (first second third : Program) :
    first ++ second ++ third = first ++ (second ++ third) := by
  apply ext_get?
  · simp only [words_append, List.append_assoc]
  · intro offset
    have hoffset : offset - UInt16.ofNat (first.length + second.length) =
        offset - .ofNat first.length - .ofNat second.length := by
      rw [UInt16.ofNat_add]
      grind
    simp only [get?_append, length_append, hoffset, Option.or_assoc]

theorem get?_empty (offset : Word) : empty.tests.get? offset = none :=
  rfl

theorem empty_append (program : Program) : empty ++ program = program := by
  apply ext_get?
  · rfl
  · intro offset
    have hoffset : offset - UInt16.ofNat empty.length = offset := UInt16.sub_zero offset
    rw [get?_append, hoffset, get?_empty, Option.or_none]

theorem append_empty (program : Program) : program ++ empty = program := by
  apply ext_get?
  · exact List.append_nil _
  · intro offset
    rw [get?_append, get?_empty, Option.none_or]

/-! ### Any number of programs -/

theorem concat_nil : concat [] = empty := by
  show (⟨[], .ofList empty.tests.entries⟩ : Program) = empty
  rw [Expectations.ofList_entries]
  rfl

theorem get?_allTestsBehind (base : Nat) (programs : List Program) (offset : Word) :
    (allTestsBehind base programs).reverse.lookup offset =
      (concat programs).tests.get? (offset - .ofNat base) := by
  induction programs generalizing base offset with
  | nil => rw [concat_nil, get?_empty, allTestsBehind, List.reverse_nil, List.lookup_nil]
  | cons program rest ih =>
    have hoffset : offset - UInt16.ofNat (base + program.length) =
        offset - .ofNat base - .ofNat (0 + program.length) := by
      rw [UInt16.ofNat_add, Nat.zero_add]
      grind
    have hbase : offset - UInt16.ofNat base - .ofNat 0 = offset - .ofNat base :=
      UInt16.sub_zero _
    show _ = (Expectations.ofList _).get? _
    rw [Expectations.get?_ofList]
    simp only [allTestsBehind, List.reverse_append, List.lookup_append, lookup_testsBehind, ih,
      hoffset, hbase]

theorem concat_cons (program : Program) (rest : List Program) :
    concat (program :: rest) = program ++ concat rest := by
  apply ext_get?
  · rfl
  · intro offset
    have hzero : offset - UInt16.ofNat 0 = offset := UInt16.sub_zero offset
    show (Expectations.ofList _).get? offset = _
    rw [Expectations.get?_ofList, get?_append, allTestsBehind, List.reverse_append,
      List.lookup_append, get?_allTestsBehind, lookup_testsBehind, hzero, Nat.zero_add]

theorem foldl_append (first : Program) (rest : List Program) :
    rest.foldl (· ++ ·) first = first ++ concat rest := by
  induction rest generalizing first with
  | nil => rw [concat_nil, append_empty, List.foldl_nil]
  | cons next others ih => rw [List.foldl_cons, ih, concat_cons, append_assoc]

theorem concat_eq_foldl (programs : List Program) :
    concat programs = programs.foldl (· ++ ·) empty := by
  rw [foldl_append, empty_append]

-- How many words stand before the program at a place.
def wordsBefore (programs : List Program) (place : Nat) : Nat :=
  ((programs.take place).flatMap (·.words)).length

-- A test of the program at a place expects `expected` of a run from `start` there. Behind the words
-- before that program it lands on `offset`.
structure Lands (programs : List Program) (place : Nat) (start expected offset : Word) : Prop where
  expects : ∃ program, programs[place]? = some program ∧ program.tests.get? start = some expected
  toNat_offset : offset.toNat = (start.toNat + wordsBefore programs place) % 0x10000

theorem wordsBefore_zero (programs : List Program) : wordsBefore programs 0 = 0 :=
  rfl

theorem wordsBefore_cons (program : Program) (rest : List Program) (place : Nat) :
    wordsBefore (program :: rest) (place + 1) = program.length + wordsBefore rest place := by
  rw [wordsBefore, List.take_succ_cons, List.flatMap_cons, List.length_append]
  rfl

theorem toNat_offset_iff {start offset : Word} {distance : Nat} :
    offset.toNat = (start.toNat + distance) % 0x10000 ↔ offset - .ofNat distance = start := by
  rw [UInt16.sub_eq_iff_eq_add, ← UInt16.toNat_inj, UInt16.toNat_add, UInt16.toNat_ofNat',
    Nat.add_mod_mod]

theorem lands_iff {place : Nat} {start expected offset : Word} :
    Lands programs place start expected offset ↔
      (∃ program, programs[place]? = some program ∧ program.tests.get? start = some expected) ∧
        offset - .ofNat (wordsBefore programs place) = start := by
  rw [← toNat_offset_iff]
  exact ⟨fun h => ⟨h.expects, h.toNat_offset⟩, fun h => ⟨h.1, h.2⟩⟩

theorem lands_zero_iff {program : Program} {rest : List Program} {start expected offset : Word} :
    Lands (program :: rest) 0 start expected offset ↔
      program.tests.get? offset = some expected ∧ offset = start := by
  have hoffset : offset - UInt16.ofNat 0 = offset := UInt16.sub_zero offset
  rw [lands_iff, wordsBefore_zero, hoffset, List.getElem?_cons_zero]
  constructor
  · rintro ⟨⟨_, hprogram, htest⟩, rfl⟩
    cases hprogram
    exact ⟨htest, rfl⟩
  · rintro ⟨htest, rfl⟩
    exact ⟨⟨program, rfl, htest⟩, rfl⟩

theorem lands_succ_iff {program : Program} {rest : List Program} {place : Nat}
    {start expected offset : Word} :
    Lands (program :: rest) (place + 1) start expected offset ↔
      Lands rest place start expected (offset - .ofNat program.length) := by
  have hoffset : offset - UInt16.ofNat (program.length + wordsBefore rest place) =
      offset - .ofNat program.length - .ofNat (wordsBefore rest place) := by
    rw [UInt16.ofNat_add]
    grind
  rw [lands_iff, lands_iff, wordsBefore_cons, hoffset, List.getElem?_cons_succ]

-- Nothing is expected where no test lands.
theorem get?_concat_eq_none_iff (programs : List Program) (offset : Word) :
    (concat programs).tests.get? offset = none ↔
      ∀ place start expected, ¬ Lands programs place start expected offset := by
  induction programs generalizing offset with
  | nil =>
    rw [concat_nil]
    refine iff_of_true (get?_empty offset) fun place start expected hlands => ?_
    obtain ⟨program, hprogram, -⟩ := hlands.expects
    simp at hprogram
  | cons program rest ih =>
    rw [concat_cons, get?_append, Option.or_eq_none_iff, ih]
    constructor
    · rintro ⟨hrest, hfirst⟩ place start expected hlands
      cases place with
      | zero => exact absurd (lands_zero_iff.1 hlands).1 (by simp [hfirst])
      | succ place => exact hrest place start expected (lands_succ_iff.1 hlands)
    · intro hnone
      refine ⟨fun place start expected hlands =>
        hnone (place + 1) start expected (lands_succ_iff.2 hlands), ?_⟩
      rw [Option.eq_none_iff_forall_ne_some]
      exact fun expected htest => hnone 0 offset expected (lands_zero_iff.2 ⟨htest, rfl⟩)

-- Of the tests that land on one offset the one of the last program counts.
theorem get?_concat_eq_some_iff (programs : List Program) (offset expected : Word) :
    (concat programs).tests.get? offset = some expected ↔
      ∃ place start, Lands programs place start expected offset ∧
        ∀ later > place, ∀ other otherExpected, ¬ Lands programs later other otherExpected offset := by
  induction programs generalizing offset with
  | nil =>
    rw [concat_nil, get?_empty]
    refine iff_of_false (by simp) ?_
    rintro ⟨place, start, hlands, -⟩
    obtain ⟨program, hprogram, -⟩ := hlands.expects
    simp at hprogram
  | cons program rest ih =>
    rw [concat_cons, get?_append, Option.or_eq_some_iff, ih, get?_concat_eq_none_iff]
    constructor
    · rintro (⟨place, start, hlands, hlater⟩ | ⟨hnone, hfirst⟩)
      · refine ⟨place + 1, start, lands_succ_iff.2 hlands, fun later hlt other otherExpected h => ?_⟩
        obtain ⟨later, rfl⟩ := Nat.exists_eq_add_one_of_ne_zero (Nat.ne_of_gt (Nat.zero_lt_of_lt hlt))
        exact hlater later (Nat.lt_of_succ_lt_succ hlt) other otherExpected (lands_succ_iff.1 h)
      · refine ⟨0, offset, lands_zero_iff.2 ⟨hfirst, rfl⟩, fun later hlt other otherExpected h => ?_⟩
        obtain ⟨later, rfl⟩ := Nat.exists_eq_add_one_of_ne_zero (Nat.ne_of_gt hlt)
        exact hnone later other otherExpected (lands_succ_iff.1 h)
    · rintro ⟨place, start, hlands, hlater⟩
      cases place with
      | zero =>
        refine .inr ⟨fun later other otherExpected h => ?_, (lands_zero_iff.1 hlands).1⟩
        exact hlater (later + 1) (Nat.succ_pos later) other otherExpected (lands_succ_iff.2 h)
      | succ place =>
        refine .inl ⟨place, start, lands_succ_iff.1 hlands, fun later hlt other otherExpected h => ?_⟩
        exact hlater (later + 1) (Nat.succ_lt_succ hlt) other otherExpected (lands_succ_iff.2 h)

/-! ### Programs that fit -/

-- Each test starts at a word of its own program.
def StartsInside (program : Program) : Prop :=
  ∀ start expected, program.tests.get? start = some expected → start.toNat < program.length

theorem wordsBefore_succ {program : Program} {place : Nat}
    (hprogram : programs[place]? = some program) :
    wordsBefore programs (place + 1) = wordsBefore programs place + program.length := by
  simp [wordsBefore, List.take_add_one, hprogram, length]

theorem wordsBefore_mono {place later : Nat} (h : place ≤ later) :
    wordsBefore programs place ≤ wordsBefore programs later := by
  obtain ⟨count, rfl⟩ := Nat.exists_eq_add_of_le h
  rw [wordsBefore, wordsBefore, List.take_add, List.flatMap_append, List.length_append]
  exact Nat.le_add_right _ _

theorem wordsBefore_le (place : Nat) : wordsBefore programs place ≤ (concat programs).length := by
  have hwords : (concat programs).words =
      (programs.take place).flatMap (·.words) ++ (programs.drop place).flatMap (·.words) := by
    rw [← List.flatMap_append, List.take_append_drop]
    rfl
  rw [length, hwords, List.length_append]
  exact Nat.le_add_right _ _

theorem getElem?_concat {program : Program} {place : Nat}
    (hprogram : programs[place]? = some program) {i : Nat} (hi : i < program.length) :
    (concat programs).words[wordsBefore programs place + i]? = program.words[i]? := by
  induction programs generalizing place with
  | nil => simp at hprogram
  | cons first rest ih =>
    rw [concat_cons, words_append]
    cases place with
    | zero =>
      cases hprogram
      rw [wordsBefore_zero, Nat.zero_add, List.getElem?_append_left hi]
    | succ place =>
      have hlength : first.words.length = first.length := rfl
      have hbehind : first.words.length ≤ first.length + (wordsBefore rest place + i) :=
        Nat.le_add_right _ _
      rw [wordsBefore_cons, Nat.add_assoc, List.getElem?_append_right hbehind, hlength,
        Nat.add_sub_cancel_left]
      exact ih hprogram

section Fitting

variable (hfits : (concat programs).length ≤ 0x10000)
  (hinside : ∀ program ∈ programs, program.StartsInside)

include hfits hinside

-- No offset wraps around: a test lands among the words of its own program.
theorem Lands.toNat_eq {place : Nat} {start expected offset : Word}
    (h : Lands programs place start expected offset) :
    offset.toNat = wordsBefore programs place + start.toNat ∧
      offset.toNat < wordsBefore programs (place + 1) := by
  obtain ⟨program, hprogram, htest⟩ := h.expects
  have hstart := hinside program (List.mem_of_getElem? hprogram) start expected htest
  have hsucc := wordsBefore_succ hprogram
  have hle : wordsBefore programs (place + 1) ≤ (concat programs).length :=
    wordsBefore_le (place + 1)
  have hoffset := h.toNat_offset
  omega

theorem Lands.not_lt {place later : Nat} {start expected other otherExpected offset : Word}
    (h : Lands programs place start expected offset)
    (hother : Lands programs later other otherExpected offset) : ¬ place < later := by
  intro hlt
  have hbefore := (h.toNat_eq hfits hinside).2
  have hbehind := (hother.toNat_eq hfits hinside).1
  have hmono : wordsBefore programs (place + 1) ≤ wordsBefore programs later := wordsBefore_mono hlt
  omega

-- No two tests collide.
theorem Lands.unique {place later : Nat} {start expected other otherExpected offset : Word}
    (h : Lands programs place start expected offset)
    (hother : Lands programs later other otherExpected offset) : place = later ∧ start = other := by
  have hplace : place = later :=
    Nat.le_antisymm (Nat.not_lt.1 (hother.not_lt hfits hinside h))
      (Nat.not_lt.1 (h.not_lt hfits hinside hother))
  subst hplace
  have hstart := (h.toNat_eq hfits hinside).1
  have hsame := (hother.toNat_eq hfits hinside).1
  exact ⟨rfl, UInt16.toNat_inj.1 (by omega)⟩

theorem exists_kept {place : Nat} {program : Program} (hprogram : programs[place]? = some program)
    {start expected : Word} (htest : program.tests.get? start = some expected) :
    ∃ offset, Lands programs place start expected offset ∧
      (concat programs).tests.get? offset = some expected ∧
      (concat programs).words[offset.toNat]? = program.words[start.toNat]? := by
  have hlands : Lands programs place start expected
      (start + .ofNat (wordsBefore programs place)) :=
    lands_iff.2 ⟨⟨program, hprogram, htest⟩, UInt16.add_sub_cancel _ _⟩
  have hstart := hinside program (List.mem_of_getElem? hprogram) start expected htest
  refine ⟨_, hlands, ?_, ?_⟩
  · refine (get?_concat_eq_some_iff programs _ expected).2 ⟨place, start, hlands, ?_⟩
    exact fun later hlt other otherExpected hother => hlands.not_lt hfits hinside hother hlt
  · rw [(hlands.toNat_eq hfits hinside).1, getElem?_concat hprogram hstart]

end Fitting

-- Programs form a monoid under `++`, whatever their lengths, and putting many together is to put
-- them together one by one. Of the tests that land on one offset the last program's counts. Where
-- all words fit and each test starts inside its program, no two land on one offset, and each is
-- there with what it expects and starts at the word that it started at.
theorem concat_keeps_tests :
    (∀ first second third : Program, first ++ second ++ third = first ++ (second ++ third)) ∧
    (∀ program : Program, empty ++ program = program ∧ program ++ empty = program) ∧
    ∀ programs : List Program,
      concat programs = programs.foldl (· ++ ·) empty ∧
      (concat programs).words = programs.flatMap (·.words) ∧
      (∀ offset expected, (concat programs).tests.get? offset = some expected ↔
        ∃ place start, Lands programs place start expected offset ∧
          ∀ later > place, ∀ other otherExpected,
            ¬ Lands programs later other otherExpected offset) ∧
      ((concat programs).length ≤ 0x10000 → (∀ program ∈ programs, program.StartsInside) →
        (∀ place later start other expected otherExpected offset,
          Lands programs place start expected offset →
          Lands programs later other otherExpected offset → place = later ∧ start = other) ∧
        ∀ place program, programs[place]? = some program →
          ∀ start expected, program.tests.get? start = some expected →
            ∃ offset, Lands programs place start expected offset ∧
              (concat programs).tests.get? offset = some expected ∧
              (concat programs).words[offset.toNat]? = program.words[start.toNat]?) := by
  refine ⟨append_assoc, fun program => ⟨empty_append program, append_empty program⟩,
    fun programs => ⟨concat_eq_foldl programs, rfl, get?_concat_eq_some_iff programs, ?_⟩⟩
  intro hfits hinside
  refine ⟨fun place later start other expected otherExpected offset h hother =>
    h.unique hfits hinside hother, ?_⟩
  exact fun place program hprogram start expected htest =>
    exists_kept hfits hinside hprogram htest

-- The words fill the address space, and the test of the last of them is still its own.
theorem concat_keeps_tests_full :
    let first : Program := ⟨List.replicate 65534 0, { entries := [(0, 7)] }⟩
    let last : Program := ⟨[5, 6], { entries := [(0, 8), (1, 9)] }⟩
    (concat [first, last]).tests.get? 65535 = some 9 ∧
      (concat [first, last]).words[65535]? = some 6 := by
  intro first last
  have hfirst : first.length = 65534 := List.length_replicate
  have hlast : last.length = 2 := rfl
  have hfits : (concat [first, last]).length ≤ 0x10000 := by
    rw [concat_cons, concat_cons, concat_nil, length_append, length_append, hfirst, hlast]
    decide
  have hinside : ∀ program ∈ [first, last], program.StartsInside := by
    simp only [List.forall_mem_cons, List.not_mem_nil, false_implies, implies_true, and_true]
    constructor
    · intro start expected htest
      have hmem : (start, expected) ∈ [((0, 7) : Expectation)] := Expectations.mem_entries_iff.2 htest
      obtain ⟨rfl, -⟩ : start = 0 ∧ expected = 7 := by simpa using hmem
      rw [hfirst]
      decide
    · intro start expected htest
      have hmem : (start, expected) ∈ [((0, 8) : Expectation), (1, 9)] :=
        Expectations.mem_entries_iff.2 htest
      obtain ⟨rfl, -⟩ | ⟨rfl, -⟩ : start = 0 ∧ expected = 8 ∨ start = 1 ∧ expected = 9 := by
        simpa using hmem
      · decide
      · decide
  obtain ⟨-, hkept⟩ := (concat_keeps_tests.2.2 [first, last]).2.2.2 hfits hinside
  obtain ⟨offset, hlands, htest, hword⟩ := hkept 1 last rfl 1 9 rfl
  have hbefore : wordsBefore [first, last] 1 = 65534 := by
    rw [wordsBefore_cons, wordsBefore_zero, hfirst]
  have hoffset : offset = 65535 := by
    rw [← UInt16.toNat_inj, hlands.toNat_offset, hbefore]
    decide
  subst hoffset
  exact ⟨htest, hword⟩

end Program

end MicroCisc
