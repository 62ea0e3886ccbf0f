import MicroCisc.Memory

namespace MicroCisc.Memory

-- The words of the boot ROM.
def rom (memory : Memory) : List Word :=
  memory.words.toList.take memory.romEnd

-- What can be done to a memory. Each load may fail.
inductive Event where
  | write (address value : Word)
  | loadProgram (program : List Word)
  | loadBytes (bytes : List UInt8)
  | loadRom (program : List Word)

def perform (memory : Memory) : Event → Memory
  | .write address value => memory.write address value
  | .loadProgram program => (memory.loadProgram program).1
  | .loadBytes bytes => (memory.loadBytes bytes).1
  | .loadRom program => (memory.loadRom program).1

def performAll (memory : Memory) (events : List Event) : Memory :=
  events.foldl perform memory

-- A ROM in a memory of so many words once a program has been loaded over it, if the program fits.
def overlaid (size : Nat) (rom program : List Word) : List Word :=
  if program.length ≤ size then program.take rom.length ++ rom.drop program.length else rom

-- The ROM of a memory of so many words after an event.
def romAfter (size : Nat) (rom : List Word) : Event → List Word
  | .write _ _ => rom
  | .loadProgram program => overlaid size rom program
  | .loadBytes bytes => ((Words.ofBytes bytes).toOption.map (overlaid size rom)).getD rom
  | .loadRom program => if program.length ≤ size then program else []

-- Does a program that fits have the same words as a ROM wherever it covers it?
def Matches (size : Nat) (rom program : List Word) : Prop :=
  size < program.length ∨ program <+: rom ∨ rom <+: program

-- Does an event leave a ROM as it is?
def Event.Spares (size : Nat) (rom : List Word) : Event → Prop
  | .write _ _ => True
  | .loadProgram program => Matches size rom program
  | .loadBytes bytes => ∀ program, Words.ofBytes bytes = .ok program → Matches size rom program
  | .loadRom program => if program.length ≤ size then program = rom else rom = []

variable {memory : Memory} {event : Event} {program rom : List Word} {size : Nat}

theorem length_rom (hbound : memory.romEnd ≤ memory.size) : memory.rom.length = memory.romEnd := by
  rw [rom, List.length_take, Array.length_toList]
  exact Nat.min_eq_left hbound

theorem rom_write (memory : Memory) (address value : Word) :
    (memory.write address value).rom = memory.rom := by
  unfold rom write
  dsimp only
  split
  · next hindex => rw [Array.toList_setIfInBounds, List.take_set_of_le hindex]
  · rfl

/-! ### Loads -/

theorem size_overlay (h : program.length ≤ memory.size) :
    (memory.overlay program).size = memory.size := by
  unfold size at h
  simp only [overlay, size, Array.size_append, List.size_toArray, Array.size_extract]
  omega

theorem toList_overlay (memory : Memory) (program : List Word) :
    (memory.overlay program).toList = program ++ memory.words.toList.drop program.length := by
  have hrest : (memory.words.toList.drop program.length).length ≤ memory.size - program.length := by
    rw [List.length_drop, Array.length_toList]
    exact Nat.le_refl _
  simp [overlay, List.take_of_length_le hrest]

theorem loadProgram_of_le (h : program.length ≤ memory.size) :
    memory.loadProgram program = ({ memory with words := memory.overlay program }, none) :=
  if_pos h

theorem loadProgram_of_lt (h : memory.size < program.length) :
    (memory.loadProgram program).1 = memory := by
  rw [loadProgram, if_neg (Nat.not_le_of_lt h)]

theorem loadRom_of_le (h : program.length ≤ memory.size) :
    (memory.loadRom program).1 =
      { memory with words := memory.overlay program, romEnd := program.length } := by
  have hload : ({ memory with romEnd := 0 } : Memory).loadProgram program =
      ({ memory with words := memory.overlay program, romEnd := 0 }, none) :=
    loadProgram_of_le h
  rw [loadRom, hload]

theorem loadRom_of_lt (h : memory.size < program.length) :
    (memory.loadRom program).1 = { memory with romEnd := 0 } := by
  have hload : ({ memory with romEnd := 0 } : Memory).loadProgram program =
      ({ memory with romEnd := 0 }, some (.programTooLarge program.length memory.size)) :=
    if_neg (Nat.not_le_of_lt h)
  rw [loadRom, hload]

-- Bytes that hold whole words load those words, and others none.
theorem loadBytes_eq (memory : Memory) (bytes : List UInt8) :
    (memory.loadBytes bytes).1 =
      ((Words.ofBytes bytes).toOption.map fun program => (memory.loadProgram program).1).getD
        memory := by
  unfold loadBytes
  cases Words.ofBytes bytes <;> rfl

-- Each event keeps the size of the memory, and the boundary within it.
theorem romEnd_le_size_perform (hbound : memory.romEnd ≤ memory.size) (event : Event) :
    (memory.perform event).size = memory.size ∧ (memory.perform event).romEnd ≤ memory.size := by
  have hprogram : ∀ program, (memory.loadProgram program).1.size = memory.size ∧
      (memory.loadProgram program).1.romEnd ≤ memory.size := fun program => by
    by_cases h : program.length ≤ memory.size
    · rw [loadProgram_of_le h]
      exact ⟨size_overlay h, hbound⟩
    · rw [loadProgram_of_lt (Nat.lt_of_not_le h)]
      exact ⟨rfl, hbound⟩
  cases event with
  | write address value =>
    exact ⟨memory.size_write address value, (memory.romEnd_write address value).symm ▸ hbound⟩
  | loadProgram program => exact hprogram program
  | loadBytes bytes =>
    rw [perform, loadBytes_eq]
    cases (Words.ofBytes bytes).toOption with
    | none => exact ⟨rfl, hbound⟩
    | some program => exact hprogram program
  | loadRom program =>
    rw [perform]
    by_cases h : program.length ≤ memory.size
    · rw [loadRom_of_le h]
      exact ⟨size_overlay h, h⟩
    · rw [loadRom_of_lt (Nat.lt_of_not_le h)]
      exact ⟨rfl, Nat.zero_le _⟩

-- A program keeps the boundary, and covers as much of the ROM as it is long.
theorem rom_loadProgram (hbound : memory.romEnd ≤ memory.size) (program : List Word) :
    (memory.loadProgram program).1.rom = overlaid memory.size memory.rom program := by
  rw [overlaid]
  by_cases h : program.length ≤ memory.size
  · rw [loadProgram_of_le h, if_pos h, length_rom hbound, rom, toList_overlay, List.take_append,
      ← List.drop_take]
    rfl
  · rw [loadProgram_of_lt (Nat.lt_of_not_le h), if_neg h]

theorem rom_perform (hbound : memory.romEnd ≤ memory.size) (event : Event) :
    (memory.perform event).rom = romAfter memory.size memory.rom event := by
  cases event with
  | write address value => exact memory.rom_write address value
  | loadProgram program => exact rom_loadProgram hbound program
  | loadBytes bytes =>
    rw [perform, loadBytes_eq, romAfter]
    cases (Words.ofBytes bytes).toOption with
    | none => rfl
    | some program => exact rom_loadProgram hbound program
  | loadRom program =>
    rw [perform, romAfter]
    by_cases h : program.length ≤ memory.size
    · rw [loadRom_of_le h, if_pos h, rom, toList_overlay, List.take_left]
    · rw [loadRom_of_lt (Nat.lt_of_not_le h), if_neg h]
      rfl

theorem overlaid_eq_self_iff : overlaid size rom program = rom ↔ Matches size rom program := by
  rw [overlaid, Matches]
  by_cases hsize : program.length ≤ size
  · have hcovered : program.take rom.length ++ rom.drop program.length = rom ↔
        program.take rom.length = rom.take program.length := by
      have hsplit := List.take_append_drop program.length rom
      exact ⟨fun h => List.append_cancel_right (h.trans hsplit.symm), fun h => by rw [h, hsplit]⟩
    rw [if_pos hsize, hcovered, or_iff_right (Nat.not_lt.2 hsize)]
    rcases Nat.le_total program.length rom.length with h | h
    · rw [List.take_of_length_le h, ← List.prefix_iff_eq_take]
      refine ⟨.inl, ?_⟩
      rintro (hprogram | hrom)
      · exact hprogram
      · exact hrom.eq_of_length_le h ▸ List.prefix_rfl
    · rw [List.take_of_length_le (l := rom) h, eq_comm, ← List.prefix_iff_eq_take]
      refine ⟨.inr, ?_⟩
      rintro (hprogram | hrom)
      · exact hprogram.eq_of_length_le h ▸ List.prefix_rfl
      · exact hrom
  · rw [if_neg hsize]
    exact iff_of_true rfl (.inl (Nat.lt_of_not_le hsize))

theorem romAfter_eq_self_iff : romAfter size rom event = rom ↔ event.Spares size rom := by
  cases event with
  | write address value => exact iff_of_true rfl trivial
  | loadProgram program => exact overlaid_eq_self_iff
  | loadBytes bytes =>
    rw [romAfter, Event.Spares]
    cases Words.ofBytes bytes with
    | error e => exact iff_of_true rfl fun _ h => by cases h
    | ok program => simpa [Except.toOption] using overlaid_eq_self_iff
  | loadRom program =>
    rw [romAfter, Event.Spares]
    split
    · rfl
    · exact eq_comm

/-! ### Sequences of events -/

theorem romEnd_le_size_performAll (hbound : memory.romEnd ≤ memory.size) (events : List Event) :
    (memory.performAll events).size = memory.size ∧
      (memory.performAll events).romEnd ≤ memory.size := by
  induction events generalizing memory with
  | nil => exact ⟨rfl, hbound⟩
  | cons event rest ih =>
    obtain ⟨hsize, hromEnd⟩ := romEnd_le_size_perform hbound event
    have hrest := ih (hsize.symm ▸ hromEnd)
    rwa [hsize] at hrest

theorem rom_foldl_performAll (hbound : memory.romEnd ≤ memory.size) (events : List Event) :
    (memory.performAll events).rom = events.foldl (romAfter memory.size) memory.rom := by
  induction events generalizing memory with
  | nil => rfl
  | cons event rest ih =>
    obtain ⟨hsize, hromEnd⟩ := romEnd_le_size_perform hbound event
    have hrest := ih (hsize.symm ▸ hromEnd)
    rwa [hsize, rom_perform hbound] at hrest

theorem foldl_romAfter_of_spares {events : List Event}
    (h : ∀ event ∈ events, event.Spares size rom) : events.foldl (romAfter size) rom = rom := by
  induction events with
  | nil => rfl
  | cons event rest ih =>
    obtain ⟨hevent, hrest⟩ := List.forall_mem_cons.1 h
    rw [List.foldl_cons, romAfter_eq_self_iff.2 hevent, ih hrest]

-- The ROM always lies within the memory. It is as the last event left it, which changes it unless it
-- spares its words: so it holds the words of the last ROM loaded, until a load covers some of them
-- with different words or another ROM does not fit.
theorem rom_performAll (hbound : memory.romEnd ≤ memory.size) (events : List Event) :
    let after := memory.performAll events
    after.size = memory.size ∧ after.romEnd ≤ memory.size ∧
      after.rom = events.foldl (romAfter memory.size) memory.rom ∧
      (∀ event, (after.perform event).rom = after.rom ↔ event.Spares memory.size after.rom) ∧
      ∀ program later, program.length ≤ memory.size →
        (∀ event ∈ later, event.Spares memory.size program) →
        ((after.perform (.loadRom program)).performAll later).rom = program := by
  intro after
  obtain ⟨hsize, hromEnd⟩ := romEnd_le_size_performAll hbound events
  have hafter : after.romEnd ≤ after.size := hsize.symm ▸ hromEnd
  refine ⟨hsize, hromEnd, rom_foldl_performAll hbound events, fun event => ?_, ?_⟩
  · rw [rom_perform hafter, hsize, romAfter_eq_self_iff]
  · intro program later hprogram hlater
    obtain ⟨hloaded, hloadedEnd⟩ := romEnd_le_size_perform hafter (.loadRom program)
    have hrom : (after.perform (.loadRom program)).rom = program := by
      rw [rom_perform hafter, romAfter, hsize, if_pos hprogram]
    rw [rom_foldl_performAll (hloaded.symm ▸ hloadedEnd), hrom, hloaded, hsize,
      foldl_romAfter_of_spares hlater]

-- A ROM of three words under a write to an address that wraps around to it, a load of the same words
-- and two more, a load of bytes that are not whole words, and at last a program that it is lost to.
theorem rom_performAll_three_words :
    let memory : Memory := ⟨8, .replicate 256 0, 0⟩
    let later : List Event := [.write 0x0101 9, .loadProgram [1, 2, 3, 4, 5], .loadBytes [7]]
    let after := (memory.perform (.loadRom [1, 2, 3])).performAll later
    memory.romEnd ≤ memory.size ∧ after.rom = [1, 2, 3] ∧
      (after.perform (.loadProgram [9])).rom ≠ [1, 2, 3] := by
  intro memory later after
  have hbound : memory.romEnd ≤ memory.size := Nat.zero_le _
  have hsize : memory.size = 256 := Array.size_replicate
  have hspares : ∀ event ∈ later, event.Spares memory.size [1, 2, 3] := by
    simp [later, Event.Spares, Matches, Words.ofBytes]
  have hrom : after.rom = [1, 2, 3] :=
    (rom_performAll hbound []).2.2.2.2 [1, 2, 3] later (by simp [hsize]) hspares
  obtain ⟨hloaded, hloadedEnd⟩ := romEnd_le_size_perform hbound (.loadRom [1, 2, 3])
  have hchanges := (rom_performAll (hloaded.symm ▸ hloadedEnd) later).2.2.2.1 (.loadProgram [9])
  rw [hrom, hloaded, hsize] at hchanges
  have hlost : ¬Event.Spares 256 [1, 2, 3] (.loadProgram [9]) := by simp [Event.Spares, Matches]
  exact ⟨hbound, hrom, mt hchanges.1 hlost⟩

-- A program that is loaded over a ROM.
theorem rom_not_kept :
    ¬∀ (memory : Memory) (program : List Word) (later : List Event),
      memory.romEnd ≤ memory.size → program.length ≤ memory.size →
      (∀ other, .loadRom other ∈ later → memory.size < other.length) →
      ((memory.perform (.loadRom program)).performAll later).rom = program := by
  intro h
  let memory : Memory := ⟨8, .replicate 256 0, 0⟩
  have hbound : memory.romEnd ≤ memory.size := Nat.zero_le _
  have hsize : memory.size = 256 := Array.size_replicate
  have hkept := h memory [1, 2, 3] [.loadProgram [9]] hbound (by simp [hsize]) (by simp)
  obtain ⟨hloaded, hloadedEnd⟩ := romEnd_le_size_perform hbound (.loadRom [1, 2, 3])
  rw [rom_foldl_performAll (hloaded.symm ▸ hloadedEnd), rom_perform hbound, hloaded, hsize] at hkept
  simp [romAfter, overlaid] at hkept

end MicroCisc.Memory
