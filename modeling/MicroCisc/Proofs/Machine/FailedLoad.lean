import MicroCisc.Proofs.Machine.Load

namespace MicroCisc

namespace Words

-- The bytes of words, high byte first.
def toBytes (words : List Word) : List UInt8 :=
  words.flatMap fun word => [word.high, word.low]

theorem toBytes_cons (word : Word) (rest : List Word) :
    toBytes (word :: rest) = word.high :: word.low :: toBytes rest :=
  rfl

theorem length_toBytes (words : List Word) : (toBytes words).length = 2 * words.length := by
  induction words with
  | nil => rfl
  | cons word rest ih =>
    rw [toBytes_cons, List.length_cons, List.length_cons, ih, List.length_cons]
    omega

theorem toBytes_inj {words words' : List Word} (h : toBytes words = toBytes words') :
    words = words' := by
  induction words generalizing words' with
  | nil =>
    cases words' with
    | nil => rfl
    | cons word' rest' => cases h
  | cons word rest ih =>
    cases words' with
    | nil => cases h
    | cons word' rest' =>
      simp only [toBytes_cons, List.cons.injEq] at h
      obtain ⟨hhigh, hlow, hrest⟩ := h
      rw [← Word.ofBytes_high_low word, ← Word.ofBytes_high_low word', hhigh, hlow, ih hrest]

-- By induction on how many pairs are taken.
theorem toBytes_pairBytes {bytes : List UInt8} (heven : bytes.length % 2 = 0) :
    toBytes (pairBytes bytes) = bytes := by
  have htake (count : Nat) (hcount : 2 * count ≤ bytes.length) :
      toBytes ((List.range count).map fun i =>
        .ofBytes (bytes.toArray.getD (2 * i) 0) (bytes.toArray.getD (2 * i + 1) 0)) =
        bytes.take (2 * count) := by
    induction count with
    | zero => rfl
    | succ count ih =>
      have hfirst : 2 * count < bytes.length := by omega
      have hsecond : 2 * count + 1 < bytes.length := by omega
      have htwo : 2 * (count + 1) = 2 * count + 1 + 1 := by omega
      have hbefore := ih (by omega)
      rw [toBytes] at hbefore
      have hpair : bytes.take (2 * count) ++ [bytes[2 * count], bytes[2 * count + 1]] =
          bytes.take (2 * (count + 1)) := by
        rw [htwo, List.take_succ_eq_append_getElem hsecond, List.take_succ_eq_append_getElem hfirst,
          List.append_assoc]
        rfl
      rw [List.range_succ, List.map_append, toBytes, List.flatMap_append, hbefore, ← hpair]
      simp [Word.high_ofBytes, Word.low_ofBytes, hfirst, hsecond]
  have hall := htake (bytes.length / 2) (by omega)
  rwa [List.take_of_length_le (by omega)] at hall

-- Bytes are read as the words that they are the bytes of.
theorem ofBytes_eq_ok_iff {bytes : List UInt8} {words : List Word} :
    ofBytes bytes = .ok words ↔ toBytes words = bytes := by
  unfold ofBytes
  constructor
  · intro h
    split at h
    · next heven =>
      cases h
      exact toBytes_pairBytes (beq_iff_eq.1 heven)
    · cases h
  · rintro rfl
    have heven : (toBytes words).length % 2 = 0 := by
      rw [length_toBytes]
      omega
    rw [heven, beq_self_eq_true, if_pos rfl, toBytes_inj (toBytes_pairBytes heven)]

end Words

namespace Memory

variable (memory : Memory) (program : List Word) (bytes : List UInt8)

theorem isSome_loadProgram :
    (memory.loadProgram program).2.isSome = true ↔ memory.size < program.length := by
  rw [snd_loadProgram]
  split
  · next hfits => exact iff_of_false Bool.false_ne_true (Nat.not_lt.2 hfits)
  · next hlong => exact iff_of_true rfl (Nat.lt_of_not_le hlong)

theorem isSome_loadRom :
    (memory.loadRom program).2.isSome = true ↔ memory.size < program.length := by
  rw [snd_loadRom, isSome_loadProgram]

theorem loadBytes_toBytes : memory.loadBytes (Words.toBytes program) = memory.loadProgram program := by
  rw [loadBytes, Words.ofBytes_eq_ok_iff.2 rfl]

theorem loadBytes_of_odd (hodd : bytes.length % 2 = 1) :
    memory.loadBytes bytes = (memory, some (.oddByteCount bytes.length)) := by
  rw [loadBytes, Words.ofBytes, hodd]
  rfl

theorem isSome_loadBytes :
    (memory.loadBytes bytes).2.isSome = true ↔
      bytes.length % 2 = 1 ∨ memory.size < bytes.length / 2 := by
  rcases Nat.mod_two_eq_zero_or_one bytes.length with heven | hodd
  · have hlength := Words.length_pairBytes bytes
    rw [← Words.toBytes_pairBytes heven, loadBytes_toBytes, isSome_loadProgram,
      Words.toBytes_pairBytes heven, hlength, heven, or_iff_right Nat.zero_ne_one]
  · rw [loadBytes_of_odd memory bytes hodd]
    exact iff_of_true rfl (.inl hodd)

theorem loadBytes_of_isSome (h : (memory.loadBytes bytes).2.isSome = true) :
    (memory.loadBytes bytes).1 = memory := by
  rcases Nat.mod_two_eq_zero_or_one bytes.length with heven | hodd
  · rw [← Words.toBytes_pairBytes heven, loadBytes_toBytes] at h ⊢
    exact loadProgram_of_lt ((memory.isSome_loadProgram _).1 h)
  · rw [loadBytes_of_odd memory bytes hodd]

theorem without_rom_eq_iff : { memory with romEnd := 0 } = memory ↔ memory.romEnd = 0 := by
  constructor
  · intro h
    rw [← h]
  · intro h
    rw [← h]

end Memory

namespace Machine

-- A machine whose memory has no ROM.
def withoutRom (machine : Machine) : Machine :=
  { machine with
    cpu := machine.cpu.mapDevice fun device =>
      { device with memory := { device.memory with romEnd := 0 } } }

variable (machine : Machine) (program : Program)

theorem isSome_load :
    (machine.load program).2.isSome = true ↔ machine.cpu.memory.size < program.words.length := by
  rw [load_eq]
  split
  · next hfits => exact iff_of_false Bool.false_ne_true (Nat.not_lt.2 hfits)
  · next hlong => exact iff_of_true rfl (Nat.lt_of_not_le hlong)

theorem load_of_lt (h : machine.cpu.memory.size < program.words.length) :
    (machine.load program).1 = if machine.rom then machine.withoutRom else machine := by
  have hloaded : (machine.loaded program).1 =
      if machine.rom then { machine.cpu.memory with romEnd := 0 } else machine.cpu.memory := by
    unfold loaded
    split
    · exact Memory.loadRom_of_lt h
    · exact Memory.loadProgram_of_lt h
  rw [load_eq, if_neg (Nat.not_le_of_lt h), loadedCpu, hloaded]
  split <;> rfl

theorem withoutRom_eq_self_iff : machine.withoutRom = machine ↔ machine.cpu.memory.romEnd = 0 := by
  constructor
  · intro h
    exact congrArg (fun machine : Machine => machine.cpu.memory.romEnd) h.symm
  · intro h
    have hmemory := machine.cpu.memory.without_rom_eq_iff.2 h
    show { machine with cpu := { machine.cpu with device := { machine.cpu.device with
      memory := { machine.cpu.memory with romEnd := 0 } } } } = machine
    rw [hmemory]
    rfl

-- When loads fail, and what they leave then. All words, the size and the registers are as they were,
-- and but for loads as a ROM the boundary of the ROM is. Those keep it only where it is zero.
theorem failed_load_keeps (memory : Memory) (words : List Word) (bytes : List UInt8)
    (machine : Machine) (program : Program) :
    ((memory.loadProgram words).2.isSome = true ↔ memory.size < words.length) ∧
    ((memory.loadRom words).2.isSome = true ↔ memory.size < words.length) ∧
    (memory.size < words.length →
      (memory.loadProgram words).1 = memory ∧
      (memory.loadRom words).1 = { memory with romEnd := 0 } ∧
      ((memory.loadRom words).1 = memory ↔ memory.romEnd = 0)) ∧
    ((memory.loadBytes bytes).2.isSome = true ↔
      bytes.length % 2 = 1 ∨ memory.size < bytes.length / 2) ∧
    ((memory.loadBytes bytes).2.isSome = true → (memory.loadBytes bytes).1 = memory) ∧
    (bytes.length % 2 = 0 → ∃ words, Words.toBytes words = bytes ∧
      memory.loadBytes bytes = memory.loadProgram words) ∧
    ((machine.load program).2.isSome = true ↔
      machine.cpu.memory.size < program.words.length) ∧
    ((machine.load program).2.isSome = true →
      (machine.load program).1 = (if machine.rom then machine.withoutRom else machine) ∧
      ((machine.load program).1 = machine ↔
        (machine.rom = true → machine.cpu.memory.romEnd = 0))) := by
  refine ⟨memory.isSome_loadProgram words, memory.isSome_loadRom words, fun hlong => ?_,
    memory.isSome_loadBytes bytes, memory.loadBytes_of_isSome bytes, fun heven => ?_,
    machine.isSome_load program, fun hfails => ?_⟩
  · have hrom := Memory.loadRom_of_lt hlong
    refine ⟨Memory.loadProgram_of_lt hlong, hrom, ?_⟩
    rw [hrom]
    exact memory.without_rom_eq_iff
  · have hbytes := Words.toBytes_pairBytes heven
    refine ⟨Words.pairBytes bytes, hbytes, ?_⟩
    rw [← memory.loadBytes_toBytes, hbytes]
  · have hload := machine.load_of_lt program ((machine.isSome_load program).1 hfails)
    refine ⟨hload, ?_⟩
    rw [hload]
    cases hrom : machine.rom with
    | true => simpa using machine.withoutRom_eq_self_iff
    | false => simp

-- A ROM of three words under a program of one word too many and under bytes that are not whole
-- words, and in a machine that loads programs as a ROM.
theorem failed_load_keeps_too_long :
    let memory : Memory := ⟨8, .replicate 256 7, 3⟩
    let words : List Word := .replicate 257 0
    let machine : Machine :=
      { cpu :=
          { device := ⟨1, .initial, memory, .initial, false⟩
            bus := [], state := .running, cycles := 0, nanosPerInstruction := 100, last := none }
        serialLines := [], terminals := [], maxCycles := none, startPc := 0, rom := true }
    memory.size < words.length ∧ (memory.loadProgram words).1 = memory ∧
      (memory.loadRom words).1 = ⟨8, memory.words, 0⟩ ∧
      (memory.loadBytes [1, 2, 3]).2.isSome = true ∧ (memory.loadBytes [1, 2, 3]).1 = memory ∧
      (machine.load (.ofWords words)).2.isSome = true ∧
      (machine.load (.ofWords words)).1 = machine.withoutRom := by
  intro memory words machine
  have hlong : memory.size < words.length := by decide +kernel
  obtain ⟨-, -, hwords, hbytes, hkept, -, hload, hmachine⟩ :=
    failed_load_keeps memory words [1, 2, 3] machine (.ofWords words)
  obtain ⟨hprogram, hrom, -⟩ := hwords hlong
  have hodd := hbytes.2 (.inl rfl)
  have hfails := hload.2 hlong
  exact ⟨hlong, hprogram, hrom, hodd, hkept hodd, hfails, (hmachine hfails).1⟩

-- The same ROM under the same program, loaded as a ROM.
theorem rom_lost_by_failed_load :
    ¬∀ (memory : Memory) (program : List Word), (memory.loadRom program).2.isSome = true →
      (memory.loadRom program).1.words = memory.words ∧
        (memory.loadRom program).1.romEnd = memory.romEnd := by
  intro h
  let memory : Memory := ⟨8, .replicate 256 7, 3⟩
  let program : List Word := .replicate 257 0
  have hlong : memory.size < program.length := by decide +kernel
  have hkept := (h memory program ((memory.isSome_loadRom program).2 hlong)).2
  rw [Memory.loadRom_of_lt hlong] at hkept
  cases hkept

end Machine

end MicroCisc
