import MicroCisc.Proofs.Device.EveryKind
import MicroCisc.Proofs.Device.Noninterference
import MicroCisc.Proofs.Faults.Basic

namespace MicroCisc

namespace Terminal

/-! ### The loop -/

-- Prints one word after the other and stops before `finish`. `fuel` bounds how often it looks where it
-- is.
def drainWords (memory : Memory) (finish : UInt8) :
    Nat → UInt8 → List UInt8 → Checked (UInt8 × List UInt8)
  | 0, _, _ => throw .endless
  | fuel + 1, start, chunk =>
      if start = finish then return (start, chunk)
      else drainWords memory finish fuel (start + 1)
        (chunk ++ characters (memory.read start.toUInt16))

-- A terminal without memory forgets what it was to print.
def tickByWords (display : Terminal) (memory : Memory) (fuel : Nat) : Checked Terminal :=
  if memory.size = 0 then return { display with start := display.finish }
  else do
    let (start, chunk) ← drainWords memory display.finish fuel display.start []
    return { display with start, printed := display.printed ++ chunk }

-- The number of words to print, modulo 256.
def count (display : Terminal) : Nat :=
  (256 + display.finish.toNat - display.start.toNat) % 256

-- The bytes of a word that are not zero, the high one first.
def bytesOf (w : Word) : List UInt8 :=
  [.ofNat (w.toNat / 256), .ofNat (w.toNat % 256)].filter (· ≠ 0)

-- What is to be printed: the words from `start` on, of which word 0 follows word 255.
def output (display : Terminal) (memory : Memory) : List UInt8 :=
  (List.range display.count).flatMap fun i =>
    bytesOf (memory.read (.ofNat ((display.start.toNat + i) % 256)))

theorem characters_eq (w : Word) : characters w = bytesOf w := by
  have hhigh : w.high = .ofNat (w.toNat / 256) := by
    rw [← Word.toNat_high, UInt8.ofNat_toNat]
  have hlow : w.low = .ofNat (w.toNat % 256) := by
    rw [← Word.toNat_low, UInt8.ofNat_toNat]
  rw [characters, hhigh, hlow, bytesOf]
  exact List.filter_congr fun byte _ => Bool.eq_iff_iff.2 (by simp)

theorem count_eq (display : Terminal) : display.count = (display.finish - display.start).toNat := by
  have hfinish := display.finish.toNat_lt
  have hstart := display.start.toNat_lt
  rw [count, UInt8.toNat_sub]
  omega

theorem toUInt16_add_ofNat (start : UInt8) (i : Nat) :
    (start + .ofNat i).toUInt16 = .ofNat ((start.toNat + i) % 256) := by
  rw [← UInt16.toNat_inj, UInt8.toNat_toUInt16, UInt8.toNat_add, UInt8.toNat_ofNat',
    UInt16.toNat_ofNat']
  omega

-- The terminal after it has printed a word.
def next (display : Terminal) : Terminal :=
  { display with start := display.start + 1 }

theorem count_of_eq {display : Terminal} (h : display.start = display.finish) :
    display.count = 0 := by
  rw [count_eq, h, UInt8.sub_self]
  rfl

-- At 255 as elsewhere, the next word is one word nearer to the end.
theorem count_of_ne {display : Terminal} (h : display.start ≠ display.finish) :
    display.count = display.next.count + 1 := by
  have hfinish := display.finish.toNat_lt
  have hstart := display.start.toNat_lt
  have hne : display.start.toNat ≠ display.finish.toNat := fun heq => h (UInt8.toNat_inj.1 heq)
  have hnext : display.next.start.toNat = (display.start.toNat + 1) % 256 := UInt8.toNat_add _ _
  have hsame : display.next.finish = display.finish := rfl
  rw [count, count, hnext, hsame]
  omega

theorem output_of_eq {display : Terminal} (h : display.start = display.finish) (memory : Memory) :
    display.output memory = [] := by
  rw [output, count_of_eq h]
  rfl

theorem output_of_ne {display : Terminal} (h : display.start ≠ display.finish) (memory : Memory) :
    display.output memory =
      characters (memory.read display.start.toUInt16) ++ display.next.output memory := by
  have hplace (i : Nat) : (display.start.toNat + (i + 1)) % 256 =
      (display.next.start.toNat + i) % 256 := by
    have hnext : display.next.start.toNat = (display.start.toNat + 1) % 256 := UInt8.toNat_add _ _
    omega
  have hfirst : display.start.toUInt16 = .ofNat ((display.start.toNat + 0) % 256) := by
    rw [← toUInt16_add_ofNat]
    exact congrArg UInt8.toUInt16 (UInt8.add_zero _).symm
  rw [output, output, count_of_ne h, List.range_succ_eq_map, List.flatMap_cons, List.flatMap_map,
    characters_eq, hfirst]
  simp only [Nat.succ_eq_add_one, hplace]

theorem flatMap_text (display : Terminal) (memory : Memory) :
    (display.text memory).flatMap characters = display.output memory := by
  simp only [text, output, List.flatMap_map, count_eq, characters_eq, toUInt16_add_ofNat]

theorem tick_eq (display : Terminal) (memory : Memory) :
    display.tick memory =
      { display with
        start := display.finish
        printed := display.printed ++ display.output memory } := by
  unfold tick
  split
  · next h =>
    have hstart : display.start = display.finish := beq_iff_eq.1 h
    rw [output_of_eq hstart, Array.appendList_nil]
    exact congrArg (fun start => { display with start }) hstart
  · rw [flatMap_text]

theorem output_of_size_eq_zero (display : Terminal) {memory : Memory} (h : memory.size = 0) :
    display.output memory = [] := by
  have hread (address : Word) : memory.read address = 0 := by
    have hwords : memory.words = #[] := Array.eq_empty_of_size_eq_zero h
    simp [Memory.read, hwords]
  simp [output, hread, bytesOf]

-- The loop ends after as many words as there are to print, and not before.
theorem drainWords_eq (memory : Memory) (display : Terminal) (chunk : List UInt8) (fuel : Nat) :
    drainWords memory display.finish fuel display.start chunk =
      if display.count < fuel then pure (display.finish, chunk ++ display.output memory)
      else throw .endless := by
  induction fuel generalizing display chunk with
  | zero => exact (if_neg (Nat.not_lt_zero _)).symm
  | succ fuel ih =>
    rw [drainWords]
    split
    · next h =>
      rw [count_of_eq h, if_pos (Nat.succ_pos _), output_of_eq h, List.append_nil, h]
    · next h =>
      rw [count_of_ne h, output_of_ne h, ← List.append_assoc]
      have hrest := ih display.next (chunk ++ characters (memory.read display.start.toUInt16))
      simp only [Nat.add_lt_add_iff_right]
      exact hrest

theorem tickByWords_eq (display : Terminal) {memory : Memory} (h : 0 < memory.size) (fuel : Nat) :
    display.tickByWords memory fuel =
      if display.count < fuel then pure (display.tick memory) else throw .endless := by
  rw [tickByWords, if_neg (Nat.ne_of_gt h), drainWords_eq, tick_eq]
  split
  · rfl
  · rfl

theorem tickByWords_of_size_eq_zero (display : Terminal) {memory : Memory} (h : memory.size = 0)
    (fuel : Nat) : display.tickByWords memory fuel = pure (display.tick memory) := by
  rw [tickByWords, if_pos h, tick_eq, output_of_size_eq_zero display h, Array.appendList_nil]

end Terminal

/-! ### The device -/

namespace Kind

-- Is this a terminal of which the host has not yet taken these bytes?
def HasPrinted (bytes : Array UInt8) : Kind → Prop
  | .terminal display => display.printed = bytes
  | _ => False

theorem lasting_hasPrinted (bytes : Array UInt8) : Lasting (HasPrinted bytes) where
  receive {kind} h := by
    cases kind with
    | terminal display => exact h
    | processor | memory | serial | leds => exact h.elim
  writeSlot {kind} slot value h := by
    cases kind with
    | terminal display =>
      simp only [writeSlot, Terminal.writeSlot]
      split <;> exact h
    | processor | memory | serial | leds => exact h.elim

theorem HasPrinted.exists_eq {bytes : Array UInt8} {kind : Kind} (h : kind.HasPrinted bytes) :
    ∃ display, kind = .terminal display ∧ display.printed = bytes := by
  cases kind with
  | terminal display => exact ⟨display, rfl, h⟩
  | processor | memory | serial | leds => exact h.elim

-- What a tick prints, if it is a terminal's.
def output (kind : Kind) (memory : Memory) : List UInt8 :=
  match kind with
  | .terminal display => display.output memory
  | _ => []

end Kind

theorem Device.kind_answer {p : Kind → Prop} (hp : Kind.Lasting p) {device : Device Kind}
    (h : p device.kind) (call : Call) : p (device.answer call).2.kind := by
  cases call with
  | readSlot source slot access => exact kind_readSlot hp h source slot access
  | writeSlot source slot value => exact kind_writeSlot hp h source slot value
  | readBlock source offset => exact h
  | writeBlock source offset value =>
    rw [answer, kind_writeBlock]
    exact h

namespace Terminal

-- A device with all that the host has taken from it, and all that its ticks were to print.
structure Journal where
  device : Device Kind
  taken : List UInt8
  output : List UInt8

-- What happens to a terminal: its slots and its blocks are read and written, by whatever source, its
-- memory is written or loaded in other ways, time passes, and the host takes what has been printed.
inductive Event where
  | call (call : Device.Call)
  | writeLocal (address value : Word)
  | load (loader : Memory → Memory.LoadResult)
  | tick (nanos : Nat)
  | take

namespace Journal

def start (device : Device Kind) : Journal :=
  ⟨device, [], []⟩

def handle (journal : Journal) : Event → Journal
  | .call call => { journal with device := (journal.device.answer call).2 }
  | .writeLocal address value =>
      { journal with device := journal.device.writeLocal address value }
  | .load loader => { journal with device := (journal.device.load loader).1 }
  | .tick nanos =>
      { journal with
        device := journal.device.tick nanos
        output := journal.output ++ journal.device.kind.output journal.device.memory }
  | .take =>
      let (bytes, kind) := journal.device.kind.take
      { journal with
        device := { journal.device with kind }
        taken := journal.taken ++ (bytes.getD #[]).toList }

def handleAll (journal : Journal) (events : List Event) : Journal :=
  events.foldl handle journal

-- What was there in the beginning and what the ticks have printed since is what the host has taken and
-- what it can still take.
def Accounts (journal : Journal) (before : List UInt8) : Prop :=
  ∃ bytes, journal.device.kind.HasPrinted bytes ∧
    journal.taken ++ bytes.toList = before ++ journal.output

variable {journal : Journal} {before : List UInt8}

theorem Accounts.handle (h : journal.Accounts before) (event : Event) :
    (journal.handle event).Accounts before := by
  obtain ⟨bytes, hprinted, haccount⟩ := h
  cases event with
  | call call =>
    exact ⟨bytes, Device.kind_answer (Kind.lasting_hasPrinted bytes) hprinted call, haccount⟩
  | writeLocal address value => exact ⟨bytes, hprinted, haccount⟩
  | load loader => exact ⟨bytes, hprinted, haccount⟩
  | tick nanos =>
    obtain ⟨display, hkind, rfl⟩ := hprinted.exists_eq
    refine ⟨display.printed ++ display.output journal.device.memory, ?_, ?_⟩
    · simp only [Journal.handle, Device.tick, hkind]
      exact congrArg Terminal.printed (display.tick_eq journal.device.memory)
    · simp only [Journal.handle, hkind, Kind.output, Array.toList_appendList,
        ← List.append_assoc, haccount]
  | take =>
    obtain ⟨display, hkind, rfl⟩ := hprinted.exists_eq
    simp only [Accounts, Journal.handle, hkind, Kind.take, Terminal.take]
    exact ⟨#[], rfl, by simpa using haccount⟩

theorem Accounts.handleAll (h : journal.Accounts before) (events : List Event) :
    (journal.handleAll events).Accounts before := by
  induction events generalizing journal with
  | nil => exact h
  | cons event rest ih => exact ih (h.handle event)

end Journal

-- What a tick does to a terminal. With memory it comes to its end after as many words as there are to
-- print, has printed them and changes nothing else, and without memory it only moves on.
structure Ticks (device : Device Kind) (display : Terminal) : Prop where
  loop : 0 < device.memory.size → ∀ fuel,
    display.tickByWords device.memory fuel =
      if display.count < fuel then pure (display.tick device.memory) else throw .endless
  prints : 0 < device.memory.size → ∀ nanos,
    device.tick nanos =
      { device with
        kind := .terminal { display with
          start := display.finish
          printed := display.printed ++ display.output device.memory } }
  noLoop : device.memory.size = 0 → ∀ fuel,
    display.tickByWords device.memory fuel = pure (display.tick device.memory)
  skips : device.memory.size = 0 → ∀ nanos,
    device.tick nanos = { device with kind := .terminal { display with start := display.finish } }

theorem ticks {device : Device Kind} {display : Terminal} (h : device.kind = .terminal display) :
    Ticks device display := by
  have htick (nanos : Nat) : device.tick nanos =
      { device with
        kind := .terminal { display with
          start := display.finish
          printed := display.printed ++ display.output device.memory } } := by
    simp only [Device.tick, Behavior.tick, h, Kind.tick, tick_eq]
  constructor
  · exact fun hsize => display.tickByWords_eq hsize
  · exact fun _ => htick
  · exact fun hsize => display.tickByWords_of_size_eq_zero hsize
  · intro hsize nanos
    rw [htick, output_of_size_eq_zero display hsize, Array.appendList_nil]

-- Whatever is done to a terminal, its slots and its memory, and whenever time passes, each tick prints
-- the words from the start to the end of the text in order, and no other. And wherever the host takes
-- what has been printed, it has taken, together with what is left, all that the ticks have printed,
-- once and in order.
theorem prints_once_in_order {device : Device Kind} {display : Terminal}
    (hkind : device.kind = .terminal display) (events : List Event) :
    let journal := (Journal.start device).handleAll events
    ∃ left, journal.device.kind = .terminal left ∧ Ticks journal.device left ∧
      journal.taken ++ left.printed.toList = display.printed.toList ++ journal.output := by
  intro journal
  have hstart : (Journal.start device).Accounts display.printed.toList := by
    refine ⟨display.printed, ?_, ?_⟩
    · rw [Journal.start, hkind]
      exact rfl
    · exact (List.append_nil _).symm
  obtain ⟨bytes, hprinted, haccount⟩ := hstart.handleAll events
  obtain ⟨left, hleft, rfl⟩ := hprinted.exists_eq
  exact ⟨left, hleft, ticks hleft, haccount⟩

-- A text that goes on from word 255 at word 0, printed in two parts, of which the host takes the first.
theorem prints_once_in_order_wrapped :
    let device : Device Kind :=
      { id := 2, kind := .terminal .initial, memory := ⟨8, .replicate 256 0x6162, 0⟩
        control := ⟨16, 1, 0, 0, 0⟩, halted := true }
    let events : List Event :=
      [.call (.writeBlock 1 0 0x6300), .call (.writeSlot 1 6 254), .call (.writeSlot 1 7 1),
        .tick 100, .take, .writeLocal 1 0x0064, .call (.writeSlot 1 7 2), .tick 100]
    let journal := (Journal.start device).handleAll events
    device.kind = .terminal .initial ∧
      journal.output = [97, 98, 97, 98, 99, 100] ∧
      ∃ left, journal.device.kind = .terminal left ∧
        journal.taken ++ left.printed.toList = journal.output := by
  intro device events journal
  have hkind : device.kind = .terminal .initial := rfl
  obtain ⟨left, hleft, -, haccount⟩ := prints_once_in_order hkind events
  exact ⟨hkind, by decide +kernel, left, hleft, haccount⟩

end Terminal

end MicroCisc
