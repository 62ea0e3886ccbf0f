import MicroCisc.Words

namespace MicroCisc

structure Memory where
  width : UInt8
  words : Array Word
  romEnd : Nat
  deriving DecidableEq, Repr

namespace Memory

def ofWidth (width : UInt8) : Except DeviceError Memory :=
  if width == 0 then .ok ⟨width, #[], 0⟩
  else if 8 ≤ width && width ≤ 16 then .ok ⟨width, .replicate (Nat.pow 2 width.toNat) 0, 0⟩
  else .error (.addressWidth width)

def size (memory : Memory) : Nat :=
  memory.words.size

def index (memory : Memory) (address : Word) : Nat :=
  address.toNat % memory.size

-- A memory without words reads as zero.
def read (memory : Memory) (address : Word) : Word :=
  memory.words.getD (memory.index address) 0

def write (memory : Memory) (address value : Word) : Memory :=
  let index := memory.index address
  if memory.romEnd ≤ index then
    { memory with words := memory.words.setIfInBounds index value }
  else memory

def overlay (memory : Memory) (program : List Word) : Array Word :=
  program.toArray ++ memory.words.extract program.length memory.size

abbrev LoadResult := Memory × Option DeviceError

def loadProgram (memory : Memory) (program : List Word) : LoadResult :=
  if program.length ≤ memory.size then
    ({ memory with words := memory.overlay program }, none)
  else (memory, some (.programTooLarge program.length memory.size))

-- Gives up the old boot ROM first, whether or not the new one fits.
def loadRom (memory : Memory) (program : List Word) : LoadResult :=
  match ({ memory with romEnd := 0 } : Memory).loadProgram program with
  | (loaded, none) => ({ loaded with romEnd := program.length }, none)
  | failed => failed

def loadBytes (memory : Memory) (bytes : List UInt8) : LoadResult :=
  match Words.ofBytes bytes with
  | .ok program => memory.loadProgram program
  | .error e => (memory, some e)

def describe (memory : Memory) : String :=
  let nonZero := memory.words.countP (· != 0)
  s!"Memory \x7b width: {memory.width}, non_zero_cells: {nonZero}, rom_end: {memory.romEnd} \x7d"

variable (memory : Memory)

theorem size_write (address value : Word) : (memory.write address value).size = memory.size := by
  simp only [write, size]
  split <;> simp

theorem romEnd_write (address value : Word) :
    (memory.write address value).romEnd = memory.romEnd := by
  simp only [write]
  split <;> rfl

theorem index_write (address value other : Word) :
    (memory.write address value).index other = memory.index other := by
  simp only [index, size_write]

theorem index_lt (h : 0 < memory.size) (address : Word) : memory.index address < memory.size :=
  Nat.mod_lt _ h

-- A write is seen at the addresses that fall on the same word, unless that word is in the ROM.
theorem read_write (h : 0 < memory.size) (address value other : Word) :
    (memory.write address value).read other =
      if memory.romEnd ≤ memory.index address ∧ memory.index other = memory.index address then value
      else memory.read other := by
  have hlt : memory.index address < memory.words.size := memory.index_lt h address
  simp only [read, index_write, Array.getD_eq_getD_getElem?]
  by_cases hrom : memory.romEnd ≤ memory.index address
  · by_cases heq : memory.index other = memory.index address
    · simp [write, hrom, heq, hlt]
    · simp [write, hrom, heq, Array.getElem?_setIfInBounds_ne (Ne.symm heq)]
  · simp [write, hrom]

end Memory

end MicroCisc
