import MicroCisc.Word

namespace MicroCisc

inductive Flag where
  | zero
  | negative
  | carry
  | overflow
  | error
  | interrupt
  | signed
  deriving DecidableEq, Repr

def Flag.mask : Flag → Word
  | .zero => 0x0001
  | .negative => 0x0002
  | .carry => 0x0004
  | .overflow => 0x0008
  | .error => 0x0010
  | .interrupt => 0x0020
  | .signed => 0x0100

def Flag.bit : Flag → Nat
  | .zero => 0
  | .negative => 1
  | .carry => 2
  | .overflow => 3
  | .error => 4
  | .interrupt => 5
  | .signed => 8

theorem Flag.bit_lt (flag : Flag) : flag.bit < 16 := by
  cases flag <;> decide

theorem Flag.bit_inj {f g : Flag} : f.bit = g.bit ↔ f = g := by
  cases f <;> cases g <;> decide

theorem Flag.toBitVec_mask (flag : Flag) : flag.mask.toBitVec = .twoPow 16 flag.bit := by
  cases flag <;> rfl

structure Flags where
  bits : Word
  deriving DecidableEq, Repr

namespace Flags

def contains (flags : Flags) (mask : Word) : Bool :=
  flags.bits &&& mask == mask

def withMask (flags : Flags) (mask : Word) (on : Bool) : Flags :=
  ⟨if on then flags.bits ||| mask else flags.bits &&& ~~~mask⟩

def has (flags : Flags) (flag : Flag) : Bool :=
  flags.contains flag.mask

def put (flags : Flags) (flag : Flag) (on : Bool) : Flags :=
  flags.withMask flag.mask on

def initial : Flags :=
  ⟨Flag.signed.mask⟩

-- The flags' letters from the high bit to the low one, a dash where one is clear, then the bits.
def describe (flags : Flags) : String :=
  let letters := [(Flag.signed, "S"), (.interrupt, "I"), (.error, "E"), (.overflow, "O"),
    (.carry, "C"), (.negative, "N"), (.zero, "Z")]
  let shown := letters.map fun (flag, letter) => if flags.has flag then letter else "-"
  String.join shown ++ s!" ({flags.bits.hexNumber})"

def testBit (flags : Flags) (place : Nat) : Bool :=
  flags.bits.toBitVec.getLsbD place

variable (flags : Flags)

theorem has_eq_testBit (flag : Flag) : flags.has flag = flags.testBit flag.bit := by
  have hmask : (0#16 = BitVec.twoPow 16 flag.bit) ↔ False := by cases flag <;> decide
  rw [Bool.eq_iff_iff]
  simp only [has, contains, testBit, beq_iff_eq, ← UInt16.toBitVec_inj, UInt16.toBitVec_and,
    Flag.toBitVec_mask, BitVec.and_twoPow]
  split <;> simp_all

theorem testBit_put (flag : Flag) (on : Bool) (place : Nat) :
    (flags.put flag on).testBit place = if place = flag.bit then on else flags.testBit place := by
  have hlt := flag.bit_lt
  cases on with
  | false =>
    simp only [put, withMask, testBit, Bool.false_eq_true, if_false, UInt16.toBitVec_and,
      UInt16.toBitVec_not, Flag.toBitVec_mask, BitVec.getLsbD_and, BitVec.getLsbD_not,
      BitVec.getLsbD_twoPow]
    split
    · next h => simp [h, hlt]
    · next h =>
      by_cases hplace : place < 16
      · simp [hplace, Ne.symm h]
      · simp [hplace, BitVec.getLsbD_of_ge _ _ (Nat.le_of_not_lt hplace)]
  | true =>
    simp only [put, withMask, testBit, if_true, UInt16.toBitVec_or, Flag.toBitVec_mask,
      BitVec.getLsbD_or, BitVec.getLsbD_twoPow]
    split <;> simp_all [eq_comm]

theorem has_put (put read : Flag) (on : Bool) :
    (flags.put put on).has read = if read = put then on else flags.has read := by
  simp only [has_eq_testBit, testBit_put, Flag.bit_inj]

end Flags

end MicroCisc
