import MicroCisc.Device.ByteQueue
import MicroCisc.Device.Slot

namespace MicroCisc

-- What a line yields when no byte has arrived, as configured.
inductive Fill where
  | fixed (byte : UInt8)
  | seeded (seed : UInt64)
  deriving DecidableEq, Repr

-- Where the bytes of a seeded line come from: the byte that a seed yields at each place.
class Generator where
  byte (seed : UInt64) (place : Nat) : UInt8

inductive Filler where
  | fixed (byte : UInt8)
  | random (bytes : Nat → UInt8) (drawn : Nat)

namespace Filler

def ofFill [Generator] : Fill → Filler
  | .fixed byte => .fixed byte
  | .seeded seed => .random (Generator.byte seed) 0

def next : Filler → UInt8 × Filler
  | .fixed byte => (byte, .fixed byte)
  | .random bytes drawn => (bytes drawn, .random bytes (drawn + 1))

-- What a look at the filler shows. It leaves a generator alone, and shows 0 for it.
def shown : Filler → UInt8
  | .fixed byte => byte
  | .random _ _ => 0

end Filler

structure SerialLine where
  baud : Nat
  inbound : ByteQueue
  outbound : Array UInt8
  -- Bytes that have arrived, and free places for bytes on their way out.
  ready : Nat
  free : Nat
  -- Nanoseconds since the last byte period ended, less than a second's. Those of an instruction can
  -- be added in 64 bits if the processor `HasRoom` for it.
  elapsed : Nat
  filler : Filler

namespace SerialLine

def depth : Nat := 2

def defaultBaud : UInt32 := 115200

-- No line is slower than 10 baud.
def ofBaud [Generator] (baud : UInt32) (fill : Fill) : SerialLine :=
  { baud := max baud.toNat 10
    inbound := .empty
    outbound := #[]
    ready := 0
    free := depth
    elapsed := 0
    filler := .ofFill fill }

def bytePeriod (line : SerialLine) : Nat :=
  1000000000 / (line.baud / 10)

def feed (line : SerialLine) (bytes : List UInt8) : SerialLine :=
  { line with inbound := line.inbound.append bytes }

def drain (line : SerialLine) : Array UInt8 × SerialLine :=
  (line.outbound, { line with outbound := #[] })

def pending (line : SerialLine) : Nat :=
  line.inbound.size

def receiveFiller (line : SerialLine) : UInt8 × SerialLine :=
  let (byte, filler) := line.filler.next
  (byte, { line with ready := 0, filler })

def receive (line : SerialLine) : UInt8 × SerialLine :=
  match line.ready with
  | 0 => line.receiveFiller
  | ready + 1 =>
      match line.inbound.pop? with
      | some (byte, inbound) => (byte, { line with ready, inbound })
      | none => line.receiveFiller

def peek (line : SerialLine) : UInt8 :=
  if line.ready == 0 then line.filler.shown else line.inbound.head?.getD 0

-- On a busy line the byte takes the place of the last one that has not gone out.
def transmit (line : SerialLine) (byte : UInt8) : SerialLine :=
  if line.free == 0 then { line with outbound := line.outbound.pop.push byte }
  else { line with free := line.free - 1, outbound := line.outbound.push byte }

def status (count : Nat) : Word :=
  .ofBytes (.ofNat depth) (.ofNat count)

def readSlot (line : SerialLine) (slot : Slot) (access : Access) : Word × SerialLine :=
  match slot, access with
  | 7, _ => (status line.free, line)
  | 9, _ => (status line.ready, line)
  | 10, .peek => (line.peek.toUInt16, line)
  | 10, .consume =>
      let (byte, line) := line.receive
      (byte.toUInt16, line)
  | _, _ => (0, line)

def writeSlot (line : SerialLine) (slot : Slot) (value : Word) : SerialLine :=
  match slot with
  | 8 => line.transmit value.low
  | _ => line

def passPeriod (line : SerialLine) : SerialLine :=
  { line with
    ready := if line.ready < min depth line.pending then line.ready + 1 else line.ready
    free := if line.free < depth then line.free + 1 else line.free }

-- Can another byte period change nothing?
def isSettled (line : SerialLine) : Bool :=
  depth ≤ line.free && min depth line.pending ≤ line.ready

def passPeriods : Nat → SerialLine → SerialLine
  | 0, line => line
  | n + 1, line => if line.isSettled then line else passPeriods n line.passPeriod

theorem passPeriod_of_isSettled {line : SerialLine} (h : line.isSettled) :
    line.passPeriod = line := by
  simp only [isSettled, Bool.and_eq_true, decide_eq_true_eq] at h
  simp [passPeriod, Nat.not_lt.2 h.1, Nat.not_lt.2 h.2]

theorem passPeriods_of_isSettled {line : SerialLine} (h : line.isSettled) (n : Nat) :
    passPeriods n line = line := by
  cases n <;> simp [passPeriods, h]

theorem passPeriods_succ (n : Nat) (line : SerialLine) :
    passPeriods (n + 1) line = passPeriods n line.passPeriod := by
  by_cases h : line.isSettled
  · simp [passPeriods_of_isSettled, passPeriod_of_isSettled, h]
  · simp [passPeriods, h]

theorem passPeriods_add (m n : Nat) (line : SerialLine) :
    passPeriods (m + n) line = passPeriods n (passPeriods m line) := by
  induction m generalizing line with
  | zero => simp [passPeriods]
  | succ m ih => rw [Nat.succ_add, passPeriods_succ, ih, passPeriods_succ]

def tick (line : SerialLine) (nanos : Nat) : SerialLine :=
  let elapsed := line.elapsed + nanos
  passPeriods (elapsed / line.bytePeriod) { line with elapsed := elapsed % line.bytePeriod }

end SerialLine

end MicroCisc
