import MicroCisc.Device.Slot
import MicroCisc.Memory

namespace MicroCisc

-- A terminal prints the words of its memory from `start` up to but not including `finish`, and wraps
-- around after 256 words.
structure Terminal where
  start : UInt8
  finish : UInt8
  printed : Array UInt8
  deriving DecidableEq, Repr

namespace Terminal

def addressWidth : UInt8 := 8

def initial : Terminal :=
  ⟨0, 0, #[]⟩

-- A word holds two characters, the high byte first. A zero byte is none.
def characters (w : Word) : List UInt8 :=
  [w.high, w.low].filter (· != 0)

def text (terminal : Terminal) (memory : Memory) : List Word :=
  (List.range (terminal.finish - terminal.start).toNat).map fun i =>
    memory.read (terminal.start + .ofNat i).toUInt16

def tick (terminal : Terminal) (memory : Memory) : Terminal :=
  if terminal.start == terminal.finish then terminal
  else
    { terminal with
      start := terminal.finish
      printed := terminal.printed ++ (terminal.text memory).flatMap characters }

def take (terminal : Terminal) : Array UInt8 × Terminal :=
  (terminal.printed, { terminal with printed := #[] })

def readSlot (terminal : Terminal) : Slot → Word
  | 6 => terminal.start.toUInt16
  | 7 => terminal.finish.toUInt16
  | _ => 0

def writeSlot (terminal : Terminal) (slot : Slot) (value : Word) : Terminal :=
  match slot with
  | 6 => { terminal with start := value.low }
  | 7 => { terminal with finish := value.low }
  | _ => terminal

end Terminal

end MicroCisc
