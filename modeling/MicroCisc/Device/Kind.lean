import MicroCisc.Device.Slot
import MicroCisc.Device.SerialLine
import MicroCisc.Device.Terminal
import MicroCisc.Device.LedBank
import MicroCisc.Registers

namespace MicroCisc

class Behavior (κ : Type) where
  type : κ → DeviceType
  readSlot : κ → Memory → Slot → Access → Word × κ
  writeSlot : κ → Slot → Word → κ
  tick : κ → Memory → Nat → κ
  -- Does a device of this kind run code of its own? All others stay halted for good, so that the
  -- device that has claimed them can always drive them.
  runsCode : κ → Bool

namespace Registers

def readSlot (regs : Registers) (memory : Memory) : Slot → Word
  | 6 => .ofNat (memory.size - 1) &&& 0xFF00
  | 7 => regs.pendingInterrupt
  | 8 => regs.pc
  | 9 => regs.get .r1
  | 10 => regs.get .r2
  | 11 => regs.get .r3
  | 12 => regs.get .r4
  | 13 => regs.get .r5
  | 14 => regs.get .r6
  | 15 => regs.flags.bits
  | _ => 0

-- Any write to slot 7 acknowledges the pending interrupt.
def writeSlot (regs : Registers) (slot : Slot) (value : Word) : Registers :=
  match slot with
  | 7 => regs.acknowledgeInterrupt
  | 8 => regs.setPc value
  | 9 => regs.set .r1 value
  | 10 => regs.set .r2 value
  | 11 => regs.set .r3 value
  | 12 => regs.set .r4 value
  | 13 => regs.set .r5 value
  | 14 => regs.set .r6 value
  | 15 => { regs with flags := ⟨value⟩ }
  | _ => regs

instance : Behavior Registers where
  type _ := .processor
  readSlot regs memory slot _ := (regs.readSlot memory slot, regs)
  writeSlot := writeSlot
  tick regs _ _ := regs
  runsCode _ := true

end Registers

inductive Kind where
  | processor (regs : Registers)
  | memory
  | serial (line : SerialLine)
  | terminal (display : Terminal)
  | leds (bank : LedBank)

namespace Kind

def type : Kind → DeviceType
  | .processor _ => .processor
  | .memory => .blockMemory
  | .serial _ => .serial
  | .terminal _ => .terminal
  | .leds _ => .pinIo

def readSlot (kind : Kind) (memory : Memory) (slot : Slot) (access : Access) : Word × Kind :=
  match kind with
  | .processor regs => (regs.readSlot memory slot, .processor regs)
  | .memory => (0, .memory)
  | .serial line =>
      let (value, line) := line.readSlot slot access
      (value, .serial line)
  | .terminal display => (display.readSlot slot, .terminal display)
  | .leds bank => (bank.readSlot slot, .leds bank)

def writeSlot (kind : Kind) (slot : Slot) (value : Word) : Kind :=
  match kind with
  | .processor regs => .processor (regs.writeSlot slot value)
  | .memory => .memory
  | .serial line => .serial (line.writeSlot slot value)
  | .terminal display => .terminal (display.writeSlot slot value)
  | .leds bank => .leds (bank.writeSlot slot value)

def tick (kind : Kind) (memory : Memory) (nanos : Nat) : Kind :=
  match kind with
  | .serial line => .serial (line.tick nanos)
  | .terminal display => .terminal (display.tick memory)
  | kind => kind

def runsCode : Kind → Bool
  | .processor _ => true
  | _ => false

instance : Behavior Kind where
  type := type
  readSlot := readSlot
  writeSlot := writeSlot
  tick := tick
  runsCode := runsCode

end Kind

end MicroCisc
