import MicroCisc.Flags
import MicroCisc.Register

namespace MicroCisc

structure Registers where
  pc : Word
  -- Where execution goes on after the instruction at `pc`.
  next : Word
  general : Vector Word 6
  flags : Flags
  -- Carry, high word, remainder or shifted-out bits of the last operation.
  overflow : Word
  -- The control address of the device whose interrupt is pending, or 0.
  pendingInterrupt : Word
  deriving DecidableEq, Repr

namespace Registers

def initial : Registers :=
  { pc := 0, next := 2, general := .replicate 6 0, flags := .initial, overflow := 0,
    pendingInterrupt := 0 }

instance : Inhabited Registers :=
  ⟨initial⟩

def get (regs : Registers) (register : Register) : Word :=
  regs.general[register.index]

def set (regs : Registers) (register : Register) (value : Word) : Registers :=
  { regs with general := regs.general.set register.index value }

def setPc (regs : Registers) (pc : Word) : Registers :=
  { regs with pc, next := pc + 2 }

def setNext (regs : Registers) (next : Word) : Registers :=
  { regs with next }

def retire (regs : Registers) : Registers :=
  regs.setPc regs.next

def raiseInterrupt (regs : Registers) (pointer : Word) : Registers :=
  { regs with pendingInterrupt := pointer, flags := regs.flags.put .interrupt true }

def acknowledgeInterrupt (regs : Registers) : Registers :=
  { regs with pendingInterrupt := 0, flags := regs.flags.put .interrupt false }

def generalValues (regs : Registers) : List Word :=
  regs.general.toList

def describe (regs : Registers) : String :=
  let general := ", ".intercalate (regs.generalValues.map toString)
  s!"Registers \x7b pc: {regs.pc}, next: {regs.next}, general: [{general}], "
    ++ s!"flags: {regs.flags.describe}, overflow: {regs.overflow}, "
    ++ s!"pending_interrupt: {regs.pendingInterrupt} \x7d"

theorem get_set (regs : Registers) (changed read : Register) (value : Word) :
    (regs.set changed value).get read = if read = changed then value else regs.get read := by
  have h : (changed.index : Nat) = read.index ↔ read = changed := by
    cases changed <;> cases read <;> decide
  simp only [get, set, Fin.getElem_fin, Vector.getElem_set, h]

end Registers

end MicroCisc
