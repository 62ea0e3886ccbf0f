import MicroCisc.Register

namespace MicroCisc

inductive Operand where
  | pc
  -- A word of the processor's own memory, addressed through r1, r2 or r3.
  | memory (pointer : Register)
  | register (register : Register)
  -- A word of the bus, addressed through r4, r5 or r6.
  | bus (pointer : Register)
  | immediate
  | flags
  | interrupt
  deriving DecidableEq, Repr

namespace Operand

def isMemory : Operand → Bool
  | .memory _ | .bus _ => true
  | _ => false

def register? : Operand → Option Register
  | .memory r | .register r | .bus r => some r
  | _ => none

def shared : Nat → Operand
  | 0 => .pc
  | 1 => .memory .r1
  | 2 => .memory .r2
  | 3 => .memory .r3
  | 5 => .register .r1
  | 6 => .register .r2
  | 7 => .register .r3
  | 9 => .bus .r4
  | 10 => .bus .r5
  | 11 => .bus .r6
  | 12 => .interrupt
  | 13 => .register .r4
  | 14 => .register .r5
  | 15 => .register .r6
  | _ => .flags

-- Only the low four bits of a code count.
def ofSourceCode (code : UInt8) : Operand :=
  match (code &&& 0xF).toNat with
  | 4 => .immediate
  | code => shared code

def ofDestinationCode (code : UInt8) : Operand :=
  match (code &&& 0xF).toNat with
  | 4 => .flags
  | code => shared code

def isMemoryCode (code : UInt8) : Bool :=
  (ofSourceCode code).isMemory

def text : Operand → String
  | .pc => "pc"
  | .memory pointer => s!"mem[{pointer.name}]"
  | .register r => r.name
  | .bus pointer => s!"bus[{pointer.name}]"
  | .immediate => "val"
  | .flags => "flags"
  | .interrupt => "int"

end Operand

end MicroCisc
