import MicroCisc.Flags

namespace MicroCisc

inductive AluOp where
  | copy
  | and
  | or
  | xor
  | invert
  | shiftLeft
  | shiftRight
  | swapBytes
  | highByte
  | lowByte
  | add
  | subtract
  | multiply
  | divide
  | pageMask
  | overflowAnd
  deriving DecidableEq, Repr

namespace AluOp

def code : AluOp → Word
  | .copy => 0x0
  | .and => 0x1
  | .or => 0x2
  | .xor => 0x3
  | .invert => 0x4
  | .shiftLeft => 0x5
  | .shiftRight => 0x6
  | .swapBytes => 0x7
  | .highByte => 0x8
  | .lowByte => 0x9
  | .add => 0xA
  | .subtract => 0xB
  | .multiply => 0xC
  | .divide => 0xD
  | .pageMask => 0xE
  | .overflowAnd => 0xF

def ofCode (code : Word) : AluOp :=
  match (code &&& 0xF).toNat with
  | 0x0 => .copy
  | 0x1 => .and
  | 0x2 => .or
  | 0x3 => .xor
  | 0x4 => .invert
  | 0x5 => .shiftLeft
  | 0x6 => .shiftRight
  | 0x7 => .swapBytes
  | 0x8 => .highByte
  | 0x9 => .lowByte
  | 0xA => .add
  | 0xB => .subtract
  | 0xC => .multiply
  | 0xD => .divide
  | 0xE => .pageMask
  | _ => .overflowAnd

def mnemonic : AluOp → String
  | .copy => "copy"
  | .and => "and"
  | .or => "or"
  | .xor => "xor"
  | .invert => "inv"
  | .shiftLeft => "shl"
  | .shiftRight => "shr"
  | .swapBytes => "swap"
  | .highByte => "msb"
  | .lowByte => "lsb"
  | .add => "add"
  | .subtract => "sub"
  | .multiply => "mult"
  | .divide => "div"
  | .pageMask => "page"
  | .overflowAnd => "oflw"

theorem ofCode_code (op : AluOp) : ofCode op.code = op := by
  cases op <;> rfl

end AluOp

structure AluResult where
  value : Word
  flags : Flags
  overflow : Word
  deriving DecidableEq, Repr

namespace Alu

-- An operand as arithmetic sees it: in two's complement if `signed`, else as a natural number.
def widen (signed : Bool) (w : Word) : Int :=
  if signed then w.signed else w.toNat

def fits (signed : Bool) (n : Int) : Bool :=
  if signed then -0x8000 ≤ n && n ≤ 0x7FFF else 0 ≤ n && n ≤ 0xFFFF

def freshFlags (flags : Flags) (value overflow : Word) : Flags :=
  flags
    |>.put .zero (value == 0)
    |>.put .negative (value &&& 0x8000 != 0)
    |>.put .carry (overflow &&& 1 == 1)
    |>.put .overflow false

def fresh (flags : Flags) (value overflow : Word) : AluResult :=
  ⟨value, freshFlags flags value overflow, overflow⟩

-- The low sixteen bits of an exact result are its value, the next sixteen its overflow.
def arithmetic (flags : Flags) (exact : Int) (outOfRange : Bool) : AluResult :=
  let result := fresh flags (.ofInt exact) (.ofInt (exact / 0x10000))
  { result with flags := result.flags.put .overflow outOfRange }

def ranged (signed : Bool) (flags : Flags) (exact : Int) : AluResult :=
  arithmetic flags exact !(fits signed exact)

def shiftAmount (src : Word) : Nat :=
  min src.toNat 32

def shiftLeft (flags : Flags) (src dst : Word) : AluResult :=
  let wide := dst.toNat * Nat.pow 2 (shiftAmount src)
  fresh flags (.ofNat wide) (.ofNat (wide / 0x10000))

-- The sixteen bits below the value collect what falls off its low end.
def shiftRight (signed : Bool) (flags : Flags) (src dst : Word) : AluResult :=
  let wide := widen signed dst * 0x10000 / (Nat.pow 2 (shiftAmount src) : Nat)
  fresh flags (.ofInt (wide / 0x10000)) (.ofInt wide)

-- Division truncates towards zero, so that only a signed quotient can be too large. Dividing by zero
-- keeps the dividend and the overflow register and sets the error flag.
def divide (signed : Bool) (flags : Flags) (overflow src dst : Word) : AluResult :=
  if src == 0 then
    let result := fresh flags dst overflow
    { result with flags := result.flags.put .error true }
  else
    let dividend := widen signed dst
    let divisor := widen signed src
    let quotient := dividend.tdiv divisor
    let result := arithmetic flags quotient (signed && quotient > 0x7FFF)
    let remainder : Word := .ofInt (dividend.tmod divisor)
    { value := result.value
      flags := result.flags |>.put .carry (remainder &&& 1 == 1) |>.put .error false
      overflow := remainder }

-- `src` is the source operand and `dst` the destination operand, which is also the left one.
def compute (op : AluOp) (src dst : Word) (flags : Flags) (overflow : Word) : AluResult :=
  let signed := flags.has .signed
  match op with
  | .copy => ⟨src, flags, overflow⟩
  | .and => fresh flags (src &&& dst) overflow
  | .or => fresh flags (src ||| dst) overflow
  | .xor => fresh flags (src ^^^ dst) overflow
  | .invert => fresh flags (~~~src) overflow
  | .swapBytes => fresh flags (src <<< 8 ||| src >>> 8) overflow
  | .highByte => fresh flags (src &&& 0xFF00) overflow
  | .lowByte => fresh flags (src &&& 0x00FF) overflow
  | .pageMask => fresh flags (src &&& 0x0FFC) overflow
  | .overflowAnd => fresh flags (src &&& overflow) overflow
  | .shiftLeft => shiftLeft flags src dst
  | .shiftRight => shiftRight signed flags src dst
  | .add => ranged signed flags (widen signed dst + widen signed src)
  | .subtract => ranged signed flags (widen signed dst - widen signed src)
  | .multiply => ranged signed flags (widen signed dst * widen signed src)
  | .divide => divide signed flags overflow src dst

end Alu

end MicroCisc
