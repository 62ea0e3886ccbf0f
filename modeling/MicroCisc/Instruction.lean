import MicroCisc.Alu
import MicroCisc.Effect
import MicroCisc.Operand

namespace MicroCisc

structure Instruction where
  -- Operand codes, of which only the low four bits count.
  source : UInt8
  destination : UInt8
  -- Push for a memory destination, pop for a memory source.
  increment : Bool
  effect : Effect
  alu : AluOp
  -- The literal, or the displacement of the source.
  immediate : Word
  offset : Int8
  deriving DecidableEq, Repr

namespace Instruction

variable (instr : Instruction)

def sourceOperand : Operand :=
  .ofSourceCode instr.source

def destinationOperand : Operand :=
  .ofDestinationCode instr.destination

def isPush : Bool :=
  instr.increment && Operand.isMemoryCode instr.destination

def isPop : Bool :=
  instr.increment && Operand.isMemoryCode instr.source && !Operand.isMemoryCode instr.destination

-- An instruction from the pc to the pc. It halts the processor if it stores its own address.
def isSelfJump : Bool :=
  instr.source == 0 && instr.destination == 0

def signExtendNibble (nibble : UInt8) : Int8 :=
  (nibble <<< 4).toInt8 >>> 4

def extendImmediate (field : Word) (sourceIsMemory : Bool) : Word :=
  if !sourceIsMemory && field &&& 0x0800 != 0 then field ||| 0xF000 else field

def clip (source destination : UInt8) (immediate : Word) (offset : UInt8) : Word × Int8 :=
  if Operand.isMemoryCode destination then
    (extendImmediate (immediate &&& 0x0FFF) (Operand.isMemoryCode source), signExtendNibble offset)
  else (immediate, 0)

def ofFields (source destination : UInt8) (alu : AluOp) (effect : Effect) (increment : Bool)
    (immediate : Word) (offset : Int8) : Instruction :=
  let source := source &&& 0xF
  let destination := destination &&& 0xF
  let (immediate, offset) := clip source destination immediate offset.toUInt8
  { source, destination, increment, effect, alu, immediate, offset }

-- The words are SSSS DDDD I EEE AAAA for source, destination, increment, effect and operation, and
-- OOOO MMMM MMMM MMMM for offset and immediate. Without a word of memory as the destination, all of the
-- second word is the immediate.
def decode (high low : Word) : Instruction :=
  let source := (high >>> 12).toUInt8
  let destination := ((high >>> 8) &&& 0xF).toUInt8
  let (immediate, offset) := clip source destination low (low >>> 12).toUInt8
  { source, destination, immediate, offset
    increment := high &&& 0x0080 != 0
    effect := .ofCode (high >>> 4)
    alu := .ofCode high }

def encode : Word × Word :=
  let high :=
    (instr.source &&& 0xF).toUInt16 <<< 12
      ||| (instr.destination &&& 0xF).toUInt16 <<< 8
      ||| (if instr.increment then (0x0080 : Word) else 0)
      ||| instr.effect.code <<< 4
      ||| instr.alu.code
  let low :=
    if Operand.isMemoryCode instr.destination then
      (instr.offset.toUInt8 &&& 0xF).toUInt16 <<< 12 ||| (instr.immediate &&& 0x0FFF)
    else instr.immediate
  (high, low)

def immediateText : String :=
  match instr.sourceOperand with
  | .flags | .interrupt => ""
  | .immediate => " " ++ instr.immediate.hexNumber
  | _ => if instr.immediate == 0 then "" else signedNumber instr.immediate.signed

def offsetText : String :=
  if instr.offset == 0 then "" else signedNumber instr.offset.toInt

def stackText : String :=
  if instr.isPush then " push" else if instr.isPop then " pop" else ""

def text : String :=
  instr.alu.mnemonic ++ " " ++ instr.sourceOperand.text ++ instr.immediateText
    ++ " -> " ++ instr.destinationOperand.text ++ instr.offsetText
    ++ instr.stackText ++ " [" ++ instr.effect.label ++ "]"

end Instruction

end MicroCisc
