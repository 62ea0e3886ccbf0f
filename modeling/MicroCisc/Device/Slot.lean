import MicroCisc.Word

namespace MicroCisc

abbrev Slot := Fin 16

-- Numerals of slots rest on it. Its zero is written out, the one that numerals of `Fin` ask for.
instance Slot.instNeZero : @NeZero Nat Zero.ofOfNat0 16 :=
  ⟨by decide⟩

def Slot.ofNat (n : Nat) : Slot :=
  Fin.ofNat 16 n

def Slot.ofNat? (n : Nat) : Option Slot :=
  if h : n < 16 then some ⟨n, h⟩ else none

inductive Access where
  | consume
  | peek
  deriving DecidableEq, Repr

inductive DeviceType where
  | invalid
  | processor
  | blockMemory
  | blockIo
  | serial
  | hid
  | terminal
  | pinIo
  deriving DecidableEq, Repr

namespace DeviceType

def code : DeviceType → UInt8
  | .invalid => 0
  | .processor => 1
  | .blockMemory => 2
  | .blockIo => 3
  | .serial => 4
  | .hid => 5
  | .terminal => 6
  | .pinIo => 7

def ofCode (code : UInt8) : DeviceType :=
  match code.toNat with
  | 1 => .processor
  | 2 => .blockMemory
  | 3 => .blockIo
  | 4 => .serial
  | 5 => .hid
  | 6 => .terminal
  | 7 => .pinIo
  | _ => .invalid

def name : DeviceType → String
  | .invalid => "Invalid"
  | .processor => "Processor"
  | .blockMemory => "BlockMemory"
  | .blockIo => "BlockIo"
  | .serial => "Serial"
  | .hid => "Hid"
  | .terminal => "Terminal"
  | .pinIo => "PinIo"

theorem ofCode_code (type : DeviceType) : ofCode type.code = type := by
  cases type <;> rfl

end DeviceType

end MicroCisc
