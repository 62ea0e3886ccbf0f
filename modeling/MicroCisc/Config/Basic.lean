import MicroCisc.Device.SerialLine
import MicroCisc.Processor.Basic

namespace MicroCisc

structure ProcessorConfig where
  id : Word
  addressWidth : UInt8
  startPc : Word
  nanosPerInstruction : UInt64
  signed : Bool
  rom : Bool
  deriving DecidableEq, Repr

inductive KindConfig where
  | serial (baud : UInt32) (fill : Fill)
  | terminal
  | leds
  | memory (addressWidth : UInt8)
  | processor (addressWidth : UInt8)
  deriving DecidableEq, Repr

structure DeviceConfig where
  index : UInt8
  id : Word
  kind : KindConfig
  connected : List DeviceConfig
  deriving Repr

structure MachineConfig where
  processor : ProcessorConfig
  devices : List DeviceConfig
  maxCycles : Option UInt64
  deriving Repr

def ProcessorConfig.standard : ProcessorConfig :=
  { id := 1
    addressWidth := 16
    startPc := 0
    nanosPerInstruction := Processor.defaultNanosPerInstruction
    signed := true
    rom := false }

def Fill.standard : Fill :=
  .fixed 0

def MachineConfig.standard : MachineConfig :=
  { processor := .standard
    devices :=
      [{ index := 16, id := 100, connected := [],
         kind := .serial SerialLine.defaultBaud .standard },
       { index := 17, id := 101, kind := .terminal, connected := [] }]
    maxCycles := none }

end MicroCisc
