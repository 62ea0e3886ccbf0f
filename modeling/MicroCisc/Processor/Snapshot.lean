import MicroCisc.Json.Basic
import MicroCisc.Processor.Basic

namespace MicroCisc

def RunState.toJson : RunState → Json
  | .running => .text "Running"
  | .halted code => .object [("Halted", .object [("code", .natural code.toNat)])]

def Registers.toJson (regs : Registers) : Json :=
  .object
    [("pc", .natural regs.pc.toNat),
     ("next", .natural regs.next.toNat),
     ("general", .list (regs.generalValues.map fun value => .natural value.toNat)),
     ("flags", .natural regs.flags.bits.toNat),
     ("overflow", .natural regs.overflow.toNat),
     ("pending_interrupt", .natural regs.pendingInterrupt.toNat)]

def Memory.toJson (memory : Memory) : Json :=
  .list (memory.words.toList.map fun word => .natural word.toNat)

namespace Processor

def stateMembers (cpu : Processor) : List (String × Json) :=
  [("id", .natural cpu.id.toNat),
   ("device_type", .text cpu.device.type.name),
   ("state", cpu.state.toJson),
   ("cycles", .natural cpu.cycles),
   ("registers", cpu.regs.toJson),
   ("interrupt_handler", .natural cpu.device.control.interruptHandler.toNat),
   ("init_device", .natural cpu.device.control.owner.toNat)]

def snapshot (cpu : Processor) : Json :=
  .object (cpu.stateMembers ++ [("memory", cpu.memory.toJson)])

end Processor

end MicroCisc
