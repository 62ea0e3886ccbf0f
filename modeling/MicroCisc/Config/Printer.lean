import MicroCisc.Config.Basic
import MicroCisc.Json.Basic

namespace MicroCisc

def ProcessorConfig.toJson (config : ProcessorConfig) : Json :=
  .object
    [("id", .natural config.id.toNat),
     ("address_width", .natural config.addressWidth.toNat),
     ("start_pc", .natural config.startPc.toNat),
     ("nanos_per_instruction", .natural config.nanosPerInstruction.toNat),
     ("signed", .bool config.signed),
     ("rom", .bool config.rom)]

def Fill.toJson : Fill → Json
  | .fixed byte => .object [("mode", .text "fixed"), ("value", .natural byte.toNat)]
  | .seeded seed => .object [("mode", .text "seeded"), ("value", .natural seed.toNat)]

def KindConfig.toMembers : KindConfig → List (String × Json)
  | .serial baud fill =>
      [("type", .text "serial"), ("baud", .natural baud.toNat), ("fill", fill.toJson)]
  | .terminal => [("type", .text "terminal")]
  | .leds => [("type", .text "led")]
  | .memory width => [("type", .text "memory"), ("address_width", .natural width.toNat)]
  | .processor width => [("type", .text "processor"), ("address_width", .natural width.toNat)]

mutual

def DeviceConfig.toJson : DeviceConfig → Json
  | { index, id, kind, connected } =>
      let below := match connected with
        | [] => []
        | _ => [("connected", .list (DeviceConfig.listToJson connected))]
      .object
        ([("index", .natural index.toNat), ("id", .natural id.toNat)] ++ kind.toMembers ++ below)

def DeviceConfig.listToJson : List DeviceConfig → List Json
  | [] => []
  | config :: rest => config.toJson :: DeviceConfig.listToJson rest

end

namespace MachineConfig

def toJson (config : MachineConfig) : Json :=
  .object
    [("processor", config.processor.toJson),
     ("devices", .list (DeviceConfig.listToJson config.devices)),
     ("max_cycles", match config.maxCycles with
        | none => .null
        | some limit => .natural limit.toNat)]

def text [JsonFormat] (config : MachineConfig) : String :=
  JsonFormat.print config.toJson

end MachineConfig

end MicroCisc
