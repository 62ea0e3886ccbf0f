import MicroCisc.Config.Basic
import MicroCisc.FileError
import MicroCisc.Json.Basic
import MicroCisc.Text.Encoding

namespace MicroCisc

inductive ConfigError where
  | file (error : FileError)
  | json (error : JsonError)
  deriving DecidableEq, Repr

def ConfigError.message : ConfigError → String
  | .file error => s!"I/O error: {error.message}"
  | .json error => s!"configuration error: {error.message}"

namespace Json

def natural? (limit : Nat) : Json → Option Nat
  | .natural n => if n < limit then some n else none
  | _ => none

def bool? : Json → Option Bool
  | .bool value => some value
  | _ => none

def byte? (value : Json) : Option UInt8 :=
  (value.natural? UInt8.size).map .ofNat

def word? (value : Json) : Option Word :=
  (value.natural? UInt16.size).map .ofNat

def natural32? (value : Json) : Option UInt32 :=
  (value.natural? UInt32.size).map .ofNat

def natural64? (value : Json) : Option UInt64 :=
  (value.natural? UInt64.size).map .ofNat

def member? (name : String) (members : List (String × Json)) : Option (Option Json) :=
  match members.filter (·.1 == name) with
  | [] => some none
  | [(_, value)] => some (some value)
  | _ => none

def onlyMember? (name : String) (members : List (String × Json)) : Option Json :=
  (member? name members).join

end Json

namespace Fill

inductive Mode where
  | fixed
  | seeded
  deriving DecidableEq, Repr

def modeOfName? : String → Option Mode
  | "fixed" => some .fixed
  | "seeded" => some .seeded
  | _ => none

-- In an object, a mode is a name, or an object with that name and nothing under it.
def modeInObject? : Json → Option Mode
  | .text name | .object [(name, .null)] | .object [(name, .object [])] => modeOfName? name
  | _ => none

-- In a list, a mode is a name or a number.
def modeInList? : Json → Option Mode
  | .text name => modeOfName? name
  | .natural 0 => some .fixed
  | .natural 1 => some .seeded
  | _ => none

def ofValue? (mode : Mode) (value : Json) : Option Fill :=
  match mode with
  | .fixed => .fixed <$> value.byte?
  | .seeded => .seeded <$> value.natural64?

def ofJson? : Json → Option Fill
  | .object members => do
      let mode ← modeInObject? (← Json.onlyMember? "mode" members)
      ofValue? mode (← Json.onlyMember? "value" members)
  | .list [mode, value] => do
      ofValue? (← modeInList? mode) value
  | _ => none

end Fill

namespace KindConfig

inductive Tag where
  | serial
  | terminal
  | leds
  | memory
  | processor
  deriving DecidableEq, Repr

def tagOfJson? : Json → Option Tag
  | .text "serial" | .natural 0 => some .serial
  | .text "terminal" | .natural 1 => some .terminal
  | .text "led" | .natural 2 => some .leds
  | .text "memory" | .natural 3 => some .memory
  | .text "processor" | .natural 4 => some .processor
  | _ => none

def widthOfMembers? (members : List (String × Json)) : Option UInt8 := do
  (← Json.onlyMember? "address_width" members).byte?

def orStandard {α : Type} (standard : α) (decode : Json → Option α) : Option Json → Option α
  | none => some standard
  | some value => decode value

def ofMembers? (members : List (String × Json)) : Option KindConfig := do
  match ← tagOfJson? (← Json.onlyMember? "type" members) with
  | .serial =>
      let baud ←
        orStandard SerialLine.defaultBaud Json.natural32? (← Json.member? "baud" members)
      let fill ← orStandard Fill.standard Fill.ofJson? (← Json.member? "fill" members)
      return .serial baud fill
  | .terminal => return .terminal
  | .leds => return .leds
  | .memory => .memory <$> widthOfMembers? members
  | .processor => .processor <$> widthOfMembers? members

end KindConfig

structure DeviceParts where
  index : Option UInt8
  id : Option Word
  connected : Option (List DeviceConfig)
  -- All other members, the last one first.
  others : List (String × Json)

namespace DeviceParts

def empty : DeviceParts :=
  ⟨none, none, none, []⟩

-- Adds a member that holds no devices. A name that has a place of its own may be there only once.
def add (parts : DeviceParts) (name : String) (value : JsonInput) :
    Except JsonError DeviceParts := do
  match name with
  | "index" =>
      if parts.index.isSome then throw .unsuitable
      return { parts with index := ← value.scalarAs Json.byte? }
  | "id" =>
      if parts.id.isSome then throw .unsuitable
      return { parts with id := ← value.scalarAs Json.word? }
  | name => return { parts with others := (name, ← value.keep) :: parts.others }

def toConfig? (parts : DeviceParts) : Option DeviceConfig := do
  return {
    index := ← parts.index
    id := ← parts.id
    kind := ← KindConfig.ofMembers? parts.others.reverse
    connected := parts.connected.getD [] }

end DeviceParts

namespace DeviceConfig

mutual

def readList : JsonInput → Except JsonError (List DeviceConfig)
  | .list items ending => do
      let configs ← readItems [] items
      ending
      return configs
  | .tooDeep .list _ => throw .malformed
  | other => other.refuse

def readItems (found : List DeviceConfig) :
    List JsonInput → Except JsonError (List DeviceConfig)
  | [] => return found.reverse
  | item :: rest => do readItems ((← read item) :: found) rest

def read : JsonInput → Except JsonError DeviceConfig
  | .object members ending => do
      let parts ← readMembers .empty members
      ending
      match parts.toConfig? with
      | some config => return config
      | none => throw .unsuitable
  | .tooDeep .object _ => throw .malformed
  | other => other.refuse

def readMembers (parts : DeviceParts) :
    List (Except JsonError String × JsonInput) → Except JsonError DeviceParts
  | [] => return parts
  | (name, value) :: rest => do
      let name ← name
      if name == "connected" then
        if parts.connected.isSome then throw .unsuitable
        readMembers { parts with connected := ← readList value } rest
      else readMembers (← parts.add name value) rest

end

end DeviceConfig

structure Field (σ : Type) where
  name : String
  read : σ → JsonInput → Except JsonError σ

namespace Field

variable {α σ : Type}

def ofScalar (name : String) (decode : Json → Option α) (put : σ → α → σ) : Field σ :=
  ⟨name, fun state value => do return put state (← value.scalarAs decode)⟩

def readItems (ending : Except JsonError Unit) :
    List (Field σ) → List JsonInput → σ → Except JsonError σ
  | field :: fields, item :: items, state => do
      readItems ending fields items (← field.read state item)
  | _, [], state => do
      ending
      return state
  | [], _ :: _, _ => throw .malformed

-- Reads the members of an object. A field may be there only once, and other members are skipped.
def readMembers (fields : List (Field σ)) (seen : List String) :
    List (Except JsonError String × JsonInput) → σ → Except JsonError σ
  | [], state => return state
  | (name, value) :: rest, state => do
      let name ← name
      match fields.find? (·.name == name) with
      | some field =>
          if seen.contains name then throw .unsuitable
          readMembers fields (name :: seen) rest (← field.read state value)
      | none =>
          value.skip
          readMembers fields seen rest state

def readAll (fields : List (Field σ)) (state : σ) : JsonInput → Except JsonError σ
  | .list items ending => readItems ending fields items state
  | .object members ending => do
      let state ← readMembers fields [] members state
      ending
      return state
  | .tooDeep _ _ => throw .malformed
  | other => other.refuse

end Field

def ProcessorConfig.fields : List (Field ProcessorConfig) :=
  [.ofScalar "id" Json.word? fun config id => { config with id },
   .ofScalar "address_width" Json.byte? fun config addressWidth => { config with addressWidth },
   .ofScalar "start_pc" Json.word? fun config startPc => { config with startPc },
   .ofScalar "nanos_per_instruction" Json.natural64?
     fun config nanosPerInstruction => { config with nanosPerInstruction },
   .ofScalar "signed" Json.bool? fun config signed => { config with signed },
   .ofScalar "rom" Json.bool? fun config rom => { config with rom }]

namespace MachineConfig

def limit? : Json → Option (Option UInt64)
  | .null => some none
  | value => value.natural64?.map some

def fields : List (Field MachineConfig) :=
  [⟨"processor", fun config value => do
      return { config with
        processor := ← Field.readAll ProcessorConfig.fields .standard value }⟩,
   ⟨"devices", fun config value => do
      return { config with devices := ← DeviceConfig.readList value }⟩,
   .ofScalar "max_cycles" limit? fun config maxCycles => { config with maxCycles }]

-- The configuration that a JSON text describes. What a text leaves out is as in the standard one.
def ofText [JsonFormat] (text : String) : Except JsonError MachineConfig := do
  let (value, ending) := JsonFormat.read text
  let config ← Field.readAll fields .standard value
  ending
  return config

def ofBytes [JsonFormat] (bytes : List UInt8) : Except ConfigError MachineConfig :=
  match Text.ofBytes? bytes with
  | some text => (ofText text).mapError .json
  | none => .error (.file .notText)

end MachineConfig

end MicroCisc
