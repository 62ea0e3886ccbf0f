import MicroCisc.Text.Numeral

namespace MicroCisc.CommandLine

inductive Stop where
  | usage
  | help
  | version
  deriving DecidableEq, Repr

inductive ValueKind where
  | path
  | count
  deriving DecidableEq, Repr

-- An option that a command takes. One without a value is a flag.
structure OptionSpec where
  name : String
  letter : Option Char
  value : Option ValueKind
  deriving DecidableEq, Repr

structure CommandSpec where
  options : List OptionSpec
  maxOperands : Option Nat

structure Arguments where
  flags : List String
  values : List (String × String)
  operands : List String
  deriving Repr

def count? (text : String) : Option Nat :=
  Numeral.read? 10 UInt64.size text.toList

def ValueKind.accepts : ValueKind → String → Bool
  | .path, text => text != ""
  | .count, text => (count? text).isSome

namespace Arguments

def empty : Arguments :=
  ⟨[], [], []⟩

def has (args : Arguments) (flag : String) : Bool :=
  args.flags.contains flag

def value? (args : Arguments) (name : String) : Option String :=
  args.values.lookup name

def addFlag (args : Arguments) (option : OptionSpec) : Except Stop Arguments :=
  if args.has option.name then .error .usage
  else .ok { args with flags := option.name :: args.flags }

def addValue (args : Arguments) (option : OptionSpec) (kind : ValueKind) (text : String) :
    Except Stop Arguments :=
  if (args.value? option.name).isSome || !kind.accepts text then .error .usage
  else .ok { args with values := (option.name, text) :: args.values }

def addOperand (args : Arguments) (spec : CommandSpec) (operand : String) :
    Except Stop Arguments :=
  if operand == "" || spec.maxOperands.any (· ≤ args.operands.length) then .error .usage
  else .ok { args with operands := args.operands ++ [operand] }

end Arguments

abbrev Pending := OptionSpec × ValueKind

-- The letters after a single dash. What follows the letter of an option with a value is the value.
def readLetters (spec : CommandSpec) :
    List Char → Arguments → Except Stop (Arguments × Option Pending)
  | [], args => .ok (args, none)
  | letter :: rest, args =>
      if letter == 'h' then .error .help
      else match spec.options.find? (·.letter == some letter) with
        | none => .error .usage
        | some option =>
            match option.value, rest with
            | none, _ => do readLetters spec rest (← args.addFlag option)
            | some kind, [] => .ok (args, some (option, kind))
            | some kind, '=' :: text | some kind, text => do
                return (← args.addValue option kind (.ofList text), none)

def readName (spec : CommandSpec) (text : List Char) (args : Arguments) :
    Except Stop (Arguments × Option Pending) :=
  let name := String.ofList (text.takeWhile (· != '='))
  let attached := text.dropWhile (· != '=')
  if name == "help" then .error (if attached.isEmpty then .help else .usage)
  else match spec.options.find? (·.name == name) with
    | none => .error .usage
    | some option =>
        match option.value, attached with
        | none, [] => do return (← args.addFlag option, none)
        | none, _ => .error .usage
        | some kind, [] => .ok (args, some (option, kind))
        | some kind, _ :: value => do
            return (← args.addValue option kind (.ofList value), none)

def readArgument (spec : CommandSpec) (arg : String) (args : Arguments) :
    Except Stop (Arguments × Option Pending) :=
  match arg.toList with
  | '-' :: '-' :: name => readName spec name args
  | '-' :: first :: rest => readLetters spec (first :: rest) args
  | _ => do return (← args.addOperand spec arg, none)

def looksLikeOption (arg : String) : Bool :=
  arg.startsWith "-" && arg != "-"

def readAll (spec : CommandSpec) : List String → Arguments → Except Stop Arguments
  | [], args => .ok args
  | "--" :: rest, args => rest.foldlM (·.addOperand spec ·) args
  | arg :: rest, args => do
      match ← readArgument spec arg args, rest with
      | (args, none), rest => readAll spec rest args
      | (_, some _), [] => throw .usage
      | (args, some (option, kind)), value :: rest =>
          if looksLikeOption value then throw .usage
          else readAll spec rest (← args.addValue option kind value)

end MicroCisc.CommandLine
