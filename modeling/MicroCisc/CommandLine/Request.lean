import MicroCisc.CommandLine.Arguments

namespace MicroCisc.CommandLine

structure RunRequest where
  programs : List String
  debug : Bool
  config : Option String
  rx : Option String
  tx : Option String
  maxCycles : Option Nat
  dump : Option String
  deriving Repr

inductive Request where
  | run (request : RunRequest)
  | test (programs : List String) (config : Option String)
  | disassemble (program : String)
  | showConfig (config : Option String)
  deriving Repr

namespace Request

def configOption : OptionSpec :=
  ⟨"config", some 'c', some .path⟩

-- A trace is accepted, but there is no log for it to go to.
def runSpec : CommandSpec :=
  { options :=
      [⟨"debug", some 'd', none⟩, configOption, ⟨"rx", none, some .path⟩,
       ⟨"tx", none, some .path⟩, ⟨"max-cycles", some 'm', some .count⟩,
       ⟨"trace", some 't', none⟩, ⟨"dump", none, some .path⟩]
    maxOperands := none }

def testSpec : CommandSpec :=
  ⟨[configOption], none⟩

def disassembleSpec : CommandSpec :=
  ⟨[], some 1⟩

def showConfigSpec : CommandSpec :=
  ⟨[configOption], some 0⟩

def someOperands (args : Arguments) : Except Stop (List String) :=
  if args.operands.isEmpty then .error .usage else .ok args.operands

def runOfArguments (args : Arguments) : Except Stop Request := do
  return .run {
    programs := ← someOperands args
    debug := args.has "debug"
    config := args.value? "config"
    rx := args.value? "rx"
    tx := args.value? "tx"
    maxCycles := (args.value? "max-cycles").bind count?
    dump := args.value? "dump" }

def disassembleOfArguments (args : Arguments) : Except Stop Request :=
  match args.operands with
  | [program] => .ok (.disassemble program)
  | _ => .error .usage

def helpOn : List String → Stop
  | [] => .help
  | [command] =>
      if ["run", "test", "disasm", "dump-config", "help"].contains command then .help else .usage
  | _ => .usage

def stopOf (arg : String) : Stop :=
  match arg.toList with
  | ['-', '-', 'h', 'e', 'l', 'p'] => .help
  | ['-', '-', 'v', 'e', 'r', 's', 'i', 'o', 'n'] => .version
  | '-' :: 'h' :: _ => .help
  | '-' :: 'V' :: _ => .version
  | _ => .usage

def ofArguments : List String → Except Stop Request
  | [] => .error .usage
  | "run" :: rest => do runOfArguments (← readAll runSpec rest .empty)
  | "test" :: rest => do
      let args ← readAll testSpec rest .empty
      return .test (← someOperands args) (args.value? "config")
  | "disasm" :: rest => do disassembleOfArguments (← readAll disassembleSpec rest .empty)
  | "dump-config" :: rest => do
      return .showConfig ((← readAll showConfigSpec rest .empty).value? "config")
  | "help" :: rest => .error (helpOn rest)
  | arg :: _ => .error (stopOf arg)

end Request

end MicroCisc.CommandLine
