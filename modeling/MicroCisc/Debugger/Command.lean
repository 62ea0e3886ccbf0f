import MicroCisc.Text.Blank
import MicroCisc.Text.Numeral

namespace MicroCisc.Debugger

inductive Command where
  | continue
  | step
  | print
  | peek (code : UInt8)
  | exit
  | unknown (text : String)
  deriving DecidableEq, Repr

namespace Command

def code? (token : List Char) : Option UInt8 :=
  let value? := match token with
    | '0' :: 'x' :: digits => Numeral.read? 16 16 digits
    | _ => Numeral.read? 10 16 token
  value?.map .ofNat

-- The first token of a line names the command, in capitals or not. An empty line is a step.
def ofLine (line : List Char) : Command :=
  let tokens := Text.tokens line
  let unknown := Command.unknown (.ofList (Text.trim line))
  match String.ofList ((tokens.headD []).map Char.toLower) with
  | "c" | "continue" => .continue
  | "" | "n" | "next" | "s" | "step" => .step
  | "p" | "print" => .print
  | "e" | "exit" | "q" | "quit" => .exit
  | "peek" =>
      match tokens[1]?.bind code? with
      | some code => .peek code
      | none => unknown
  | _ => unknown

end Command

end MicroCisc.Debugger
