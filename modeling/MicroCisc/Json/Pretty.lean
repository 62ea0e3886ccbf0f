import MicroCisc.Json.Basic

namespace MicroCisc.Json

-- The texts that are written here are names, which hold nothing to escape.
def quote (name : String) : String :=
  "\"" ++ name ++ "\""

def decimalText (negative : Bool) (significand : Nat) (exponent : Int) : String :=
  (if negative then "-" else "") ++ s!"{significand}e{exponent}"

def deeper (margin : String) : String :=
  margin ++ "  "

mutual

-- Adds the text of a value to `before`. Lines after its first start with `margin`.
def addTo (margin before : String) : Json → String
  | .null => before ++ "null"
  | .bool value => before ++ toString value
  | .natural value => before ++ toString value
  | .decimal negative significand exponent =>
      before ++ decimalText negative significand exponent
  | .text value => before ++ quote value
  | .list [] => before ++ "[]"
  | .list (first :: rest) =>
      let inner := deeper margin
      addItems inner (first.addTo inner (before ++ "[\n" ++ inner)) rest ++ "\n" ++ margin ++ "]"
  | .object [] => before ++ "\x7b\x7d"
  | .object ((name, first) :: rest) =>
      let inner := deeper margin
      let opened := before ++ "\x7b\n" ++ inner ++ quote name ++ ": "
      addMembers inner (first.addTo inner opened) rest ++ "\n" ++ margin ++ "\x7d"

def addItems (margin before : String) : List Json → String
  | [] => before
  | item :: rest => addItems margin (item.addTo margin (before ++ ",\n" ++ margin)) rest

def addMembers (margin before : String) : List (String × Json) → String
  | [] => before
  | (name, value) :: rest =>
      addMembers margin (value.addTo margin (before ++ ",\n" ++ margin ++ quote name ++ ": ")) rest

end

def pretty (value : Json) : String :=
  value.addTo "" ""

end MicroCisc.Json
