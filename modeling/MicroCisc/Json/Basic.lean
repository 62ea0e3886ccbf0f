import MicroCisc.Text.Numeral

namespace MicroCisc

inductive Json where
  | null
  | bool (value : Bool)
  | natural (value : Nat)
  -- Any other number: `significand` times ten to the power of `exponent`, perhaps below zero.
  | decimal (negative : Bool) (significand : Nat) (exponent : Int)
  | text (value : String)
  | list (items : List Json)
  | object (members : List (String × Json))
  deriving Repr, Inhabited

inductive JsonError where
  -- The text ends inside a value.
  | ended
  | malformed
  | unsuitable
  deriving DecidableEq, Repr

def JsonError.message : JsonError → String
  | .ended => "the text ends inside a value"
  | .malformed => "the text is not JSON"
  | .unsuitable => "a value does not fit where it stands"

inductive Bracket where
  | list
  | object
  deriving DecidableEq, Repr

-- What stands in a text in the place of a value, up to the first fault. A reader that asks for the
-- value may meet another fault than one that skips it, or the only one.
inductive JsonInput where
  | scalar (value : Json)
  | list (items : List JsonInput) (ending : Except JsonError Unit)
  | object (members : List (Except JsonError String × JsonInput)) (ending : Except JsonError Unit)
  | tooDeep (bracket : Bracket) (skipped : Except JsonError Unit)
  | fault (asked : JsonError) (skipped : Except JsonError Unit)

-- How values are written, and how they are found in a text: `read` also tells whether the text ends
-- with the value.
class JsonFormat where
  print : Json → String
  read : String → JsonInput × Except JsonError Unit

namespace JsonInput

variable {α : Type}

def refuse : JsonInput → Except JsonError α
  | .fault asked _ => throw asked
  | .scalar _ | .list _ _ | .object _ _ | .tooDeep _ _ => throw .unsuitable

def scalarAs (decode : Json → Option α) : JsonInput → Except JsonError α
  | .scalar value =>
      match decode value with
      | some found => return found
      | none => throw .unsuitable
  | other => other.refuse

mutual

def keep : JsonInput → Except JsonError Json
  | .scalar value => return value
  | .list items ending => do
      let items ← keepItems [] items
      ending
      return .list items
  | .object members ending => do
      let members ← keepMembers [] members
      ending
      return .object members
  | .tooDeep _ _ => throw .malformed
  | .fault asked _ => throw asked

def keepItems (found : List Json) : List JsonInput → Except JsonError (List Json)
  | [] => return found.reverse
  | item :: rest => do keepItems ((← item.keep) :: found) rest

def keepMembers (found : List (String × Json)) :
    List (Except JsonError String × JsonInput) → Except JsonError (List (String × Json))
  | [] => return found.reverse
  | (name, value) :: rest => do keepMembers ((← name, ← value.keep) :: found) rest

end

mutual

def skip : JsonInput → Except JsonError Unit
  | .scalar _ => return
  | .list items ending => do
      skipItems items
      ending
  | .object members ending => do
      skipMembers members
      ending
  | .tooDeep _ skipped | .fault _ skipped => skipped

def skipItems : List JsonInput → Except JsonError Unit
  | [] => return
  | item :: rest => do
      item.skip
      skipItems rest

def skipMembers : List (Except JsonError String × JsonInput) → Except JsonError Unit
  | [] => return
  | (_, value) :: rest => do
      value.skip
      skipMembers rest

end

end JsonInput

end MicroCisc
