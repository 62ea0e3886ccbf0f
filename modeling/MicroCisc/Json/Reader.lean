import MicroCisc.Json.Number
import MicroCisc.Json.Pretty

namespace MicroCisc

abbrev JsonReader (α : Type) := StateT (List Char) (Except JsonError) α

inductive Reading where
  | kept
  | skipped
  deriving DecidableEq, Repr

namespace JsonReader

def isBlank (c : Char) : Bool :=
  c == ' ' || c == '\n' || c == '\t' || c == '\r'

def skipBlanks : JsonReader Unit :=
  modify (·.dropWhile isBlank)

def peek? : JsonReader (Option Char) := do
  skipBlanks
  return (← get).head?

def peek : JsonReader Char := do
  match ← peek? with
  | some c => return c
  | none => throw .ended

def dropOne : JsonReader Unit :=
  modify (·.drop 1)

def expect (c : Char) : JsonReader Unit := do
  if (← peek) == c then dropOne else throw .malformed

def letters (word : List Char) : JsonReader Unit :=
  word.forM fun letter => do
    match ← get with
    | [] => throw .ended
    | c :: rest => if c == letter then set rest else throw .malformed

def digits : JsonReader (List Nat) := do
  let text ← get
  set (text.dropWhile Char.isDigit)
  return (text.takeWhile Char.isDigit).map fun c => c.toNat - '0'.toNat

-- At least one digit. Where the text ends, a number that is kept is unfinished, and one that is
-- skipped is none.
def someDigits (reading : Reading) : JsonReader (List Nat) := do
  match ← digits with
  | [] =>
      if reading == .kept && (← get).isEmpty then throw .ended else throw .malformed
  | found => return found

-- The whole part of a number, which starts with a zero only if it is one.
def wholeDigits (reading : Reading) : JsonReader (List Nat) := do
  match ← someDigits reading with
  | 0 :: _ :: _ => throw .malformed
  | found => return found

def fraction? (reading : Reading) : JsonReader (Option (List Nat)) := do
  match ← get with
  | '.' :: rest =>
      set rest
      some <$> someDigits reading
  | _ => return none

def exponentSign : JsonReader Int := do
  match ← get with
  | '+' :: rest =>
      set rest
      return 1
  | '-' :: rest =>
      set rest
      return -1
  | _ => return 1

def exponent? (reading : Reading) : JsonReader (Option (Int × List Nat)) := do
  match ← get with
  | 'e' :: rest | 'E' :: rest =>
      set rest
      let sign ← exponentSign
      return some (sign, ← someDigits reading)
  | _ => return none

def minus : JsonReader Bool := do
  match ← get with
  | '-' :: rest =>
      set rest
      return true
  | _ => return false

def number (reading : Reading) : JsonReader WrittenNumber := do
  let negative ← minus
  let whole ← wholeDigits reading
  let fraction? ← fraction? reading
  let exponent? ← exponent? reading
  return { negative, whole, fraction?, exponent? }

def numberValue : JsonReader Json := do
  match (← number .kept).value? with
  | some value => return value
  | none => throw .malformed

def codeUnit? (digits : List Char) : Option Nat :=
  (digits.mapM (Numeral.digitValue? 16)).map (Numeral.ofDigits 16)

def isHighSurrogate (unit : Nat) : Bool :=
  0xD800 ≤ unit && unit ≤ 0xDBFF

def isLowSurrogate (unit : Nat) : Bool :=
  0xDC00 ≤ unit && unit ≤ 0xDFFF

def joinSurrogates (high low : Nat) : Char :=
  .ofNat (0x10000 + (high - 0xD800) * 0x400 + (low - 0xDC00))

def escape? : Char → Option Char
  | '"' => some '"'
  | '\\' => some '\\'
  | '/' => some '/'
  | 'b' => some '\x08'
  | 'f' => some '\x0c'
  | 'n' => some '\n'
  | 'r' => some '\r'
  | 't' => some '\t'
  | _ => none

-- The fault in an escape `\u` that is not followed by four characters: the text is over if fewer
-- than four bytes are left.
def shortEscape (rest : List Char) : JsonError :=
  if (String.ofList rest).utf8ByteSize < 4 then .ended else .malformed

def missingSurrogate : List Char → JsonError
  | [] | ['\\'] => .ended
  | '\\' :: 'u' :: rest => shortEscape rest
  | _ => .malformed

-- Takes the characters of a text up to its closing quote. Those found so far are `found`, the last
-- one first.
def textBody (reading : Reading) (found : List Char) :
    List Char → Except JsonError (List Char × List Char)
  | [] => .error .ended
  | '"' :: rest => .ok (found.reverse, rest)
  | '\\' :: 'u' :: a :: b :: c :: d :: rest =>
      match codeUnit? [a, b, c, d] with
      | none => .error .malformed
      | some unit =>
          if reading == .skipped then textBody reading found rest
          else if isLowSurrogate unit then .error .malformed
          else if isHighSurrogate unit then
            match rest with
            | '\\' :: 'u' :: e :: f :: g :: h :: rest =>
                match codeUnit? [e, f, g, h] with
                | none => .error .malformed
                | some low =>
                    if isLowSurrogate low then
                      textBody reading (joinSurrogates unit low :: found) rest
                    else .error .malformed
            | rest => .error (missingSurrogate rest)
          else textBody reading (.ofNat unit :: found) rest
  | '\\' :: 'u' :: rest => .error (shortEscape rest)
  | ['\\'] => .error .ended
  | '\\' :: c :: rest =>
      match escape? c with
      | none => .error .malformed
      | some c => textBody reading (c :: found) rest
  | c :: rest => if c < ' ' then .error .malformed else textBody reading (c :: found) rest

def text (reading : Reading) : JsonReader String := do
  expect '"'
  let (body, rest) ← textBody reading [] (← get)
  set rest
  return .ofList body

def word? : Char → Option (List Char × Json)
  | 'n' => some (['n', 'u', 'l', 'l'], .null)
  | 't' => some (['t', 'r', 'u', 'e'], .bool true)
  | 'f' => some (['f', 'a', 'l', 's', 'e'], .bool false)
  | _ => none

def startsNumber (c : Char) : Bool :=
  c == '-' || c.isDigit

def scalar : JsonReader Json := do
  let c ← peek
  match word? c with
  | some (word, value) =>
      letters word
      return value
  | none =>
      if c == '"' then .text <$> text .kept
      else if startsNumber c then numberValue
      else throw .malformed

def openedBy? : Char → Option Bracket
  | '[' => some .list
  | '\x7b' => some .object
  | _ => none

def closing : Bracket → Char
  | .list => ']'
  | .object => '\x7d'

def skipScalar : JsonReader Unit := do
  let c ← peek
  match word? c with
  | some (word, _) => letters word
  | none =>
      if c == '"' then
        let _ ← text .skipped
      else if startsNumber c then
        let _ ← number .skipped
      else throw .malformed

def skipName : JsonReader Unit := do
  let _ ← text .skipped
  expect ':'

-- After a value: leaves the lists and objects that end here, the innermost first, up to a comma.
def close : List Bracket → JsonReader (List Bracket)
  | [] => return []
  | bracket :: outer => do
      let c ← peek
      if c == closing bracket then
        dropOne
        close outer
      else if c == ',' then
        dropOne
        return bracket :: outer
      else throw .malformed

-- Skips one scalar, or the opening of a list or an object, inside of the lists and objects that are
-- open. If that leaves any open, another value has to follow.
def skipOne (brackets : List Bracket) : JsonReader (List Bracket) := do
  if brackets.head? == some .object then skipName
  match openedBy? (← peek) with
  | some bracket =>
      dropOne
      if (← peek) == closing bracket then
        dropOne
        close brackets
      else return bracket :: brackets
  | none =>
      skipScalar
      close brackets

-- Skips the rest of a value of which lists and objects are open. The text holds a character for
-- every step.
def skipAll : List Char → List Bracket → JsonReader Unit
  | [], _ => throw .ended
  | _ :: text, brackets => do
      match ← skipOne brackets with
      | [] => return
      | brackets => skipAll text brackets

def skip : JsonReader Unit := do
  skipAll (← get) []

-- The text after what has been read, unless those who skip that meet a fault in it.
abbrev Rest := Except JsonError (List Char)

def Rest.ending (rest : Rest) : Except JsonError Unit :=
  rest.map fun _ => ()

def lost (error : JsonError) : JsonInput × Rest :=
  (.fault error (throw error), throw error)

def readOn (read : List Char → JsonInput × Rest) : Rest → JsonInput × Rest
  | .ok text => read text
  | .error error => lost error

def restOf {α : Type} (reader : JsonReader α) (text : List Char) : Rest :=
  (reader.run text).map (·.2)

def scalarInput (text : List Char) : JsonInput × Rest :=
  match scalar.run text with
  | .ok (value, rest) => (.scalar value, .ok rest)
  | .error asked =>
      let rest := restOf skip text
      (.fault asked rest.ending, rest)

def tooDeepInput (bracket : Bracket) (text : List Char) : JsonInput × Rest :=
  let rest := restOf skip text
  (.tooDeep bracket rest.ending, rest)

def anotherItem (isFirst : Bool) : JsonReader Bool := do
  let c ← peek
  if c == ']' then
    dropOne
    return false
  if isFirst then return true
  if c != ',' then throw .malformed
  dropOne
  if (← peek?) == some ']' then throw .malformed
  return true

def anotherMember (isFirst : Bool) : JsonReader Bool := do
  let c ← peek
  if c == '\x7d' then
    dropOne
    return false
  if !isFirst then
    if c != ',' then throw .malformed
    dropOne
  if (← peek) == '"' then return true else throw .malformed

def memberName (text : List Char) : Except JsonError String × Rest :=
  match (JsonReader.text .kept).run text with
  | .ok (name, rest) => (.ok name, restOf (expect ':') rest)
  | .error asked => (throw asked, restOf skipName text)

section

variable (read : List Char → JsonInput × Rest)

-- The items of a list up to its end, put to those found before, the last one first. The text in which
-- they stand holds a character for every item.
def itemInputs : List Char → Bool → List JsonInput → List Char → List JsonInput × Rest
  | [], _, found, _ => (found.reverse, throw .ended)
  | _ :: fuel, isFirst, found, text =>
      match (anotherItem isFirst).run text with
      | .error error => (found.reverse, throw error)
      | .ok (false, rest) => (found.reverse, .ok rest)
      | .ok (true, rest) =>
          match read rest with
          | (item, .ok rest) => itemInputs fuel false (item :: found) rest
          | (item, .error error) => ((item :: found).reverse, throw error)

def memberInputs : List Char → Bool → List (Except JsonError String × JsonInput) → List Char →
    List (Except JsonError String × JsonInput) × Rest
  | [], _, found, _ => (found.reverse, throw .ended)
  | _ :: fuel, isFirst, found, text =>
      match (anotherMember isFirst).run text with
      | .error error => (found.reverse, throw error)
      | .ok (false, rest) => (found.reverse, .ok rest)
      | .ok (true, rest) =>
          let (name, rest) := memberName rest
          match readOn read rest with
          | (value, .ok rest) => memberInputs fuel false ((name, value) :: found) rest
          | (value, .error error) => (((name, value) :: found).reverse, throw error)

def bracketInput (bracket : Bracket) (text : List Char) : JsonInput × Rest :=
  let inside := text.tail
  match bracket with
  | .list =>
      let (items, rest) := itemInputs read inside true [] inside
      (.list items rest.ending, rest)
  | .object =>
      let (members, rest) := memberInputs read inside true [] inside
      (.object members rest.ending, rest)

end

-- What stands at the front of a text, if lists and objects may nest as deep as `depth`.
def input : Nat → List Char → JsonInput × Rest
  | depth, text =>
      match peek.run text with
      | .error error => lost error
      | .ok (c, text) =>
          match openedBy? c, depth with
          | none, _ => scalarInput text
          | some bracket, 0 => tooDeepInput bracket text
          | some bracket, depth + 1 => bracketInput (input depth) bracket text

def maxDepth : Nat := 127

def finish : JsonReader Unit := do
  match ← peek? with
  | none => return
  | some _ => throw .malformed

def read (text : String) : JsonInput × Except JsonError Unit :=
  let (value, rest) := input maxDepth text.toList
  (value, rest.bind fun rest => (restOf finish rest).ending)

end JsonReader

instance : JsonFormat where
  print := Json.pretty
  read := JsonReader.read

end MicroCisc
