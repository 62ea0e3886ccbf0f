import MicroCisc.FileError
import MicroCisc.Program
import MicroCisc.Text.Blank
import MicroCisc.Text.Encoding
import MicroCisc.Text.FileName
import MicroCisc.Words

namespace MicroCisc

inductive TestField where
  | offset
  | expected
  deriving DecidableEq, Repr

def TestField.name : TestField → String
  | .offset => "offset"
  | .expected => "expected value"

inductive LineError where
  | missing (field : TestField)
  | invalid (field : TestField) (token : List Char)
  | unexpected (token : List Char)
  | notAWord (token : List Char)
  deriving DecidableEq, Repr

def LineError.message : LineError → String
  | .missing field => s!"test directive is missing its {field.name}"
  | .invalid field token => s!"invalid {field.name} '{String.ofList token}'"
  | .unexpected token => s!"unexpected '{String.ofList token}' after test directive"
  | .notAWord token => s!"'{String.ofList token}' is not a 16-bit hex word"

inductive ImageError where
  | file (error : FileError)
  | line (number : Nat) (error : LineError)
  | malformed (error : DeviceError)
  deriving DecidableEq, Repr

def ImageError.message : ImageError → String
  | .file error => s!"I/O error: {error.message}"
  | .line number error => s!"parse error on line {number}: {error.message}"
  | .malformed error => s!"malformed binary image: {error.message}"

inductive ImageLine where
  | words (words : List Word)
  | test (offset expected : Word)
  deriving DecidableEq, Repr

namespace ImageLine

def hexDigits? : List Char → Option (List Char)
  | '0' :: 'x' :: digits | '0' :: 'X' :: digits => some digits
  | _ => none

def word? (token : List Char) : Option Word :=
  (Numeral.read? 16 0x10000 ((hexDigits? token).getD token)).map .ofNat

-- A number in a directive: decimal, or hexadecimal after `0x`.
def number? (token : List Char) : Option Word :=
  let value? := match hexDigits? token with
    | some digits => Numeral.read? 16 0x10000 digits
    | none => Numeral.read? 10 0x10000 token
  value?.map .ofNat

def field (name : TestField) : List (List Char) → Except LineError (Word × List (List Char))
  | [] => .error (.missing name)
  | token :: rest =>
      match number? token with
      | some value => .ok (value, rest)
      | none => .error (.invalid name token)

def testOfTokens (tokens : List (List Char)) : Except LineError ImageLine := do
  let (offset, tokens) ← field .offset tokens
  let (expected, tokens) ← field .expected tokens
  match tokens with
  | [] => .ok (.test offset expected)
  | extra :: _ => .error (.unexpected extra)

def wordOfToken (token : List Char) : Except LineError Word :=
  match word? token with
  | some word => .ok word
  | none => .error (.notAWord token)

def wordsOfTokens (tokens : List (List Char)) : Except LineError ImageLine := do
  return .words (← tokens.mapM wordOfToken)

def isTest (token : List Char) : Bool :=
  token.map Char.toLower == ['t', 'e', 's', 't']

def ofTokens : List (List Char) → Except LineError ImageLine
  | [] => .ok (.words [])
  | first :: rest => if isTest first then testOfTokens rest else wordsOfTokens (first :: rest)

def code (line : List Char) : List Char :=
  line.takeWhile fun c => c != '#' && c != ';'

def ofText (line : List Char) : Except LineError ImageLine :=
  ofTokens (Text.tokens (code line))

end ImageLine

namespace Program

-- The program that the lines of an image make up. Of two tests at one offset the later counts.
def ofImageLines (lines : List ImageLine) : Program where
  words := lines.flatMap fun
    | .words words => words
    | .test _ _ => []
  tests := .ofList (lines.filterMap fun
    | .words _ => none
    | .test offset expected => some (offset, expected))

end Program

namespace Image

def readLines {α : Type} (read : α → Except FileError (List Char)) (lines : List α) :
    Except ImageError Program := do
  let numbered := lines.zipIdx 1
  let found ← numbered.mapM fun (line, number) => do
    let text ← (read line).mapError .file
    (ImageLine.ofText text).mapError (.line number)
  return .ofImageLines found

def parse (text : String) : Except ImageError Program :=
  readLines .ok (Text.lines '\n' '\r' text.toList)

-- The program of a text image in a file. A line is not looked at before those above it are read.
def parseBytes (bytes : List UInt8) : Except ImageError Program :=
  readLines (fun line =>
    match Text.ofBytes? line with
    | some text => .ok text.toList
    | none => .error .notText) (Text.lines 10 13 bytes)

def ofBytes (bytes : List UInt8) : Except ImageError Program :=
  ((Words.ofBytes bytes).map Program.ofWords).mapError .malformed

def testLine (entry : Expectation) : String :=
  s!"test {entry.1.hexNumber} {entry.2.hexNumber}\n"

def wordsLine (address : Nat) (row : List Word) : String :=
  " ".intercalate (row.map Word.hex) ++ s!" ; {Numeral.text 16 4 address}\n"

def format (program : Program) : String :=
  s!"# uCISC image\n# {program.length} words\n"
    ++ String.join (program.tests.entries.map testLine)
    ++ "\n"
    ++ String.join ((Words.rows program.words).map fun (address, row) => wordsLine address row)

def isBinaryName (path : String) : Bool :=
  Text.extension? path.toList == some ['b', 'i', 'n']

def ofFile (path : String) (content : Except FileError (List UInt8)) :
    Except ImageError Program := do
  let bytes ← content.mapError .file
  if isBinaryName path then ofBytes bytes else parseBytes bytes

end Image

end MicroCisc
