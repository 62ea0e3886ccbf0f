import MicroCisc.FileError
import MicroCisc.Text.Blank

namespace MicroCisc.CommandLine

-- The names that lead to a place, the last one first. A place above the folder is reached by `..`
-- alone, and an empty name stands for the outermost folder of the system.
abbrev Place := List String

namespace Place

def outermost : Place :=
  [""]

def above : Place → Place
  | [] => [".."]
  | ".." :: outer => ".." :: ".." :: outer
  | [""] => outermost
  | _ :: outer => outer

def follow (place : Place) (name : String) : Place :=
  if name == "." then place
  else if name == ".." then place.above
  else name :: place

def isOuter (place : Place) : Bool :=
  place == outermost || place.all (· == "..")

end Place

structure Path where
  start : Place
  names : List String
  endsInSlash : Bool
  deriving DecidableEq, Repr

namespace Path

def maxNameLength : Nat := 255
def maxLength : Nat := 4095

def isDots (name : String) : Bool :=
  name == "." || name == ".."

def checkName (name : String) : Except FileError Unit :=
  if maxNameLength < name.utf8ByteSize then .error .nameTooLong else .ok ()

def parse (text : String) : Path :=
  let chars := text.toList
  { start := if chars.head? == some '/' then .outermost else []
    names := ((Text.pieces (· == '/') chars).filter (!·.isEmpty)).map String.ofList
    endsInSlash := chars.getLast? == some '/' }

def ofText (text : String) : Except FileError Path :=
  if text.toList.contains '\x00' then .error .nulInName
  else if text.isEmpty then .error .notFound
  else if maxLength < text.utf8ByteSize then .error .nameTooLong
  else .ok (parse text)

def place (path : Path) : Place :=
  path.names.foldl Place.follow path.start

end Path

end MicroCisc.CommandLine
