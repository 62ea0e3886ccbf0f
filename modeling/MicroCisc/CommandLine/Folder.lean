import MicroCisc.CommandLine.Host
import MicroCisc.CommandLine.Path

namespace MicroCisc.CommandLine

structure Folder where
  files : List (Place × List UInt8)
  input : List (List UInt8)
  output : Array UInt8
  errors : Array UInt8

inductive Entry where
  | folder
  | file (bytes : List UInt8)
  deriving DecidableEq, Repr

inductive Destination where
  | folder
  | named (name : String) (outer : Place)
  deriving DecidableEq, Repr

namespace Folder

def ofFiles (files : List (String × List UInt8)) (input : List UInt8) : Folder where
  files := files.map fun (name, bytes) => ((Path.parse name).place, bytes)
  input := Text.lines 10 13 input
  output := #[]
  errors := #[]

-- There is a folder wherever there is a file below.
def entry? (folder : Folder) (place : Place) : Option Entry :=
  match folder.files.lookup place with
  | some bytes => some (.file bytes)
  | none =>
      if place.isOuter || folder.files.any fun (file, _) => place.isSuffixOf file then some .folder
      else none

def enter (folder : Folder) (place : Place) (name : String) : Except FileError Place := do
  let inner := place.follow name
  if Path.isDots name then return inner
  Path.checkName name
  match folder.entry? inner with
  | some .folder => return inner
  | some (.file _) => throw .notDirectory
  | none => throw .notFound

def destination (folder : Folder) (path : Path) : Except FileError Destination := do
  let outer ← path.names.dropLast.foldlM folder.enter path.start
  match path.names.getLast? with
  | none => return .folder
  | some name => return if Path.isDots name then .folder else .named name outer

def read (folder : Folder) (text : String) : Except FileError (List UInt8) := do
  let path ← Path.ofText text
  match ← folder.destination path with
  | .folder => throw .isDirectory
  | .named name outer =>
      Path.checkName name
      match folder.entry? (name :: outer) with
      | none => throw .notFound
      | some .folder => throw .isDirectory
      | some (.file bytes) => if path.endsInSlash then throw .notDirectory else return bytes

def put (folder : Folder) (place : Place) (bytes : List UInt8) : Folder :=
  { folder with files := (place, bytes) :: folder.files.filter (·.1 != place) }

-- Nothing is written under a name that ends in a slash, for it asks for a folder.
def write (folder : Folder) (text : String) (bytes : List UInt8) : Except FileError Folder := do
  let path ← Path.ofText text
  match ← folder.destination path with
  | .folder => throw .isDirectory
  | .named name outer =>
      if path.endsInSlash then throw .isDirectory
      Path.checkName name
      match folder.entry? (name :: outer) with
      | some .folder => throw .isDirectory
      | _ => return folder.put (name :: outer) bytes

def addOutput (folder : Folder) (bytes : Array UInt8) : Folder :=
  { folder with output := folder.output ++ bytes }

def converse {σ α : Type} (dialogue : Dialogue σ α) :
    List (List UInt8) → σ → Array UInt8 → α × List (List UInt8) × Array UInt8
  | [], state, written =>
      let (bytes, result) := dialogue.close state
      (result, [], written ++ bytes)
  | line :: rest, state, written =>
      match dialogue.answer state line with
      | (bytes, .inr result) => (result, rest, written ++ bytes)
      | (bytes, .inl state) => converse dialogue rest state (written ++ bytes)

instance : Host (StateM Folder) where
  readFile path := do return (← get).read path
  writeFile path bytes := do
    match (← get).write path bytes.toList with
    | .ok folder =>
        set folder
        return .ok ()
    | .error error => return .error error
  write bytes := modify (·.addOutput bytes)
  writeError text := modify fun folder =>
    { folder with errors := folder.errors ++ text.toUTF8.data }
  converse dialogue state := do
    let folder ← get
    let (result, input, output) := Folder.converse dialogue folder.input state folder.output
    set { folder with input, output }
    return result

end Folder

end MicroCisc.CommandLine
