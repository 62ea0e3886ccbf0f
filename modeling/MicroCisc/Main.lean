import MicroCisc.CommandLine.Perform

namespace MicroCisc.CommandLine

def fileError : IO.Error → FileError
  | .noFileOrDirectory .. => .notFound
  | .inappropriateType _ 20 _ => .notDirectory
  | .inappropriateType _ 21 _ => .isDirectory
  | .invalidArgument _ 36 _ => .nameTooLong
  | .permissionDenied _ code details | .invalidArgument _ code details
  | .inappropriateType _ code details | .resourceExhausted _ code details =>
      .other s!"{details} (os error {code})"
  | error => .other (toString error)

def attempt {α : Type} (action : IO α) : IO (Except FileError α) := do
  try
    return .ok (← action)
  catch error =>
    return .error (fileError error)

partial def readLine (input : IO.FS.Stream) (line : Array UInt8) : IO (Option (List UInt8)) := do
  let bytes ← input.read 1
  match bytes.data.toList with
  | [] => return if line.isEmpty then none else some line.toList
  | byte :: _ => if byte == 10 then return some line.toList else readLine input (line.push byte)

def writeTo (stream : IO.FS.Stream) (bytes : Array UInt8) : IO Unit := do
  stream.write ⟨bytes⟩
  stream.flush

partial def converse {σ α : Type} (dialogue : Dialogue σ α) (state : σ) : IO α := do
  let input ← IO.getStdin
  let output ← IO.getStdout
  match ← readLine input #[] with
  | none =>
      let (bytes, result) := dialogue.close state
      writeTo output bytes
      return result
  | some line =>
      let (bytes, next) := dialogue.answer state line
      writeTo output bytes
      match next with
      | .inl state => converse dialogue state
      | .inr result => return result

instance : Host IO where
  readFile path := attempt do return (← IO.FS.readBinFile path).data.toList
  writeFile path bytes := attempt (IO.FS.writeBinFile path ⟨bytes⟩)
  write bytes := do writeTo (← IO.getStdout) bytes
  writeError text := do (← IO.getStderr).putStr text
  converse := converse

end MicroCisc.CommandLine

def main (args : List String) : IO UInt32 := do
  return (← MicroCisc.CommandLine.execute args).toUInt32
