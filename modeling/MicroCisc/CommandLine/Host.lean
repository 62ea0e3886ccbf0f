import MicroCisc.FileError

namespace MicroCisc.CommandLine

-- A conversation: how a state answers a line of input, with what it writes, and how it ends, which
-- it does at the latest where the input ends.
structure Dialogue (σ α : Type) where
  answer : σ → List UInt8 → Array UInt8 × (σ ⊕ α)
  close : σ → Array UInt8 × α

class Host (m : Type → Type) where
  readFile : String → m (Except FileError (List UInt8))
  writeFile : String → Array UInt8 → m (Except FileError Unit)
  write : Array UInt8 → m Unit
  writeError : String → m Unit
  converse : {σ α : Type} → Dialogue σ α → σ → m α

end MicroCisc.CommandLine
