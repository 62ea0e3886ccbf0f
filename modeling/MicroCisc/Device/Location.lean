import MicroCisc.Device.Bus

namespace MicroCisc

structure Location where
  id : Word
  path : List UInt8
  deriving DecidableEq, Repr

-- Enters a location among others in the order of their ids. It takes the place of one with its id.
def Location.enter (location : Location) : List Location → List Location
  | [] => [location]
  | other :: rest =>
      if location.id < other.id then location :: other :: rest
      else if location.id == other.id then location :: rest
      else other :: location.enter rest

mutual

def DeviceTree.locations (wanted : Kind → Bool) (path : List UInt8) : DeviceTree → List Location
  | .node device bus =>
      let here := if wanted device.kind then [⟨device.id, path⟩] else []
      here ++ Bus.locations wanted path bus

def Bus.locations (wanted : Kind → Bool) (path : List UInt8) : Bus → List Location
  | [] => []
  | (index, tree) :: rest =>
      tree.locations wanted (path ++ [index]) ++ Bus.locations wanted path rest

end

def Kind.isSerial : Kind → Bool
  | .serial _ => true
  | _ => false

def Kind.isTerminal : Kind → Bool
  | .terminal _ => true
  | _ => false

variable {α : Type}

mutual

-- What `f` answers at the end of a path, and the tree with what it leaves there.
def DeviceTree.visit (f : DeviceTree → α × DeviceTree) :
    List UInt8 → DeviceTree → Option α × DeviceTree
  | [], tree =>
      let (answer, tree) := f tree
      (some answer, tree)
  | index :: path, .node device bus =>
      let (answer, bus) := Bus.visit f index path bus
      (answer, .node device bus)

def Bus.visit (f : DeviceTree → α × DeviceTree) (index : UInt8) (path : List UInt8) :
    Bus → Option α × Bus
  | [] => (none, [])
  | (i, tree) :: rest =>
      if i == index then
        let (answer, tree) := tree.visit f path
        (answer, (i, tree) :: rest)
      else
        let (answer, rest) := Bus.visit f index path rest
        (answer, (i, tree) :: rest)

end

def Bus.visitKind (f : Kind → Option α × Kind) (path : List UInt8) (bus : Bus) :
    Option α × Bus :=
  match path with
  | [] => (none, bus)
  | index :: path =>
      let (answer, bus) := bus.visit (fun tree =>
        match tree with
        | .node device bus =>
            let (answer, kind) := f device.kind
            (answer, .node { device with kind } bus)) index path
      (answer.join, bus)

namespace Kind

def feed (bytes : List UInt8) : Kind → Option Nat × Kind
  | .serial line =>
      let line := line.feed bytes
      (some line.pending, .serial line)
  | kind => (none, kind)

def pending : Kind → Option Nat × Kind
  | .serial line => (some line.pending, .serial line)
  | kind => (none, kind)

def drain : Kind → Option (Array UInt8) × Kind
  | .serial line =>
      let (bytes, line) := line.drain
      (some bytes, .serial line)
  | kind => (none, kind)

def take : Kind → Option (Array UInt8) × Kind
  | .terminal display =>
      let (bytes, display) := display.take
      (some bytes, .terminal display)
  | kind => (none, kind)

end Kind

end MicroCisc
