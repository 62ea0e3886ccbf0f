import MicroCisc.Word

namespace MicroCisc

inductive DeviceError where
  | addressWidth (width : UInt8)
  | reservedId
  | programTooLarge (size available : Nat)
  | oddByteCount (count : Nat)
  | reservedIndex
  | indexInUse (index : UInt8)
  | duplicateId (id : Word)
  deriving DecidableEq, Repr

def DeviceError.message : DeviceError → String
  | .addressWidth width => s!"address width {width} is not 0 or between 8 and 16"
  | .reservedId => "device id 0 is reserved"
  | .programTooLarge size available => s!"program size {size} exceeds available space {available}"
  | .oddByteCount count => s!"byte stream of length {count} does not hold whole 16-bit words"
  | .reservedIndex => "bus index 0 addresses the device itself"
  | .indexInUse index => s!"bus index {index} is already in use"
  | .duplicateId id => s!"device id {id} is already present on this bus"

end MicroCisc
