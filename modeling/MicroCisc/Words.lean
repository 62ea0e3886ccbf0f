import MicroCisc.DeviceError

namespace MicroCisc.Words

-- The words that bytes hold, high byte first. A byte without a partner is left out.
def pairBytes (bytes : List UInt8) : List Word :=
  let bytes := bytes.toArray
  (List.range (bytes.size / 2)).map fun i =>
    .ofBytes (bytes.getD (2 * i) 0) (bytes.getD (2 * i + 1) 0)

def ofBytes (bytes : List UInt8) : Except DeviceError (List Word) :=
  if bytes.length % 2 == 0 then .ok (pairBytes bytes) else .error (.oddByteCount bytes.length)

theorem length_pairBytes (bytes : List UInt8) :
    (pairBytes bytes).length = bytes.length / 2 := by
  simp [pairBytes]

def rows (words : List Word) : List (Nat × List Word) :=
  let words := words.toArray
  (List.range ((words.size + 1) / 2)).map fun i =>
    (2 * i, (words.extract (2 * i) (2 * i + 2)).toList)

end MicroCisc.Words
