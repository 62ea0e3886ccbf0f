import MicroCisc.Instruction
import MicroCisc.Words

namespace MicroCisc.Listing

def heading : String :=
  "; uCISC disassembly\n; ------------------\n\n"

-- A last word without a partner is data.
def line (address : Nat) (row : List Word) : String :=
  let address := Numeral.text 16 4 address
  match row with
  | [high, low] => s!"{address}: {high.hex} {low.hex}  {(Instruction.decode high low).text}\n"
  | [word] => s!"{address}: {word.hex}       .word\n"
  | _ => ""

def ofWords (words : List Word) : String :=
  heading ++ String.join ((Words.rows words).map fun (address, row) => line address row)

end MicroCisc.Listing
