namespace MicroCisc

inductive Register where
  | r1
  | r2
  | r3
  | r4
  | r5
  | r6
  deriving DecidableEq, Repr

inductive RegisterError where
  | missing (number : Nat)
  deriving DecidableEq, Repr

def RegisterError.message : RegisterError → String
  | .missing number => s!"register r{number} does not exist"

namespace Register

def index : Register → Fin 6
  | .r1 => 0
  | .r2 => 1
  | .r3 => 2
  | .r4 => 3
  | .r5 => 4
  | .r6 => 5

def number (register : Register) : Nat :=
  register.index.val + 1

def ofNumber : Nat → Except RegisterError Register
  | 1 => .ok .r1
  | 2 => .ok .r2
  | 3 => .ok .r3
  | 4 => .ok .r4
  | 5 => .ok .r5
  | 6 => .ok .r6
  | n => .error (.missing n)

def all : List Register :=
  [.r1, .r2, .r3, .r4, .r5, .r6]

def name (register : Register) : String :=
  s!"r{register.number}"

theorem ofNumber_number (register : Register) : ofNumber register.number = .ok register := by
  cases register <;> rfl

theorem number_of_ofNumber {n : Nat} {register : Register} (h : ofNumber n = .ok register) :
    register.number = n := by
  unfold ofNumber at h
  split at h <;> cases h <;> rfl

end Register

end MicroCisc
