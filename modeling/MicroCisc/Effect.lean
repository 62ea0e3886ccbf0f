import MicroCisc.Flags

namespace MicroCisc

inductive Effect where
  | zero
  | notZero
  | negative
  | never
  | always
  | overflow
  | error
  | interrupt
  deriving DecidableEq, Repr

namespace Effect

def code : Effect → Word
  | .zero => 0
  | .notZero => 1
  | .negative => 2
  | .never => 3
  | .always => 4
  | .overflow => 5
  | .error => 6
  | .interrupt => 7

def ofCode (code : Word) : Effect :=
  match (code &&& 0x7).toNat with
  | 0 => .zero
  | 1 => .notZero
  | 2 => .negative
  | 3 => .never
  | 4 => .always
  | 5 => .overflow
  | 6 => .error
  | _ => .interrupt

def fires (effect : Effect) (flags : Flags) : Bool :=
  match effect with
  | .zero => flags.has .zero
  | .notZero => !flags.has .zero
  | .negative => flags.has .negative
  | .never => false
  | .always => true
  | .overflow => flags.has .overflow
  | .error => flags.has .error
  | .interrupt => flags.has .interrupt

def label : Effect → String
  | .zero => "zero"
  | .notZero => "!zero"
  | .negative => "negative"
  | .never => "never"
  | .always => "always"
  | .overflow => "overflow"
  | .error => "error"
  | .interrupt => "interrupt"

theorem ofCode_code (effect : Effect) : ofCode effect.code = effect := by
  cases effect <;> rfl

end Effect

end MicroCisc
