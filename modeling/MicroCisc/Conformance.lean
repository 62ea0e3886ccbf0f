import MicroCisc.Machine

namespace MicroCisc

structure TestOutcome where
  offset : Word
  expected : Word
  -- The halt code, unless the limit was reached first.
  actual : Option Word
  deriving DecidableEq, Repr

def TestOutcome.passed (outcome : TestOutcome) : Bool :=
  outcome.actual == some outcome.expected

namespace Conformance

def defaultLimit : Nat := 1000000

def haltCode? (machine : Machine) (offset : Word) : Option Word :=
  let machine :=
    { machine with
      cpu := machine.cpu.setPc offset
      maxCycles := some (machine.maxCycles.getD defaultLimit) }
  match machine.run.1.1 with
  | .halted code => some code
  | .cycleLimit _ => none

def runTest [Generator] (program : Program) (config : MachineConfig) (test : Expectation) :
    Except DeviceError TestOutcome := do
  let (offset, expected) := test
  let machine ← Machine.ofConfig config
  match machine.load program with
  | (_, some error) => throw error
  | (machine, none) => return { offset, expected, actual := haltCode? machine offset }

def runTests [Generator] (program : Program) (config : MachineConfig) :
    Except DeviceError (List TestOutcome) :=
  program.tests.entries.mapM (runTest program config)

end Conformance

end MicroCisc
