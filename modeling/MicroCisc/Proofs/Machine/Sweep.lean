import Mathlib.Algebra.GroupWithZero.Nat
import MicroCisc.Machine
import MicroCisc.Proofs.Device.Visit
import MicroCisc.Proofs.Processor.Drained

namespace MicroCisc.Machine

-- The machine once the host has taken all that the devices have sent.
def drained (machine : Machine) : Machine :=
  { machine with cpu := machine.cpu.drained }

-- At most so many steps of the processor.
def runFor (machine : Machine) (limit : Nat) : Machine :=
  { machine with cpu := machine.cpu.runFor limit }

variable {α : Type}

-- Runs one chunk of instructions after another. After each the host sweeps.
def runSwept (sweep : Machine → α × Machine) : List Nat → Machine → List α × Machine
  | [], machine => ([], machine)
  | chunk :: rest, machine =>
      let (taken, swept) := sweep (machine.runFor chunk)
      let (later, last) := runSwept sweep rest swept
      (taken :: later, last)

section Sweeping

variable (machine : Machine) (location : Location)

theorem drained_visitDevice {f : Kind → Option α × Kind}
    (hf : ∀ kind, (f kind).2.drained = kind.drained) :
    (machine.visitDevice f location).2.drained = machine.drained := by
  have hbus := machine.cpu.bus.drained_visitKind location.path hf
  simp only [visitDevice, drained, Processor.drained, hbus]

theorem drained_drain : (machine.drain location).2.drained = machine.drained := by
  have hdrain : ∀ kind : Kind, kind.drain.2.drained = kind.drained := fun kind => by
    cases kind <;> rfl
  exact machine.drained_visitDevice location hdrain

theorem drained_take : (machine.take location).2.drained = machine.drained := by
  have htake : ∀ kind : Kind, kind.take.2.drained = kind.drained := fun kind => by
    cases kind <;> rfl
  exact machine.drained_visitDevice location htake

theorem drained_pumpSerial : machine.pumpSerial.2.drained = machine.drained := by
  unfold pumpSerial
  split
  · rfl
  · next first rest _ =>
    refine List.foldlRecOn (motive := fun after : Machine => after.drained = machine.drained) rest _
      (machine.drained_drain first) ?_
    intro after hafter location _
    exact (after.drained_drain location).trans hafter

theorem drained_pumpTerminals : machine.pumpTerminals.2.drained = machine.drained := by
  refine List.foldlRecOn (motive := fun taken : Array UInt8 × Machine =>
    taken.2.drained = machine.drained) machine.terminals _ rfl ?_
  intro taken htaken location _
  exact (taken.2.drained_take location).trans htaken

theorem drained_pump : machine.pump.2.drained = machine.drained :=
  (drained_pumpTerminals _).trans machine.drained_pumpSerial

end Sweeping

-- What does not show the bytes that wait is the same for machines that differ in those alone.
theorem view_eq_of_drained_eq {left right : Machine} (view : Machine → α)
    (hview : ∀ machine, view machine.drained = view machine) (h : left.drained = right.drained) :
    view left = view right := by
  rw [← hview, h, hview]

theorem drained_runFor_congr {left right : Machine} (h : left.drained = right.drained) (n : Nat) :
    (left.runFor n).drained = (right.runFor n).drained := by
  unfold drained at h
  simp only [mk.injEq] at h
  have hcpu := Processor.drained_runFor_congr h.1 n
  simp only [runFor, drained, hcpu, h.2]

theorem runFor_add (machine : Machine) (first second : Nat) :
    machine.runFor (first + second) = (machine.runFor first).runFor second :=
  congrArg (fun cpu => { machine with cpu }) (Processor.runFor_add first second machine.cpu)

theorem drained_runSwept {sweep : Machine → α × Machine}
    (hsweep : ∀ machine, (sweep machine).2.drained = machine.drained) (chunks : List Nat)
    (machine : Machine) :
    (machine.runSwept sweep chunks).2.drained = (machine.runFor chunks.sum).drained := by
  induction chunks generalizing machine with
  | nil => rfl
  | cons chunk rest ih =>
    have hchunk := hsweep (machine.runFor chunk)
    calc (machine.runSwept sweep (chunk :: rest)).2.drained
      _ = ((sweep (machine.runFor chunk)).2.runFor rest.sum).drained := ih _
      _ = ((machine.runFor chunk).runFor rest.sum).drained := drained_runFor_congr hchunk _
      _ = (machine.runFor (chunk :: rest).sum).drained := by rw [List.sum_cons, runFor_add]

end MicroCisc.Machine
