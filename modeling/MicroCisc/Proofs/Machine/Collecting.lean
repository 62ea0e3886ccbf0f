import MicroCisc.Device.ChaCha
import MicroCisc.Proofs.Machine.Events
import MicroCisc.Proofs.Machine.Sweep

namespace MicroCisc

/-! ### Visits to drained devices -/

section Visits

variable {α : Type} {f : Kind → Option α × Kind}

theorem DeviceTree.drained_visit_drained
    (hf : ∀ kind : Kind, (f kind.drained).2.drained = (f kind).2.drained) (path : List UInt8)
    (tree : DeviceTree) :
    (tree.drained.visit (visitTop f) path).2.drained = (tree.visit (visitTop f) path).2.drained := by
  induction path generalizing tree with
  | nil =>
    cases tree with
    | node device bus =>
      simp only [drained, visit, visitTop, Device.drained, hf, Bus.drained_drained]
  | cons index path ih =>
    cases tree with
    | node device bus =>
      have hbelow := Bus.drained_modify (f := fun tree => (tree.visit (visitTop f) path).2) ih
      simp only [drained, visit, Bus.snd_visit, device.drained_drained, hbelow]

theorem Bus.drained_visitKind_drained
    (hf : ∀ kind : Kind, (f kind.drained).2.drained = (f kind).2.drained) (path : List UInt8)
    (bus : Bus) : (bus.drained.visitKind f path).2.drained = (bus.visitKind f path).2.drained := by
  cases path with
  | nil => exact bus.drained_drained
  | cons index path =>
    have hvisit : ∀ bus : Bus, (bus.visitKind f (index :: path)).2 =
        Bus.modify (fun tree => (tree.visit (DeviceTree.visitTop f) path).2) index bus :=
      fun bus => bus.snd_visit (DeviceTree.visitTop f) index path
    rw [hvisit, hvisit]
    exact drained_modify (DeviceTree.drained_visit_drained hf path) index bus

end Visits

/-! ### What the program sees -/

-- The bytes that the host has sent and the device has not received, for a serial line.
def Kind.inbound? : Kind → Option (List UInt8)
  | .serial line => some line.inbound.toList
  | _ => none

-- Two devices that show the same: each control slot, to whoever reads it, each word of the memory,
-- and the bytes that are still to be received.
structure Device.Alike (left right : Device Kind) : Prop where
  slots : ∀ source slot access,
    (left.readSlot source slot access).1 = (right.readSlot source slot access).1
  memory : left.memory = right.memory
  inbound : left.kind.inbound? = right.kind.inbound?

theorem Device.alike_of_drained_eq {left right : Device Kind} (h : left.drained = right.drained) :
    left.Alike right where
  slots source slot access := by
    have hleft := congrArg Prod.fst (left.readSlot_drained source slot access)
    have hright := congrArg Prod.fst (right.readSlot_drained source slot access)
    rw [← hleft, h, hright]
  memory := congrArg (·.memory) h
  inbound := by
    have hkind : ∀ kind : Kind, kind.drained.inbound? = kind.inbound? := fun kind => by
      cases kind <;> rfl
    have hdevice : ∀ device : Device Kind, device.drained.kind.inbound? = device.kind.inbound? :=
      fun device => hkind device.kind
    rw [← hdevice, h, hdevice]

theorem Processor.resume_drained (cpu : Processor) : cpu.drained.resume = cpu.resume.drained := by
  obtain ⟨master, state, cycles, nanos, last⟩ := cpu
  cases state <;> rfl

namespace Machine

-- Two machines that a program cannot tell apart. The processors agree on their registers, control
-- words and memories, on whether they run, and on what they have executed; and the same paths lead
-- to devices that show the same.
structure Alike (left right : Machine) : Prop where
  processor : left.cpu.device = right.cpu.device
  state : left.cpu.state = right.cpu.state
  cycles : left.cpu.cycles = right.cpu.cycles
  last : left.cpu.last = right.cpu.last
  devices : ∀ path,
    Option.Rel Device.Alike (left.cpu.bus.deviceAt? path) (right.cpu.bus.deviceAt? path)

theorem alike_of_drained_eq {left right : Machine} (h : left.drained = right.drained) :
    left.Alike right where
  processor := view_eq_of_drained_eq (·.cpu.device) (fun _ => rfl) h
  state := view_eq_of_drained_eq (·.cpu.state) (fun _ => rfl) h
  cycles := view_eq_of_drained_eq (·.cpu.cycles) (fun _ => rfl) h
  last := view_eq_of_drained_eq (·.cpu.last) (fun _ => rfl) h
  devices path := by
    have hdevice := congrArg (fun machine : Machine => machine.cpu.bus.deviceAt? path) h
    simp only [drained, Processor.drained, Bus.deviceAt?_drained] at hdevice
    cases hleft : left.cpu.bus.deviceAt? path with
    | none =>
      rw [hleft, Option.map_none, eq_comm, Option.map_eq_none_iff] at hdevice
      rw [hdevice]
      exact .none
    | some device =>
      rw [hleft, Option.map_some, eq_comm, Option.map_eq_some_iff] at hdevice
      obtain ⟨other, hright, hsame⟩ := hdevice
      rw [hright]
      exact .some (Device.alike_of_drained_eq hsame.symm)

-- Does the host only collect what devices have sent?
def Event.collects : Event → Bool
  | .drain _ | .take _ | .pump => true
  | _ => false

-- The machine after each instruction of a run.
def afterSteps (machine : Machine) : List Event → List Machine
  | [] => []
  | .step :: rest => machine.perform .step :: (machine.perform .step).afterSteps rest
  | event :: rest => (machine.perform event).afterSteps rest

variable {machine left right : Machine} {event : Event}

theorem drained_drained (machine : Machine) : machine.drained.drained = machine.drained :=
  congrArg (fun cpu => { machine with cpu }) machine.cpu.drained_drained

theorem drained_visitDevice_drained {α : Type} {f : Kind → Option α × Kind}
    (hf : ∀ kind : Kind, (f kind.drained).2.drained = (f kind).2.drained) (machine : Machine)
    (location : Location) :
    (machine.drained.visitDevice f location).2.drained =
      (machine.visitDevice f location).2.drained := by
  have hbus := Bus.drained_visitKind_drained hf location.path machine.cpu.bus
  simp only [visitDevice, drained, Processor.drained, hbus]

theorem drained_perform_of_collects (h : event.collects = true) (machine : Machine) :
    (machine.perform event).drained = machine.drained := by
  cases event with
  | drain location => exact machine.drained_drain location
  | take location => exact machine.drained_take location
  | pump => exact machine.drained_pump
  | step | load program | feed location bytes | raiseInterrupt pointer | reset | resume => cases h

theorem drained_perform (machine : Machine) (event : Event) :
    (machine.drained.perform event).drained = (machine.perform event).drained := by
  cases event with
  | step =>
    have hrunning : machine.drained.cpu.isRunning = machine.cpu.isRunning := rfl
    by_cases hrun : machine.cpu.isRunning = true
    · have hadvance := machine.cpu.drained_advance
      rw [perform_step hrun, perform_step (hrunning.trans hrun)]
      exact congrArg (fun cpu => { machine with cpu }) hadvance
    · have hstay : ∀ machine : Machine, ¬machine.cpu.isRunning = true →
          machine.perform .step = machine := fun machine h => by
        simp only [perform, Processor.step, if_neg h]
      rw [hstay _ hrun, hstay _ (hrunning ▸ hrun), drained_drained]
  | feed location bytes =>
    refine machine.drained_visitDevice_drained (f := Kind.feed bytes) (fun kind => ?_) location
    cases kind <;> rfl
  | drain location | take location | pump =>
    rw [drained_perform_of_collects rfl, drained_perform_of_collects rfl, drained_drained]
  | load program =>
    have hload : (machine.drained.load program).1 = (machine.load program).1.drained := by
      have hrom : machine.drained.rom = machine.rom := rfl
      have hcpu : ∀ loader, machine.drained.cpu.load loader =
          ((machine.cpu.load loader).1.drained, (machine.cpu.load loader).2) := fun _ => rfl
      simp only [load, hrom, hcpu]
      split
      · split <;> rfl
      · split <;> rfl
    show (machine.drained.load program).1.drained = (machine.load program).1.drained
    rw [hload, drained_drained]
  | raiseInterrupt pointer =>
    exact (machine.perform (.raiseInterrupt pointer)).drained_drained
  | reset => exact (machine.perform .reset).drained_drained
  | resume =>
    simp only [perform, drained, Processor.resume_drained, Processor.drained_drained]

-- The machines after each instruction are the same, but for what waits to be collected.
theorem map_drained_afterSteps (h : left.drained = right.drained) (events : List Event) :
    (left.afterSteps events).map drained =
      (right.afterSteps (events.filter fun event => !event.collects)).map drained := by
  induction events generalizing left right with
  | nil => rfl
  | cons event rest ih =>
    by_cases hcollects : event.collects = true
    · have hrest := ih ((drained_perform_of_collects hcollects left).trans h)
      rw [List.filter_cons_of_neg (by simp [hcollects])]
      cases event with
      | drain location | take location | pump => exact hrest
      | step | load program | feed location bytes | raiseInterrupt pointer | reset | resume =>
        cases hcollects
    · have hnext : (left.perform event).drained = (right.perform event).drained := by
        rw [← drained_perform, h, drained_perform]
      have hrest := ih hnext
      rw [List.filter_cons_of_pos (by simp [hcollects])]
      cases event with
      | step => simp only [afterSteps, List.map_cons, hnext, hrest]
      | drain location | take location | pump => exact absurd rfl hcollects
      | load program | feed location bytes | raiseInterrupt pointer | reset | resume => exact hrest

-- When the host collects makes no difference to the program. Two runs with the same instructions, and
-- with the same bytes fed between the same instructions, agree after every one of them.
theorem alike_afterSteps (machine : Machine) {first second : List Event}
    (h : first.filter (fun event => !event.collects) =
      second.filter fun event => !event.collects) :
    List.Forall₂ Alike (machine.afterSteps first) (machine.afterSteps second) := by
  have hfirst := map_drained_afterSteps (rfl : machine.drained = machine.drained) first
  have hsecond := map_drained_afterSteps (rfl : machine.drained = machine.drained) second
  have hsame : List.Forall₂ (· = ·) ((machine.afterSteps first).map drained)
      ((machine.afterSteps second).map drained) := by
    rw [hfirst, h, ← hsecond]
    exact List.forall₂_refl _
  rw [List.forall₂_map_left_iff, List.forall₂_map_right_iff] at hsame
  exact hsame.imp fun _ _ => alike_of_drained_eq

-- A program that writes three bytes to a line with two places. The host that drains after each
-- instruction takes them all, the other finds the third in the place of the second.
theorem alike_afterSteps_busy_line :
    let config : MachineConfig :=
      { processor := { ProcessorConfig.standard with addressWidth := 8 }
        devices := [{ index := 16, id := 100, kind := .serial 9600 (.fixed 0), connected := [] }]
        maxCycles := none }
    let program := Program.ofWords
      [0x4D40, 0x0102, 0x4940, 1, 0x4D40, 0x0108, 0x4940, 97, 0x4940, 98, 0x4940, 99]
    let line : Location := ⟨100, [16]⟩
    let first := [.load program, .feed line [7]] ++ List.replicate 6 Event.step
    let second := [.load program, .feed line [7]] ++
      (List.replicate 6 [Event.step, .drain line]).flatten
    ∃ built, ofConfig config = .ok built ∧
      first.filter (fun event => !event.collects) = second.filter (fun event => !event.collects) ∧
      ((built.performAll first).drain line).1 = #[97, 99] ∧
      ((built.performAll second).drain line).1 = #[] ∧
      List.Forall₂ Alike (built.afterSteps first) (built.afterSteps second) := by
  intro config program line first second
  have hinputs : first.filter (fun event => !event.collects) =
      second.filter fun event => !event.collects := rfl
  have hruns : ∃ built, ofConfig config = .ok built ∧
      ((built.performAll first).drain line).1 = #[97, 99] ∧
      ((built.performAll second).drain line).1 = #[] :=
    ⟨_, rfl, by decide +kernel⟩
  obtain ⟨built, hbuilt, hkept, htaken⟩ := hruns
  exact ⟨built, hbuilt, hinputs, hkept, htaken, alike_afterSteps built hinputs⟩

end Machine

end MicroCisc
