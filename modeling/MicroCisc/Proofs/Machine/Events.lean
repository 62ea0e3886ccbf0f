import MicroCisc.Machine
import MicroCisc.Proofs.Processor.Execute

namespace MicroCisc

namespace DeviceTree

-- A visit ends at the top of the tree or somewhere below it.
theorem sameButKind_visit {α : Type} {f : DeviceTree → α × DeviceTree}
    (hf : ∀ tree : DeviceTree, tree.SameButKind (f tree).2) (path : List UInt8) (tree : DeviceTree) :
    tree.SameButKind (tree.visit f path).2 := by
  cases path with
  | nil =>
    rw [visit]
    exact hf tree
  | cons index path =>
    cases tree with
    | node device bus => exact ⟨device.kind, rfl⟩

end DeviceTree

namespace Bus

variable {α : Type}

theorem pointwise_visit {R : UInt8 → DeviceTree → DeviceTree → Prop}
    {f : DeviceTree → α × DeviceTree} (hrefl : ∀ index tree, R index tree tree) {index : UInt8}
    {path : List UInt8} (hvisit : ∀ tree : DeviceTree, R index tree (tree.visit f path).2)
    (bus : Bus) : Pointwise R bus (bus.visit f index path).2 := by
  induction bus with
  | nil => exact .nil
  | cons first rest ih =>
    obtain ⟨i, tree⟩ := first
    simp only [visit, beq_iff_eq]
    split
    · next h =>
      subst h
      exact .cons ⟨rfl, hvisit tree⟩ (Pointwise.refl hrefl rest)
    · exact .cons ⟨rfl, hrefl _ _⟩ ih

theorem pointwise_visitKind (f : Kind → Option α × Kind) (path : List UInt8) (bus : Bus) :
    Pointwise (fun _ => DeviceTree.SameButKind) bus (bus.visitKind f path).2 := by
  unfold visitKind
  split
  · exact .refl (fun _ => .refl) bus
  · next index path =>
    apply pointwise_visit (fun _ => .refl)
    apply DeviceTree.sameButKind_visit
    rintro ⟨device, below⟩
    exact ⟨_, rfl⟩

end Bus

namespace Machine

-- An instruction of the processor, or something that the host does.
inductive Event where
  | step
  | load (program : Program)
  | feed (location : Location) (bytes : List UInt8)
  | drain (location : Location)
  | take (location : Location)
  | pump
  | raiseInterrupt (pointer : Word)
  | reset
  | resume

-- A processor that has halted does not step.
def perform (machine : Machine) : Event → Machine
  | .step =>
      match machine.cpu.step with
      | .ok (_, cpu) => { machine with cpu }
      | .error _ => machine
  | .load program => (machine.load program).1
  | .feed location bytes => (machine.feed location bytes).2
  | .drain location => (machine.drain location).2
  | .take location => (machine.take location).2
  | .pump => machine.pump.2
  | .raiseInterrupt pointer => { machine with cpu := machine.cpu.raiseInterrupt pointer }
  | .reset => { machine with cpu := machine.cpu.reset }
  | .resume => { machine with cpu := machine.cpu.resume }

def performAll (machine : Machine) (events : List Event) : Machine :=
  events.foldl perform machine

theorem perform_step {machine : Machine} (hrun : machine.cpu.isRunning = true) :
    machine.perform .step = { machine with cpu := machine.cpu.advance } := by
  have hstep : machine.cpu.step = .ok (machine.cpu.current, machine.cpu.advance) := if_pos hrun
  unfold perform
  simp only [hstep]

-- What the host can change of the devices, and that the processor keeps its id.
structure HostFrame (before after : Machine) : Prop where
  id : after.cpu.id = before.cpu.id
  bus : Bus.Pointwise (fun _ => DeviceTree.SameButKind) before.cpu.bus after.cpu.bus

theorem HostFrame.of_bus_eq {before after : Machine} (hid : after.cpu.id = before.cpu.id)
    (hbus : after.cpu.bus = before.cpu.bus) : before.HostFrame after := by
  refine ⟨hid, ?_⟩
  rw [hbus]
  exact .refl (fun _ => .refl) _

theorem HostFrame.trans {before between after : Machine} (hfirst : before.HostFrame between)
    (hsecond : between.HostFrame after) : before.HostFrame after :=
  ⟨hsecond.id.trans hfirst.id, hfirst.bus.trans (fun _ _ _ _ => .trans) hsecond.bus⟩

variable {α : Type}

-- One visit after another, each in the machine that the last one left.
theorem hostFrame_foldl (state : α → Machine) {visit : α → Location → α}
    (hvisit : ∀ a location, (state a).HostFrame (state (visit a location)))
    (locations : List Location) (start : α) :
    (state start).HostFrame (state (locations.foldl visit start)) := by
  induction locations generalizing start with
  | nil => exact .of_bus_eq rfl rfl
  | cons location rest ih => exact (hvisit start location).trans (ih _)

variable (machine : Machine)

theorem hostFrame_visitDevice (f : Kind → Option α × Kind) (location : Location) :
    machine.HostFrame (machine.visitDevice f location).2 :=
  ⟨rfl, machine.cpu.bus.pointwise_visitKind f location.path⟩

theorem hostFrame_drain (location : Location) : machine.HostFrame (machine.drain location).2 :=
  machine.hostFrame_visitDevice Kind.drain location

theorem hostFrame_take (location : Location) : machine.HostFrame (machine.take location).2 :=
  machine.hostFrame_visitDevice Kind.take location

theorem hostFrame_pumpSerial : machine.HostFrame machine.pumpSerial.2 := by
  unfold pumpSerial
  split
  · exact .of_bus_eq rfl rfl
  · next first rest _ =>
    have hfirst := machine.hostFrame_drain first
    have hrest := hostFrame_foldl (fun machine => machine) hostFrame_drain rest
      (machine.drain first).2
    exact hfirst.trans hrest

theorem hostFrame_pumpTerminals : machine.HostFrame machine.pumpTerminals.2 := by
  unfold pumpTerminals
  refine hostFrame_foldl (fun taken : Array UInt8 × Machine => taken.2) ?_ machine.terminals
    (#[], machine)
  intro taken location
  exact taken.2.hostFrame_take location

theorem hostFrame_perform {event : Event} (h : event ≠ .step) :
    machine.HostFrame (machine.perform event) := by
  cases event with
  | step => exact absurd rfl h
  | feed location bytes => exact machine.hostFrame_visitDevice (Kind.feed bytes) location
  | drain location => exact machine.hostFrame_visitDevice Kind.drain location
  | take location => exact machine.hostFrame_visitDevice Kind.take location
  | pump => exact machine.hostFrame_pumpSerial.trans (hostFrame_pumpTerminals _)
  | load program =>
    unfold perform load
    dsimp only
    split
    · split <;> exact .of_bus_eq rfl rfl
    · split <;> exact .of_bus_eq rfl rfl
  | raiseInterrupt pointer | reset => exact .of_bus_eq rfl rfl
  | resume =>
    unfold perform Processor.resume
    dsimp only
    split
    · exact .of_bus_eq rfl rfl
    · exact .of_bus_eq rfl rfl

end Machine

end MicroCisc
