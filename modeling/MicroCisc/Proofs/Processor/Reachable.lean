import MicroCisc.Proofs.Device.EveryKind
import MicroCisc.Proofs.Processor.Lifecycle

namespace MicroCisc.Processor

/-! ### The kinds of the devices below -/

section EveryKind

variable {cpu : Processor} {p : Kind → Prop}

theorem everyKind_busAfter (hp : Kind.Lasting p) (h : cpu.bus.EveryKind p) (instr : Instruction) :
    (cpu.busAfter instr).EveryKind p := by
  have hreads := h.afterReads hp cpu.id (cpu.readAddresses instr)
  unfold busAfter
  split
  · exact hreads.afterWrite hp cpu.id _ _
  · exact hreads

theorem everyKind_advance (hp : Kind.Lasting p) (htick : Kind.LastsFor cpu.nanosPerInstruction p)
    (h : cpu.bus.EveryKind p) : cpu.advance.bus.EveryKind p := by
  rw [bus_advance]
  exact (everyKind_busAfter hp h cpu.current).tick htick

theorem everyKind_runFor (hp : Kind.Lasting p) (htick : ∀ nanos, Kind.LastsFor nanos p)
    (h : cpu.bus.EveryKind p) (limit : Nat) : (cpu.runFor limit).bus.EveryKind p := by
  induction limit generalizing cpu with
  | zero => exact h
  | succ limit ih =>
    rw [runFor]
    split
    · exact ih (everyKind_advance hp (htick _) h)
    · exact h

end EveryKind

/-! ### Actions -/

-- What can be done to a processor and to the devices below it.
inductive Action where
  | operate (operation : Operation)
  | setPace (nanos : Nat)
  -- The owner changes the registers, the memory or the control words as it likes.
  | setDevice (device : Device Registers)
  | act (path : List UInt8) (action : HostAction)
  | feed (path : List UInt8) (bytes : List UInt8)
  | drain (path : List UInt8)
  | take (path : List UInt8)
  -- One tree takes the place of another, as it does if the host changes a device below, or connects
  -- something to it.
  | replace (index : UInt8) (path : List UInt8) (tree : DeviceTree)

def Action.isPeek : Action → Bool
  | .operate (.peek _) => true
  | _ => false

-- The serial lines of a tree that comes in are in states that a line can come to.
def Action.IsSound : Action → Prop
  | .operate (.connect _ tree) => tree.EveryKind Kind.Occurs
  | .replace _ _ tree => tree.EveryKind Kind.Occurs
  | _ => True

def undergo (cpu : Processor) : Action → Processor
  | .operate operation => cpu.operate operation
  | .setPace nanos => { cpu with nanosPerInstruction := nanos }
  | .setDevice device => { cpu with device }
  | .act path action => { cpu with toBusMaster := cpu.toBusMaster.actAt action path }
  | .feed path bytes => { cpu with bus := (cpu.bus.visitKind (Kind.feed bytes) path).2 }
  | .drain path => { cpu with bus := (cpu.bus.visitKind Kind.drain path).2 }
  | .take path => { cpu with bus := (cpu.bus.visitKind Kind.take path).2 }
  | .replace index path tree =>
      { cpu with bus := (cpu.bus.visit (fun _ => ((), tree)) index path).2 }

def undergoAll (cpu : Processor) (actions : List Action) : Processor :=
  actions.foldl undergo cpu

-- The states that a processor can come to from new.
inductive Reachable : Processor → Prop
  | new {id : Word} {width : UInt8} {built : Processor} (h : ofWidth id width = .ok built) :
      Reachable built
  | undergo {cpu : Processor} (h : Reachable cpu) {action : Action} (hsound : action.IsSound) :
      Reachable (cpu.undergo action)

theorem bus_ofWidth {id : Word} {width : UInt8} {built : Processor}
    (h : ofWidth id width = .ok built) : built.bus = [] := by
  unfold ofWidth at h
  split at h
  · cases h
  · cases hdevice : Device.ofKind id Registers.initial width with
    | error e =>
      rw [hdevice] at h
      cases h
    | ok device =>
      rw [hdevice] at h
      cases h
      rfl

variable {cpu : Processor}

theorem occurs_connect (h : cpu.bus.EveryKind Kind.Occurs) {tree : DeviceTree}
    (htree : tree.EveryKind Kind.Occurs) (index : UInt8) :
    (cpu.operate (.connect index tree)).bus.EveryKind Kind.Occurs := by
  rcases cpu.operate_connect_eq index tree with hfails | hconnects
  · rw [hfails]
    exact h
  · rw [hconnects]
    exact h.insert (htree.placedAt index) index

theorem occurs_operate (h : cpu.bus.EveryKind Kind.Occurs) {operation : Operation}
    (hsound : (Action.operate operation).IsSound) :
    (cpu.operate operation).bus.EveryKind Kind.Occurs := by
  have hruns := everyKind_runFor Kind.lasting_occurs Kind.lastsFor_occurs h
  cases operation with
  | step =>
    rw [operate_step]
    exact hruns 1
  | run =>
    rw [operate_run]
    exact hruns _
  | runLimited limit =>
    rw [operate_runLimited]
    exact hruns _
  | resume =>
    cases hstate : cpu.state with
    | running =>
      rw [operate, resume, hstate]
      exact h
    | halted code =>
      rw [operate, resume_of_halted hstate]
      exact h
  | peek code =>
    rw [operate, snd_readOperand_peek]
    exact h
  | connect index tree => exact occurs_connect h hsound index
  | reset | raiseInterrupt pointer | load loader | setPc pc => exact h

-- Every serial line below stays in states that one can come to.
theorem occurs_undergo (h : cpu.bus.EveryKind Kind.Occurs) {action : Action}
    (hsound : action.IsSound) : (cpu.undergo action).bus.EveryKind Kind.Occurs := by
  cases action with
  | operate operation => exact occurs_operate h hsound
  | act path action =>
    exact BusMaster.everyKind_actAt Kind.lasting_occurs Kind.lastsFor_occurs h action path
  | feed path bytes => exact h.visitKind (Kind.occurs_feed bytes) path
  | drain path => exact h.visitKind Kind.occurs_drain path
  | take path => exact h.visitKind Kind.occurs_take path
  | replace index path tree =>
    refine h.visit ?_ index path
    exact fun _ _ => hsound
  | setPace nanos | setDevice device => exact h

theorem Reachable.occurs (h : cpu.Reachable) : cpu.bus.EveryKind Kind.Occurs := by
  induction h with
  | new hbuilt =>
    rw [bus_ofWidth hbuilt]
    trivial
  | undergo _ hsound ih => exact occurs_undergo ih hsound

theorem Reachable.undergoAll (h : cpu.Reachable) {actions : List Action}
    (hsound : ∀ action ∈ actions, action.IsSound) : (cpu.undergoAll actions).Reachable := by
  induction actions generalizing cpu with
  | nil => exact h
  | cons action rest ih =>
    have hfirst : (cpu.undergo action).Reachable := h.undergo (hsound action (by simp))
    exact ih hfirst fun later hlater => hsound later (List.mem_cons_of_mem _ hlater)

end MicroCisc.Processor
