import MicroCisc.Proofs.Device.Serial.Sender
import MicroCisc.Proofs.Processor.Drained
import MicroCisc.Proofs.Processor.Trajectory

namespace MicroCisc

theorem Bus.sendsTo_afterReads (bus : Bus) (path : List UInt8) (source address : Word)
    (addresses : List Word) :
    (bus.afterReads source addresses).sendsTo path source address =
      bus.sendsTo path source address := by
  have hsame := bus.pointwise_afterReads_sameButKind source addresses
  have hcontroller : ∀ index,
      ((bus.afterReads source addresses).get? index).any (·.device.isController source) =
        (bus.get? index).any (·.device.isController source) := fun index => by
    have hrel := hsame.get? index
    generalize (bus.afterReads source addresses).get? index = after at hrel ⊢
    generalize bus.get? index = before at hrel ⊢
    cases hrel with
    | none => rfl
    | some htree =>
      obtain ⟨kind, hdevice⟩ := htree
      simp only [Option.any_some, hdevice]
      rfl
  simp only [sendsTo, hcontroller]

namespace Processor

-- The byte that the instruction at the pc sends on the line that a path leads to, if it sends one.
def sends? (cpu : Processor) (path : List UInt8) : Option UInt8 :=
  (cpu.busStore? cpu.current).bind fun (address, value) =>
    if cpu.bus.sendsTo path cpu.id address then some value.low else none

-- Does the instruction at the pc send a byte on a line with no free place, and no byte waiting whose
-- place it could take?
def overruns (cpu : Processor) (path : List UInt8) : Bool :=
  cpu.isRunning &&
    match cpu.bus.senderAt? path with
    | some sender =>
        sender.free == 0 && sender.outbound.isEmpty && !(cpu.advance.bus.outboundAt path).isEmpty
    | none => false

variable {cpu kept swept : Processor} {path : List UInt8}

theorem sends?_drained (cpu : Processor) (path : List UInt8) :
    cpu.drained.sends? path = cpu.sends? path := by
  have hstore : cpu.drained.busStore? cpu.drained.current = cpu.busStore? cpu.current :=
    cpu.busStore?_drained cpu.current
  have hid : cpu.drained.id = cpu.id := rfl
  have hbus : cpu.drained.bus = cpu.bus.drained := rfl
  simp only [sends?, hstore, hid, hbus, Bus.sendsTo_drained]

theorem outboundAt_advance (hrunning : cpu.isRunning = true) (path : List UInt8) :
    cpu.advance.bus.outboundAt path =
      match cpu.sends? path with
      | some byte => ((cpu.bus.senderAt? path).map fun sender => (sender.send byte).outbound).getD #[]
      | none => cpu.bus.outboundAt path := by
  obtain ⟨-, -, hbus⟩ := of_step_eq_ok (step_of_isRunning hrunning)
  rw [hbus, Bus.outboundAt_tick]
  unfold Bus.outboundAt busAfter sends?
  cases cpu.busStore? cpu.current with
  | none => simp [Bus.senderAt?_afterReads]
  | some store =>
    obtain ⟨address, value⟩ := store
    simp only [Bus.senderAt?_afterWrite, Bus.sendsTo_afterReads, Bus.senderAt?_afterReads,
      Option.bind_some]
    split
    · simp [Function.comp_def]
    · rfl

-- What goes out after the host has taken some bytes goes out as if it had not.
theorem outboundAt_advance_append {taken : Array UInt8} (hdrained : kept.drained = swept.drained)
    (houtbound : kept.bus.outboundAt path = taken ++ swept.bus.outboundAt path)
    (hrunning : swept.isRunning = true) (hplace : swept.overruns path = false) :
    kept.advance.bus.outboundAt path = taken ++ swept.advance.bus.outboundAt path := by
  have hkept : kept.isRunning = true := (isRunning_congr hdrained).trans hrunning
  have hsends : kept.sends? path = swept.sends? path := by
    rw [← sends?_drained, hdrained, sends?_drained]
  have hadvance := outboundAt_advance hrunning path
  rw [outboundAt_advance hkept, hsends]
  cases hbyte : swept.sends? path with
  | none =>
    rw [hbyte] at hadvance
    rw [hadvance]
    exact houtbound
  | some byte =>
    rw [hbyte] at hadvance
    have hsenders : (kept.bus.senderAt? path).map (·.drained) =
        (swept.bus.senderAt? path).map (·.drained) := by
      have hbus := congrArg (fun cpu : Processor => cpu.bus.senderAt? path) hdrained
      simpa only [drained, Bus.senderAt?_drained] using hbus
    rw [hadvance]
    unfold Bus.outboundAt at houtbound
    unfold overruns at hplace
    rw [hadvance] at hplace
    cases hsender : swept.bus.senderAt? path with
    | none =>
      rw [hsender, Option.map_none, Option.map_eq_none_iff] at hsenders
      rw [hsender, hsenders] at houtbound
      rw [hsenders]
      exact houtbound
    | some sender =>
      rw [hsender] at hsenders houtbound hplace
      obtain ⟨keeper, hkeeper, hfree⟩ := Option.map_eq_some_iff.1 hsenders
      rw [hkeeper] at houtbound ⊢
      apply Sender.outbound_send_append
      · show keeper.drained.free = sender.drained.free
        rw [hfree]
      · exact houtbound
      · rintro ⟨hzero, hempty⟩
        simp [hrunning, hzero, hempty, Sender.send] at hplace

-- The same for a number of instructions.
theorem outboundAt_runFor_append {taken : Array UInt8} (n : Nat)
    (hdrained : kept.drained = swept.drained)
    (houtbound : kept.bus.outboundAt path = taken ++ swept.bus.outboundAt path)
    (hplace : ∀ k < n, (runFor k swept).overruns path = false) :
    (runFor n kept).bus.outboundAt path = taken ++ (runFor n swept).bus.outboundAt path := by
  induction n generalizing kept swept with
  | zero => exact houtbound
  | succ n ih =>
    rw [runFor, runFor, isRunning_congr hdrained]
    cases hrunning : swept.isRunning with
    | false => exact houtbound
    | true =>
      have hfirst : swept.overruns path = false := hplace 0 (Nat.succ_pos n)
      have hrest : ∀ k < n, (runFor k swept.advance).overruns path = false := fun k hk => by
        have hnext := hplace (k + 1) (Nat.succ_lt_succ hk)
        rwa [runFor, if_pos hrunning] at hnext
      exact ih (drained_advance_congr hdrained)
        (outboundAt_advance_append hdrained houtbound hrunning hfirst) hrest

end Processor

end MicroCisc
