import MicroCisc.Proofs.Device.EveryKind
import MicroCisc.Proofs.Faults.Device

namespace MicroCisc

/-! ### The serial lines of a tree -/

-- Is the device no serial line, or is this true of its rate and of the time since its last byte?
def Kind.EveryLine (p : Nat → Nat → Prop) : Kind → Prop
  | .serial line => p line.baud line.elapsed
  | _ => True

mutual

def DeviceTree.EveryLine (p : Nat → Nat → Prop) : DeviceTree → Prop
  | .node device bus => device.kind.EveryLine p ∧ Bus.EveryLine p bus

def Bus.EveryLine (p : Nat → Nat → Prop) : Bus → Prop
  | [] => True
  | (_, tree) :: rest => tree.EveryLine p ∧ Bus.EveryLine p rest

end

-- Accesses to a line change neither its rate nor its time.
theorem SerialLine.steady_receive (line : SerialLine) :
    line.receive.2.baud = line.baud ∧ line.receive.2.elapsed = line.elapsed := by
  unfold receive
  split
  · exact ⟨rfl, rfl⟩
  · split <;> exact ⟨rfl, rfl⟩

theorem SerialLine.steady_writeSlot (line : SerialLine) (slot : Slot) (value : Word) :
    (line.writeSlot slot value).baud = line.baud ∧
      (line.writeSlot slot value).elapsed = line.elapsed := by
  unfold writeSlot
  split
  · unfold transmit
    split <;> exact ⟨rfl, rfl⟩
  · exact ⟨rfl, rfl⟩

variable {p q : Nat → Nat → Prop}

namespace Kind

theorem lasting_everyLine : Lasting (EveryLine p) where
  receive {kind} h := by
    cases kind with
    | serial line =>
      obtain ⟨hbaud, helapsed⟩ := line.steady_receive
      simpa only [receive, EveryLine, hbaud, helapsed] using h
    | processor | memory | terminal | leds => trivial
  writeSlot {kind} slot value h := by
    cases kind with
    | serial line =>
      obtain ⟨hbaud, helapsed⟩ := line.steady_writeSlot slot value
      simpa only [writeSlot, EveryLine, hbaud, helapsed] using h
    | processor | memory | terminal | leds => trivial

theorem EveryLine.and {kind : Kind} (hp : kind.EveryLine p) (hq : kind.EveryLine q) :
    kind.EveryLine fun baud elapsed => p baud elapsed ∧ q baud elapsed := by
  cases kind with
  | serial line => exact ⟨hp, hq⟩
  | processor | memory | terminal | leds => trivial

theorem EveryLine.mono (hpq : ∀ baud elapsed, p baud elapsed → q baud elapsed) {kind : Kind}
    (h : kind.EveryLine p) : kind.EveryLine q := by
  cases kind with
  | serial line => exact hpq line.baud line.elapsed h
  | processor | memory | terminal | leds => trivial

end Kind

mutual

theorem DeviceTree.everyLine_iff :
    (tree : DeviceTree) → (tree.EveryLine p ↔ tree.EveryKind (Kind.EveryLine p))
  | .node _ bus => and_congr_right fun _ => Bus.everyLine_iff bus

theorem Bus.everyLine_iff : (bus : Bus) → (bus.EveryLine p ↔ bus.EveryKind (Kind.EveryLine p))
  | [] => Iff.rfl
  | (_, tree) :: rest => and_congr tree.everyLine_iff (Bus.everyLine_iff rest)

end

namespace Bus

variable {bus : Bus}

theorem EveryLine.and (hp : bus.EveryLine p) (hq : bus.EveryLine q) :
    bus.EveryLine fun baud elapsed => p baud elapsed ∧ q baud elapsed := by
  rw [everyLine_iff] at hp hq ⊢
  exact (hp.and hq).mono fun _ hkind => hkind.1.and hkind.2

theorem EveryLine.mono (hpq : ∀ baud elapsed, p baud elapsed → q baud elapsed)
    (h : bus.EveryLine p) : bus.EveryLine q := by
  rw [everyLine_iff] at h ⊢
  exact EveryKind.mono (fun _ hkind => hkind.mono hpq) h

end Bus

/-! ### Time -/

-- A terminal reads the words that it prints.
def Terminal.checkedTick (display : Terminal) (memory : Memory) : Checked Terminal :=
  if display.start == display.finish then return display
  else do
    let words ← (List.range (display.finish - display.start).toNat).mapM fun i =>
      memory.checkedRead (display.start + .ofNat i).toUInt16
    return { display with
      start := display.finish
      printed := display.printed ++ words.flatMap characters }

def Kind.checkedTick (kind : Kind) (memory : Memory) (nanos : Nat) : Checked Kind :=
  match kind with
  | .serial line => return .serial (← line.checkedTick nanos)
  | .terminal display => return .terminal (← display.checkedTick memory)
  | kind => return kind

mutual

def DeviceTree.checkedTick (nanos : Nat) : DeviceTree → Checked DeviceTree
  | .node device bus => do
      let kind ← device.kind.checkedTick device.memory nanos
      let bus ← Bus.checkedTick nanos bus
      return .node { device with kind } bus

def Bus.checkedTick (nanos : Nat) : Bus → Checked Bus
  | [] => return []
  | (index, tree) :: rest => do
      let tree ← tree.checkedTick nanos
      let rest ← Bus.checkedTick nanos rest
      return (index, tree) :: rest

end

theorem Terminal.checkedTick_eq (display : Terminal) (memory : Memory) :
    display.checkedTick memory = pure (display.tick memory) := by
  have hwords : (List.range (display.finish - display.start).toNat).mapM
      (fun i => memory.checkedRead (display.start + .ofNat i).toUInt16) =
      pure (display.text memory) := by
    simp only [Memory.checkedRead_eq, List.mapM_pure]
    rfl
  rw [checkedTick, hwords, pure_bind]
  exact (apply_ite pure _ _ _).symm

-- May so many nanoseconds pass on a line with this rate and this time?
def MayPass (nanos baud elapsed : Nat) : Prop :=
  SerialLine.IsRate baud ∧ elapsed + nanos < 2 ^ 64

theorem Kind.checkedTick_eq {kind : Kind} {nanos : Nat} (h : kind.EveryLine (MayPass nanos))
    (memory : Memory) : kind.checkedTick memory nanos = pure (kind.tick memory nanos) := by
  cases kind with
  | serial line =>
    rw [checkedTick, line.checkedTick_eq h.1 h.2, pure_bind]
    rfl
  | terminal display =>
    rw [checkedTick, display.checkedTick_eq, pure_bind]
    rfl
  | processor regs | memory | leds bank => rfl

mutual

theorem DeviceTree.checkedTick_eq {nanos : Nat} :
    (tree : DeviceTree) → tree.EveryLine (MayPass nanos) →
      tree.checkedTick nanos = pure (tree.tick nanos)
  | .node device bus, h => by
      rw [DeviceTree.checkedTick, Kind.checkedTick_eq h.1, pure_bind, Bus.checkedTick_eq bus h.2,
        pure_bind]
      rfl

theorem Bus.checkedTick_eq {nanos : Nat} :
    (bus : Bus) → bus.EveryLine (MayPass nanos) → Bus.checkedTick nanos bus = pure (Bus.tick nanos bus)
  | [], _ => rfl
  | (index, tree) :: rest, h => by
      rw [Bus.checkedTick, tree.checkedTick_eq h.1, pure_bind, Bus.checkedTick_eq rest h.2, pure_bind]
      rfl

end

/-! ### What stays true as time passes -/

-- The rate of a line stays, and of its time there remains what does not make up a byte period.
def Lasts (nanos : Nat) (p : Nat → Nat → Prop) : Prop :=
  ∀ baud elapsed, p baud elapsed → p baud ((elapsed + nanos) % (1000000000 / (baud / 10)))

theorem lasts_isRate (nanos : Nat) : Lasts nanos fun baud _ => SerialLine.IsRate baud :=
  fun _ _ hrate => hrate

-- A line has a rate that it can have, and less time than a second has gone by since its last byte.
def IsRegular (baud elapsed : Nat) : Prop :=
  SerialLine.IsRate baud ∧ elapsed < 1000000000

theorem lasts_isRegular (nanos : Nat) : Lasts nanos IsRegular := by
  intro baud elapsed h
  have hless := Nat.mod_lt (elapsed + nanos) h.1.period_pos
  exact ⟨h.1, Nat.lt_of_lt_of_le hless (SerialLine.period_le baud)⟩

theorem Kind.lastsFor_everyLine {nanos : Nat} (hp : Lasts nanos p) :
    Kind.LastsFor nanos (Kind.EveryLine p) := by
  intro kind memory h
  cases kind with
  | serial line =>
    obtain ⟨ready, free, hpass⟩ := SerialLine.passPeriods_eq
      ((line.elapsed + nanos) / line.bytePeriod)
      { line with elapsed := (line.elapsed + nanos) % line.bytePeriod }
    have hlasts : p line.baud ((line.elapsed + nanos) % line.bytePeriod) := hp _ _ h
    simpa only [tick, SerialLine.tick, hpass, EveryLine] using hlasts
  | processor | memory | terminal | leds => trivial

end MicroCisc
