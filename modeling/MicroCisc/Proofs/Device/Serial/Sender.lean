import MicroCisc.Proofs.Device.Serial.Traffic
import MicroCisc.Proofs.Device.Visit
import MicroCisc.Proofs.Machine.Ownership

namespace MicroCisc

structure Sender where
  outbound : Array UInt8
  free : Nat
  deriving DecidableEq, Repr

namespace Sender

-- A byte goes out. Without a free place it takes that of the last byte that waits.
def send (sender : Sender) (byte : UInt8) : Sender :=
  if sender.free = 0 then { sender with outbound := sender.outbound.pop.push byte }
  else { outbound := sender.outbound.push byte, free := sender.free - 1 }

def drained (sender : Sender) : Sender :=
  { sender with outbound := #[] }

-- Bytes taken earlier do not matter to one that goes out, unless it is to replace one of them.
theorem outbound_send_append {taken : Array UInt8} {sender kept : Sender}
    (hfree : kept.free = sender.free) (houtbound : kept.outbound = taken ++ sender.outbound)
    (hplace : ¬(sender.free = 0 ∧ sender.outbound = #[])) (byte : UInt8) :
    (kept.send byte).outbound = taken ++ (sender.send byte).outbound := by
  unfold send
  rw [hfree]
  split
  · next hzero =>
    have hne : sender.outbound ≠ #[] := fun hempty => hplace ⟨hzero, hempty⟩
    simp only [houtbound, Array.pop_append, Array.isEmpty_iff, hne, if_false, Array.append_push]
  · simp only [houtbound, Array.append_push]

end Sender

theorem SerialLine.outbound_passPeriods (n : Nat) (line : SerialLine) :
    (passPeriods n line).outbound = line.outbound := by
  induction n generalizing line with
  | zero => rfl
  | succ n ih =>
    rw [passPeriods_succ, ih]
    rfl

-- The sending side, of a serial line.
def Kind.sender? : Kind → Option Sender
  | .serial line => some ⟨line.outbound, line.free⟩
  | _ => none

namespace Kind

theorem sender?_receive (kind : Kind) : kind.receive.sender? = kind.sender? := by
  cases kind with
  | serial line =>
    obtain ⟨inbound, ready, filler, hreceive⟩ := line.receive_eq
    simp only [receive, sender?, hreceive]
  | processor | memory | terminal | leds => rfl

theorem sender?_writeSlot (kind : Kind) (slot : Slot) (value : Word) :
    (kind.writeSlot slot value).sender? =
      if slot = 8 then kind.sender?.map (·.send value.low) else kind.sender? := by
  cases kind with
  | serial line =>
    by_cases hslot : slot = 8
    · subst hslot
      simp only [writeSlot, SerialLine.writeSlot, SerialLine.transmit, sender?, Sender.send,
        if_true, Option.map_some, beq_iff_eq]
      split <;> rfl
    · simp only [writeSlot, SerialLine.writeSlot_of_ne hslot, hslot, if_false]
  | processor | memory | terminal | leds => simp [writeSlot, sender?]

theorem outbound_tick (kind : Kind) (memory : Memory) (nanos : Nat) :
    (kind.tick memory nanos).sender?.map (·.outbound) = kind.sender?.map (·.outbound) := by
  cases kind with
  | serial line =>
    have hline : (line.tick nanos).outbound = line.outbound := SerialLine.outbound_passPeriods _ _
    simp only [tick, sender?, Option.map_some, hline]
  | processor | memory | terminal | leds => rfl

theorem sender?_drained (kind : Kind) : kind.drained.sender? = kind.sender?.map (·.drained) := by
  cases kind <;> rfl

end Kind

-- Only a controller can send.
theorem Device.sender?_writeSlot (device : Device Kind) (source : Word) (slot : Slot)
    (value : Word) :
    (device.writeSlot source slot value).kind.sender? =
      if slot = 8 ∧ device.isController source then device.kind.sender?.map (·.send value.low)
      else device.kind.sender? := by
  unfold writeSlot
  split
  · simp
  · simp
  · have hkind : (device.claim source value).kind = device.kind := by
      unfold claim
      split
      · rfl
      · split <;> rfl
    simp [hkind]
  · cases hcontroller : device.isController source with
    | false => simp
    | true =>
      rw [if_pos rfl]
      unfold writeGatedSlot
      split
      · simp
      · simp
      · simp [setInterruptHandler]
      · simp [Behavior.writeSlot, Kind.sender?_writeSlot]

-- Time passes for the lines below a device as for the device itself.
theorem DeviceTree.outbound_tick (path : List UInt8) (nanos : Nat) (tree : DeviceTree) :
    (((tree.tick nanos).kindAt? path).bind Kind.sender?).map (·.outbound) =
      ((tree.kindAt? path).bind Kind.sender?).map (·.outbound) := by
  induction path generalizing tree with
  | nil =>
    cases tree with
    | node device bus => exact device.kind.outbound_tick device.memory nanos
  | cons index path ih =>
    cases tree with
    | node device bus =>
      simp only [kindAt?, tick, DeviceTree.bus, Bus.get?_tick]
      cases Bus.get? bus index with
      | none => rfl
      | some below => exact ih below

namespace Bus

-- The sending side of the serial line that a path leads to.
def senderAt? (bus : Bus) (path : List UInt8) : Option Sender :=
  (bus.kindAt? path).bind Kind.sender?

def outboundAt (bus : Bus) (path : List UInt8) : Array UInt8 :=
  ((bus.senderAt? path).map (·.outbound)).getD #[]

variable (bus : Bus) (path : List UInt8) (source : Word)

theorem senderAt?_singleton (index : UInt8) :
    bus.senderAt? [index] = (bus.get? index).bind fun tree => tree.device.kind.sender? := by
  simp only [senderAt?, kindAt?]
  cases bus.get? index <;> rfl

theorem senderAt?_modify (f : Device Kind → Device Kind) (index : UInt8) :
    (Bus.modify (.mapDevice f) index bus).senderAt? path =
      if path = [index] then (bus.get? index).bind fun tree => (f tree.device).kind.sender?
      else bus.senderAt? path := by
  unfold senderAt?
  match path with
  | [] => rfl
  | [i] =>
    simp only [kindAt?, get?_modify, List.cons.injEq, and_true]
    split
    · next hindex =>
      subst hindex
      cases bus.get? i <;> simp [DeviceTree.kindAt?]
    · rfl
  | i :: j :: rest =>
    simp only [kindAt?, get?_modify, List.cons.injEq, reduceCtorEq, and_false, if_false]
    split
    · cases bus.get? i <;> simp [DeviceTree.kindAt?]
    · rfl

theorem senderAt?_modify_of_eq {f : Device Kind → Device Kind}
    (hf : ∀ device : Device Kind, (f device).kind.sender? = device.kind.sender?) (index : UInt8) :
    (Bus.modify (.mapDevice f) index bus).senderAt? path = bus.senderAt? path := by
  rw [senderAt?_modify]
  split
  · next hpath =>
    subst hpath
    simp only [hf, senderAt?_singleton]
  · rfl

-- What has been sent is never read back.
theorem senderAt?_afterReads (addresses : List Word) :
    (bus.afterReads source addresses).senderAt? path = bus.senderAt? path := by
  have hreceive : ∀ device : Device Kind,
      (device.receive source).kind.sender? = device.kind.sender? := fun device => by
    unfold Device.receive
    split
    · exact device.kind.sender?_receive
    · rfl
  induction addresses generalizing bus with
  | nil => rfl
  | cons address rest ih =>
    have hread : (bus.afterRead source address).senderAt? path = bus.senderAt? path := by
      unfold afterRead
      split
      · split
        · exact senderAt?_modify_of_eq bus path hreceive _
        · rfl
      · rfl
    exact (ih _).trans hread

-- Does a write to an address send a byte on the line that a path leads to?
def sendsTo (address : Word) : Bool :=
  match BusAddress.ofWord address with
  | .slot index slot =>
      path == [index] && index != 0 && slot == 8
        && (bus.get? index).any (·.device.isController source)
  | .block _ _ => false

theorem senderAt?_afterWrite (address value : Word) :
    (bus.afterWrite source address value).senderAt? path =
      if bus.sendsTo path source address then (bus.senderAt? path).map (·.send value.low)
      else bus.senderAt? path := by
  unfold afterWrite sendsTo
  cases BusAddress.ofWord address with
  | slot index slot =>
    dsimp only
    by_cases hmaster : index = 0
    · simp [hmaster]
    · rw [if_neg hmaster, writeSlot, senderAt?_modify]
      by_cases hpath : path = [index]
      · subst hpath
        rw [if_pos rfl, senderAt?_singleton]
        rcases Option.eq_none_or_eq_some (bus.get? index) with hget | ⟨tree, hget⟩
        · simp [hget]
        · simp [hget, hmaster, Device.sender?_writeSlot]
      · simp [hpath]
  | block index offset =>
    have hblock : ∀ device : Device Kind,
        (device.writeBlock source offset value).kind.sender? = device.kind.sender? :=
      fun device => by
        unfold Device.writeBlock
        split <;> rfl
    exact senderAt?_modify_of_eq bus path hblock _

theorem outboundAt_tick (nanos : Nat) :
    (Bus.tick nanos bus).outboundAt path = bus.outboundAt path := by
  unfold outboundAt senderAt?
  cases path with
  | nil => rfl
  | cons index path =>
    rw [kindAt?, kindAt?, get?_tick]
    cases bus.get? index with
    | none => rfl
    | some tree => exact congrArg (·.getD #[]) (tree.outbound_tick path nanos)

theorem senderAt?_drained : bus.drained.senderAt? path = (bus.senderAt? path).map (·.drained) := by
  simp only [senderAt?, kindAt?_drained, Option.bind_map, Option.map_bind]
  exact Option.bind_congr fun kind _ => kind.sender?_drained

theorem sendsTo_drained (address : Word) :
    bus.drained.sendsTo path source address = bus.sendsTo path source address := by
  have hcontroller : ∀ tree : DeviceTree,
      tree.drained.device.isController source = tree.device.isController source := fun tree => by
    rw [DeviceTree.device_drained]
    rfl
  simp only [sendsTo, get?_drained, Option.any_map, hcontroller]

end Bus

end MicroCisc
