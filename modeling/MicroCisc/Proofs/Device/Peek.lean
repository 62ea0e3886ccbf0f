import MicroCisc.Proofs.Device.EveryKind
import MicroCisc.Proofs.Device.Serial.Receive

namespace MicroCisc

def Filler.isRandom : Filler → Bool
  | .fixed _ => false
  | .random _ _ => true

namespace SerialLine

-- Would a read of the slot draw a byte from a generator?
def drawsRandom (line : SerialLine) (slot : Slot) : Bool :=
  slot == 10 && line.ready == 0 && line.filler.isRandom

variable {line : SerialLine} {slot : Slot}

theorem Bounded.peek_eq_consume (h : line.Bounded) (hread : line.drawsRandom slot = false) :
    (line.readSlot slot .peek).1 = (line.readSlot slot .consume).1 := by
  by_cases hslot : slot = 10
  · subst hslot
    cases hready : line.ready with
    | zero =>
      cases hfiller : line.filler with
      | fixed byte => exact h.fst_readSlot_peek hfiller
      | random bytes drawn =>
        rw [drawsRandom, hready, hfiller] at hread
        cases hread
    | succ ready => exact h.fst_readSlot_peek_of_ready hready
  · unfold readSlot
    split <;> simp_all

theorem peek_of_drawsRandom (hread : line.drawsRandom slot = true) :
    (line.readSlot slot .peek).1 = 0 := by
  simp only [drawsRandom, Bool.and_eq_true, beq_iff_eq] at hread
  obtain ⟨⟨rfl, hready⟩, hrandom⟩ := hread
  show line.peek.toUInt16 = 0
  cases hfiller : line.filler with
  | fixed byte =>
    rw [hfiller] at hrandom
    cases hrandom
  | random bytes drawn =>
    simp only [peek, hready, hfiller]
    rfl

end SerialLine

namespace Kind

def drawsRandom (kind : Kind) (slot : Slot) : Bool :=
  match kind with
  | .serial line => line.drawsRandom slot
  | _ => false

variable {kind : Kind} {slot : Slot}

theorem Occurs.peek_eq_consume (h : kind.Occurs) (memory : Memory)
    (hread : kind.drawsRandom slot = false) :
    (kind.readSlot memory slot .peek).1 = (kind.readSlot memory slot .consume).1 := by
  cases kind with
  | serial line => exact SerialLine.Bounded.peek_eq_consume h.bounded hread
  | processor regs | memory | terminal display | leds bank => rfl

theorem peek_of_drawsRandom (memory : Memory) (hread : kind.drawsRandom slot = true) :
    (kind.readSlot memory slot .peek).1 = 0 := by
  cases kind with
  | serial line => exact SerialLine.peek_of_drawsRandom hread
  | processor regs | memory | terminal display | leds bank => cases hread

theorem slot_of_drawsRandom (hread : kind.drawsRandom slot = true) : slot = 10 := by
  cases kind with
  | serial line =>
    simp only [drawsRandom, SerialLine.drawsRandom, Bool.and_eq_true, beq_iff_eq] at hread
    exact hread.1.1
  | processor regs | memory | terminal display | leds bank => cases hread

end Kind

namespace Device

-- Would a read of the slot on behalf of `source` draw a byte from a generator?
def drawsRandom (device : Device Kind) (source : Word) (slot : Slot) : Bool :=
  device.isController source && device.kind.drawsRandom slot

variable {device : Device Kind} {source : Word} {slot : Slot}

theorem peek_eq_consume (h : device.kind.Occurs) (hread : device.drawsRandom source slot = false) :
    (device.readSlot source slot .peek).1 = (device.readSlot source slot .consume).1 := by
  cases hsource : device.isController source with
  | false =>
    have hstranger := (isController_eq_false_iff device source).1 hsource
    rw [readSlot_of_isStranger hstranger, readSlot_of_isStranger hstranger]
  | true =>
    rw [drawsRandom, hsource, Bool.true_and] at hread
    have hkind := h.peek_eq_consume device.memory hread
    unfold readSlot
    simp only [hsource, if_true]
    unfold readGatedSlot
    split
    · rfl
    · rfl
    · rfl
    · split
      · rfl
      · rfl
      · rfl
      · exact hkind

theorem peek_of_drawsRandom (hread : device.drawsRandom source slot = true) :
    (device.readSlot source slot .peek).1 = 0 := by
  rw [drawsRandom, Bool.and_eq_true] at hread
  obtain ⟨hsource, hkind⟩ := hread
  have hzero := Kind.peek_of_drawsRandom device.memory hkind
  obtain rfl := Kind.slot_of_drawsRandom hkind
  simp only [readSlot, hsource, if_true]
  exact hzero

-- Registers show the same to a look and to a read.
theorem fst_readSlot_registers (device : Device Registers) (source : Word) (slot : Slot) :
    (device.readSlot source slot .peek).1 = (device.readSlot source slot .consume).1 := by
  unfold readSlot
  split
  · rfl
  · rfl
  · rfl
  · split
    · unfold readGatedSlot
      split <;> rfl
    · rfl

end Device

namespace BusMaster

-- Would a read of the address draw a byte from a generator?
def drawsRandom (master : BusMaster Registers) (address : Word) : Bool :=
  match BusAddress.ofWord address with
  | .slot index slot =>
      index != 0 && (master.bus.get? index).any (·.device.drawsRandom master.device.id slot)
  | .block _ _ => false

variable {master : BusMaster Registers} {address : Word} {index : UInt8} {slot : Slot}

-- A read of a slot of another device.
theorem fst_read_slot (hword : BusAddress.ofWord address = .slot index slot) (hindex : index ≠ 0)
    (access : Access) :
    (master.read address access).1 =
      match master.bus.get? index with
      | some tree => (tree.device.readSlot master.device.id slot access).1
      | none => 0 := by
  refine Eq.trans ?_ (Bus.fst_readSlot master.device.id index slot access master.bus)
  unfold read
  split
  · next h => exact absurd (BusAddress.slot.inj (hword.symm.trans h)).1 hindex
  · next h =>
    obtain ⟨rfl, rfl⟩ := BusAddress.slot.inj (hword.symm.trans h)
    rfl
  · next h => cases hword.symm.trans h

theorem peek_eq_consume (h : master.bus.EveryKind Kind.Occurs)
    (hread : master.drawsRandom address = false) :
    (master.read address .peek).1 = (master.read address .consume).1 := by
  cases hword : BusAddress.ofWord address with
  | block index offset => simp only [read, hword]
  | slot index slot =>
    by_cases hindex : index = 0
    · subst hindex
      simp only [read, hword, Device.fst_readSlot_registers]
    · rw [fst_read_slot hword hindex, fst_read_slot hword hindex]
      cases hget : master.bus.get? index with
      | none => rfl
      | some tree =>
        simp only [drawsRandom, hword, hget, Option.any_some, bne_iff_ne.2 hindex, Bool.true_and]
          at hread
        exact Device.peek_eq_consume (h.get? hget).kind hread

theorem peek_of_drawsRandom (hread : master.drawsRandom address = true) :
    (master.read address .peek).1 = 0 := by
  unfold drawsRandom at hread
  split at hread
  · next index slot hword =>
    rw [Bool.and_eq_true, bne_iff_ne] at hread
    rw [fst_read_slot hword hread.1]
    cases hget : master.bus.get? index with
    | none => rfl
    | some tree =>
      rw [hget, Option.any_some] at hread
      exact Device.peek_of_drawsRandom hread.2
  · cases hread

end BusMaster

end MicroCisc
