import MicroCisc.Proofs.Processor.CommitFrame
import MicroCisc.Proofs.Processor.Disassembly

namespace MicroCisc

namespace Operand

-- The own slot that shows what an operand names.
def ownSlot? : Operand → Option Slot
  | .pc => some 8
  | .register r => some r.slot
  | .flags => some 15
  | .interrupt => some 5
  | .memory _ | .bus _ | .immediate => none

theorem eq_pc_of_ownSlot? {operand : Operand} (h : operand.ownSlot? = some 8) : operand = .pc := by
  cases operand with
  | pc => rfl
  | register r => cases r <;> cases h
  | flags | interrupt | memory pointer | bus pointer | immediate => cases h

theorem three_le_of_ownSlot? {operand : Operand} {slot : Slot} (h : operand.ownSlot? = some slot) :
    3 ≤ slot := by
  cases operand with
  | pc | flags | interrupt =>
    cases h
    decide
  | register r =>
    cases h
    cases r <;> decide
  | memory pointer | bus pointer | immediate => cases h

theorem busAddress?_of_ownSlot? {operand : Operand} {slot : Slot}
    (h : operand.ownSlot? = some slot) (regs : Registers) (displacement : Word) :
    operand.busAddress? regs displacement = none := by
  cases operand with
  | bus pointer => cases h
  | pc | memory r | register r | immediate | flags | interrupt => rfl

end Operand

namespace Processor

-- Two instructions that do the same work. One stores in an own slot of the processor over the bus,
-- without a push. The other stores in what the slot shows, without a pop, and has no displacement for
-- its destination, as none has whose destination is no word of memory.
structure Counterparts (cpu : Processor) (banked direct : Instruction) (slot : Slot) : Prop where
  alu : banked.alu = direct.alu
  effect : banked.effect = direct.effect
  source : banked.sourceOperand = direct.sourceOperand
  immediate : banked.immediate = direct.immediate
  push : banked.isPush = false
  pop : direct.isPop = false
  offset : direct.offset = 0
  own : cpu.StoresToOwnSlot banked slot
  shown : direct.destinationOperand.ownSlot? = some slot

-- A processor writes one of its own gated slots.
def writeOwnSlot (cpu : Processor) (slot : Slot) (value : Word) : Processor :=
  { cpu with device := cpu.device.writeGatedSlot slot value }

variable {cpu : Processor} {instr banked direct : Instruction} {operand : Operand} {slot : Slot}

/-! ### Accesses to own slots -/

theorem isController_id (cpu : Processor) : cpu.device.isController cpu.id = true := by
  simp [Device.isController, id]

-- From the third on, the own slots are gated, and open to the processor.
theorem readSlot_own (hslot : 3 ≤ slot) (cpu : Processor) (access : Access) :
    cpu.device.readSlot cpu.id slot access = cpu.device.readGatedSlot slot access := by
  unfold Device.readSlot
  split
  · exact absurd hslot (by decide)
  · exact absurd hslot (by decide)
  · exact absurd hslot (by decide)
  · exact if_pos cpu.isController_id

theorem writeSlot_own (hslot : 3 ≤ slot) (cpu : Processor) (value : Word) :
    cpu.device.writeSlot cpu.id slot value = cpu.device.writeGatedSlot slot value := by
  unfold Device.writeSlot
  split
  · exact absurd hslot (by decide)
  · exact absurd hslot (by decide)
  · exact absurd hslot (by decide)
  · exact if_pos cpu.isController_id

-- A processor reads its own slot as it reads the operand.
theorem fst_readSlot_own (hslot : operand.ownSlot? = some slot) (cpu : Processor)
    (access : Access) :
    (cpu.device.readSlot cpu.id slot access).1 = (cpu.readOperand operand 0 access).1 := by
  rw [readSlot_own (Operand.three_le_of_ownSlot? hslot)]
  cases operand with
  | pc =>
    cases hslot
    exact (UInt16.add_zero _).symm
  | register r =>
    cases hslot
    cases r <;> exact (UInt16.add_zero _).symm
  | flags | interrupt =>
    cases hslot
    rfl
  | memory pointer | bus pointer | immediate => cases hslot

-- What it stores in an own slot other than that of the pc it stores in the operand.
theorem writeOwnSlot_eq_store (hslot : instr.destinationOperand.ownSlot? = some slot)
    (hne : slot ≠ 8) (cpu : Processor) (value : Word) :
    cpu.writeOwnSlot slot value = cpu.store instr value := by
  unfold store
  generalize instr.destinationOperand = operand at hslot
  cases operand with
  | pc =>
    cases hslot
    exact absurd rfl hne
  | register r =>
    cases hslot
    cases r <;> rfl
  | flags | interrupt =>
    cases hslot
    rfl
  | memory pointer | bus pointer | immediate => cases hslot

theorem writeOwnSlot_pc (cpu : Processor) (value : Word) :
    cpu.writeOwnSlot 8 value = cpu.mapRegs (·.setPc value) :=
  rfl

theorem StoresToOwnSlot.exists_pointer (h : cpu.StoresToOwnSlot instr slot)
    (hpush : instr.isPush = false) :
    ∃ pointer, instr.destinationOperand = .bus pointer ∧
      BusAddress.ofWord (cpu.regs.get pointer + instr.displacement) = .slot 0 slot := by
  obtain ⟨address, htarget, haddress⟩ := h
  unfold busTarget? at htarget
  split at htarget
  · next pointer hdestination =>
    refine ⟨pointer, hdestination, ?_⟩
    rw [← haddress, ← Option.some.inj htarget, target, hpush]
    simp
  · cases htarget

theorem StoresToOwnSlot.store_eq (h : cpu.StoresToOwnSlot instr slot)
    (hpush : instr.isPush = false) (hslot : 3 ≤ slot) (value : Word) :
    cpu.store instr value = cpu.writeOwnSlot slot value := by
  obtain ⟨pointer, hdestination, haddress⟩ := h.exists_pointer hpush
  rw [writeOwnSlot, ← writeSlot_own hslot]
  simp only [store, hdestination, storeAddress, push, hpush, Bool.false_eq_true, if_false, writeBus,
    BusMaster.write, haddress]
  rfl

theorem StoresToOwnSlot.fst_readOperand (h : cpu.StoresToOwnSlot instr slot)
    (hpush : instr.isPush = false) (hslot : operand.ownSlot? = some slot) (access : Access) :
    (cpu.readOperand instr.destinationOperand instr.displacement access).1 =
      (cpu.readOperand operand 0 access).1 := by
  obtain ⟨pointer, hdestination, haddress⟩ := h.exists_pointer hpush
  rw [← fst_readSlot_own hslot]
  simp only [readOperand, hdestination, BusMaster.read, haddress]
  rfl

/-! ### Both instructions -/

-- A store in the pc that does not halt the processor.
theorem store_pc (hdestination : instr.destinationOperand = .pc) {value : Word}
    (hgoes : (cpu.store instr value).isRunning = true) :
    cpu.store instr value = cpu.mapRegs (·.setNext value) := by
  simp only [store, hdestination] at hgoes ⊢
  by_cases hjump : (instr.isSelfJump && value == cpu.regs.pc) = true
  · rw [if_pos hjump] at hgoes
    cases hgoes
  · exact if_neg hjump

namespace Counterparts

variable (h : cpu.Counterparts banked direct slot)

include h

theorem result_eq : cpu.result banked = cpu.result direct := by
  have hown (bus : Bus) : StoresToOwnSlot { cpu with bus } banked slot := h.own
  have hdisplacement : direct.displacement = 0 := by
    rw [Instruction.displacement, h.offset]
    rfl
  have hsource : cpu.sourceValue banked = cpu.sourceValue direct := by
    rw [sourceValue, sourceValue, h.source, h.immediate]
  have hdestination : cpu.destinationValue banked = cpu.destinationValue direct := by
    rw [destinationValue, destinationValue, h.source, h.immediate, hdisplacement, snd_readOperand]
    exact (hown _).fst_readOperand h.push h.shown .consume
  rw [result, result, hsource, hdestination, h.alu]

theorem commits_eq : cpu.commits banked = cpu.commits direct := by
  rw [commits, commits, h.result_eq, h.effect]

-- To read an own slot leaves the bus alone.
theorem computed_eq : cpu.computed banked = cpu.computed direct := by
  obtain ⟨pointer, hdestination, haddress⟩ := h.own.exists_pointer h.push
  have hread (bus : Bus) :
      Bus.afterRead cpu.id bus (cpu.regs.get pointer + banked.displacement) = bus := by
    rw [Bus.afterRead, haddress]
    exact if_neg fun hslot => hslot.1 rfl
  have hbus : cpu.bus.afterReads cpu.id (cpu.readAddresses banked) =
      cpu.bus.afterReads cpu.id (cpu.readAddresses direct) := by
    rw [readAddresses, readAddresses, Operand.busAddress?_of_ownSlot? h.shown, hdestination,
      h.source, h.immediate, Bus.afterReads, List.foldl_append, Option.toList_none, List.append_nil]
    exact hread _
  rw [computed, computed, h.result_eq, hbus]

theorem pop_banked (cpu : Processor) : cpu.pop banked = cpu := by
  obtain ⟨pointer, hdestination, -⟩ := h.own.exists_pointer h.push
  exact pop_of_isMemory (by rw [hdestination]; rfl)

theorem pop_direct (cpu : Processor) : cpu.pop direct = cpu := by
  simp [Processor.pop, h.pop]

theorem three_le : 3 ≤ slot :=
  Operand.three_le_of_ownSlot? h.shown

theorem own_computed : (cpu.computed direct).StoresToOwnSlot banked slot :=
  h.own

-- Unless it is the pc that is stored, the two are executed alike.
theorem execute_eq_of_not_pc (hpc : slot = 8 → cpu.commits direct = false) :
    cpu.execute banked = cpu.execute direct := by
  rw [execute_eq, execute_eq, h.commits_eq, h.result_eq, h.computed_eq, h.pop_banked, h.pop_direct]
  split
  · next hcommits =>
    have hne : slot ≠ 8 := fun hslot => by
      rw [hpc hslot] at hcommits
      cases hcommits
    rw [h.own_computed.store_eq h.push h.three_le, writeOwnSlot_eq_store h.shown hne]
  · rfl

-- If it is, the one has set the pc already, and the other only where execution goes on.
theorem execute_eq_of_pc (hslot : slot = 8) (hcommits : cpu.commits direct = true)
    (hgoes : (cpu.execute direct).isRunning = true) :
    cpu.execute banked = (cpu.computed direct).mapRegs (·.setPc (cpu.result direct).value) ∧
      cpu.execute direct = (cpu.computed direct).mapRegs (·.setNext (cpu.result direct).value) := by
  subst hslot
  constructor
  · rw [execute_eq, h.commits_eq, if_pos hcommits, h.result_eq, h.computed_eq, h.pop_banked,
      h.own_computed.store_eq h.push h.three_le, writeOwnSlot_pc]
  · rw [execute_eq, if_pos hcommits, h.pop_direct] at hgoes ⊢
    exact store_pc (Operand.eq_pc_of_ownSlot? h.shown) hgoes

end Counterparts

theorem isRunning_perform (cpu : Processor) (instr : Instruction) :
    (cpu.perform instr).isRunning = (cpu.execute instr).isRunning := by
  obtain ⟨f, hretire⟩ := (cpu.execute instr).retire_eq_mapRegs
  rw [perform, hretire]
  rfl

theorem retire_mapRegs (hrun : cpu.isRunning = true) (f : Registers → Registers) :
    (cpu.mapRegs f).retire = cpu.mapRegs fun regs => (f regs).retire :=
  if_pos hrun

-- A processor that stores in one of its own slots over the bus is, but for the record of the last
-- instruction, where it would be had it stored in the register that the slot shows; except that it is
-- one instruction further on if it stores in the slot of the pc.
theorem perform_counterpart (hrun : cpu.isRunning = true)
    (h : cpu.Counterparts banked direct slot) (hgoes : (cpu.perform direct).isRunning = true) :
    { cpu.perform banked with last := none } =
      { if slot = 8 ∧ cpu.commits direct = true then
          (cpu.perform direct).mapRegs fun regs => regs.setPc (regs.pc + 2)
        else cpu.perform direct with
        last := none } := by
  by_cases hpc : slot = 8 ∧ cpu.commits direct = true
  · rw [isRunning_perform] at hgoes
    obtain ⟨hbanked, hdirect⟩ := h.execute_eq_of_pc hpc.1 hpc.2 hgoes
    have hcomputed : (cpu.computed direct).isRunning = true := hrun
    rw [if_pos hpc, perform, perform, hbanked, hdirect, retire_mapRegs hcomputed,
      retire_mapRegs hcomputed]
    rfl
  · have hexecute := h.execute_eq_of_not_pc fun hslot =>
      Bool.not_eq_true _ ▸ fun hcommits => hpc ⟨hslot, hcommits⟩
    rw [if_neg hpc, perform, perform, hexecute]

-- The immediate 0x20, stored through r4 and r5 in the slots of the pc and of r2, and in both as they
-- are.
theorem perform_counterpart_pc :
    let cpu : Processor :=
      { device :=
          ⟨1, (Registers.initial.set .r4 8).set .r5 10, ⟨8, .replicate 256 0, 0⟩, .initial, false⟩
        bus := [], state := .running, cycles := 0, nanosPerInstruction := 100, last := none }
    let toPc := Instruction.decode 0x4040 0x0020
    let toR2 := Instruction.decode 0x4640 0x0020
    { cpu.perform (.decode 0x4940 0x0020) with last := none } =
        { (cpu.perform toPc).mapRegs fun regs => regs.setPc (regs.pc + 2) with last := none } ∧
      { cpu.perform (.decode 0x4A40 0x0020) with last := none } =
        { cpu.perform toR2 with last := none } := by
  intro cpu toPc toR2
  have hpc : cpu.Counterparts (.decode 0x4940 0x0020) toPc 8 :=
    ⟨by decide, by decide, by decide, by decide, by decide, by decide, by decide, ⟨8, by decide⟩,
      by decide⟩
  have hr2 : cpu.Counterparts (.decode 0x4A40 0x0020) toR2 10 :=
    ⟨by decide, by decide, by decide, by decide, by decide, by decide, by decide, ⟨10, by decide⟩,
      by decide⟩
  have hcommits : cpu.commits toPc = true := by decide
  have hfirst := perform_counterpart rfl hpc (by decide)
  have hsecond := perform_counterpart rfl hr2 (by decide)
  rw [if_pos ⟨rfl, hcommits⟩] at hfirst
  rw [if_neg fun hslot => absurd hslot.1 (by decide)] at hsecond
  exact ⟨hfirst, hsecond⟩

-- A jump to 0x20 through the slot of the pc ends at 0x22.
theorem perform_counterpart_pc_differs :
    ¬∀ (cpu : Processor) (banked direct : Instruction) (slot : Slot), cpu.isRunning = true →
      cpu.Counterparts banked direct slot →
      banked.destinationOperand.register? ≠ direct.destinationOperand.register? →
      (cpu.perform direct).isRunning = true →
      { cpu.perform banked with last := none } = { cpu.perform direct with last := none } := by
  intro h
  let cpu : Processor :=
    { device := ⟨1, Registers.initial.set .r4 8, ⟨8, .replicate 256 0, 0⟩, .initial, false⟩
      bus := [], state := .running, cycles := 0, nanosPerInstruction := 100, last := none }
  have hcounterparts :
      cpu.Counterparts (.decode 0x4940 0x0020) (.decode 0x4040 0x0020) 8 :=
    ⟨by decide, by decide, by decide, by decide, by decide, by decide, by decide, ⟨8, by decide⟩,
      by decide⟩
  have hsame := h cpu _ _ 8 rfl hcounterparts (by decide) (by decide)
  have hpc := congrArg (fun after : Processor => after.regs.pc) hsame
  exact absurd hpc (by decide)

end Processor

end MicroCisc
