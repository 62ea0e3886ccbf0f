import MicroCisc.Proofs.Processor.CommitFrame
import MicroCisc.Proofs.Processor.Lifecycle

namespace MicroCisc

-- Only a destination in memory is displaced.
theorem Instruction.displacement_decode (high low : Word)
    (h : Operand.isMemoryCode (decode high low).destination = false) :
    (decode high low).displacement = 0 := by
  have hoffset : (decode high low).offset = 0 := by
    show (clip (decode high low).source (decode high low).destination low _).2 = 0
    rw [clip, h]
    rfl
  rw [displacement, hoffset]
  rfl

theorem Registers.next_writeSlot (regs : Registers) (slot : Slot) (value : Word) :
    (regs.writeSlot slot value).next = if slot = 8 then value + 2 else regs.next := by
  unfold writeSlot
  split
  iterate 9 rfl
  · simp_all

-- A device that writes a slot of its own.
theorem Device.next_writeSlot_id (device : Device Registers) (slot : Slot) (value : Word) :
    (device.writeSlot device.id slot value).kind.next =
      if slot = 8 then value + 2 else device.kind.next := by
  have hself : device.isController device.id = true := by simp [isController]
  unfold writeSlot
  split
  · rfl
  · rfl
  · simp only [claim, hself, if_true]
    rfl
  · rw [if_pos hself]
    unfold writeGatedSlot
    split
    · rfl
    · rfl
    · rfl
    · exact device.kind.next_writeSlot slot value

namespace Processor

-- An instruction from the pc to the pc that commits its own address.
structure JumpsToItself (cpu : Processor) (instr : Instruction) : Prop where
  source : instr.source = 0
  destination : instr.destination = 0
  commits : cpu.commits instr = true
  value : (cpu.result instr).value = cpu.regs.pc

variable {cpu : Processor} {instr : Instruction} {slot : Slot} {value : Word}

theorem storesToOwnSlot_iff : cpu.StoresToOwnSlot instr slot ↔
    (cpu.busTarget? instr).map BusAddress.ofWord = some (.slot 0 slot) := by
  rw [StoresToOwnSlot, Option.map_eq_some_iff]

instance : Decidable (cpu.StoresToOwnSlot instr slot) :=
  decidable_of_iff _ storesToOwnSlot_iff.symm

/-! ### Stores -/

-- A push adjusts a general register.
theorem push_next (pointer : Register) :
    (cpu.push instr pointer).state = cpu.state ∧
      (cpu.push instr pointer).regs.next = cpu.regs.next := by
  unfold push
  split <;> exact ⟨rfl, rfl⟩

theorem next_writeBus (address value : Word) :
    (cpu.writeBus address value).regs.next =
      if BusAddress.ofWord address = .slot 0 8 then value + 2 else cpu.regs.next := by
  show (cpu.toBusMaster.write address value).device.kind.next = _
  rw [BusMaster.device_write]
  split
  · next slot haddress =>
    rw [Device.next_writeSlot_id]
    simp only [haddress, BusAddress.slot.injEq, true_and]
    rfl
  · next hother =>
    rw [if_neg fun haddress => hother 8 haddress]
    rfl

theorem store_eq_halt (hjump : instr.isSelfJump = true) (hvalue : value = cpu.regs.pc) :
    cpu.store instr value = cpu.halt := by
  have hdestination : instr.destinationOperand = .pc := by
    simp only [Instruction.isSelfJump, Bool.and_eq_true, beq_iff_eq] at hjump
    rw [Instruction.destinationOperand, hjump.2]
    rfl
  simp only [store, hdestination, hjump, hvalue, beq_self_eq_true, Bool.and_self, if_true]

-- A store that does not halt the processor.
theorem next_store (hgoes : ¬(instr.isSelfJump = true ∧ value = cpu.regs.pc)) :
    (cpu.store instr value).state = cpu.state ∧
      (cpu.store instr value).regs.next =
        if instr.destinationOperand = .pc then value
        else if cpu.StoresToOwnSlot instr 8 then value + 2
        else cpu.regs.next := by
  have hjump : ¬(instr.isSelfJump && value == cpu.regs.pc) = true := by
    rwa [Bool.and_eq_true, beq_iff_eq]
  simp only [storesToOwnSlot_iff, busTarget?]
  unfold store
  cases instr.destinationOperand with
  | pc =>
    simp only [if_neg hjump, if_true]
    exact ⟨rfl, rfl⟩
  | memory pointer => exact push_next pointer
  | bus pointer =>
    have hnext : (cpu.push instr pointer).regs.next = cpu.regs.next := (push_next pointer).2
    refine ⟨(push_next pointer).1, ?_⟩
    simp only [next_writeBus, hnext, storeAddress_eq, Option.map_some, Option.some.injEq,
      reduceCtorEq, if_false]
  | register r | immediate | flags | interrupt => exact ⟨rfl, rfl⟩

/-! ### Instructions -/

-- From the pc to the pc, only the source is displaced.
theorem result_current (hsource : cpu.current.source = 0)
    (hdestination : cpu.current.destination = 0) :
    cpu.result cpu.current =
      Alu.compute cpu.current.alu (cpu.regs.pc + cpu.current.immediate) cpu.regs.pc cpu.regs.flags
        cpu.regs.overflow := by
  have hmemory : Operand.isMemoryCode cpu.current.destination = false := by
    rw [hdestination]
    rfl
  have hdisplacement : cpu.current.displacement = 0 :=
    Instruction.displacement_decode (cpu.memory.read cpu.regs.pc)
      (cpu.memory.read (cpu.regs.pc + 1)) hmemory
  have hsourceValue : cpu.sourceValue cpu.current = cpu.regs.pc + cpu.current.immediate := by
    rw [sourceValue, Instruction.sourceOperand, hsource]
    rfl
  have hdestinationValue : cpu.destinationValue cpu.current = cpu.regs.pc := by
    rw [destinationValue, Instruction.sourceOperand, hsource, Instruction.destinationOperand,
      hdestination, hdisplacement]
    exact UInt16.add_zero _
  rw [result, hsourceValue, hdestinationValue]

theorem jumpsToItself_iff : cpu.JumpsToItself instr ↔
    cpu.commits instr = true ∧ instr.isSelfJump = true ∧
      (cpu.result instr).value = cpu.regs.pc := by
  simp only [Instruction.isSelfJump, Bool.and_eq_true, beq_iff_eq]
  exact ⟨fun h => ⟨h.commits, ⟨h.source, h.destination⟩, h.value⟩,
    fun h => ⟨h.2.1.1, h.2.1.2, h.1, h.2.2⟩⟩

theorem JumpsToItself.execute_eq (h : cpu.JumpsToItself instr) :
    cpu.execute instr = (cpu.computed instr).halt := by
  obtain ⟨hcommits, hjump, hvalue⟩ := jumpsToItself_iff.1 h
  have hpop : (cpu.computed instr).pop instr = cpu.computed instr := by
    have hsource : Operand.isMemoryCode instr.source = false := by
      rw [h.source]
      rfl
    simp [pop, Instruction.isPop, hsource]
  have hhalt : (cpu.computed instr).store instr (cpu.result instr).value =
      (cpu.computed instr).halt :=
    store_eq_halt hjump hvalue
  rw [Processor.execute_eq, if_pos hcommits, hpop, hhalt]

theorem next_execute (h : ¬cpu.JumpsToItself instr) :
    (cpu.execute instr).state = cpu.state ∧
      (cpu.execute instr).regs.next =
        if cpu.commits instr = false then cpu.regs.next
        else if instr.destinationOperand = .pc then (cpu.result instr).value
        else if cpu.StoresToOwnSlot instr 8 then (cpu.result instr).value + 2
        else cpu.regs.next := by
  rw [execute_eq]
  cases hcommits : cpu.commits instr with
  | false => exact ⟨rfl, rfl⟩
  | true =>
    obtain ⟨f, hpop⟩ := (cpu.computed instr).pop_eq_mapRegs instr
    obtain ⟨hpc, hnext⟩ := (cpu.computed instr).pop_pc instr
    have hgoes : ¬(instr.isSelfJump = true ∧
        (cpu.result instr).value = ((cpu.computed instr).pop instr).regs.pc) := by
      rw [hpc]
      exact fun hjumps => h (jumpsToItself_iff.2 ⟨hcommits, hjumps⟩)
    obtain ⟨hstate, hstored⟩ := next_store hgoes
    refine ⟨hstate.trans (by rw [hpop]; rfl), hstored.trans ?_⟩
    simp only [storesToOwnSlot_iff, busTarget?_pop_computed, hnext, Bool.true_eq_false, if_false]
    rfl

/-! ### Steps -/

-- Time on the bus touches neither the registers nor the run state.
theorem state_advance : cpu.advance.state = (cpu.execute cpu.current).retire.state :=
  rfl

theorem device_advance : cpu.advance.device = (cpu.execute cpu.current).retire.device :=
  rfl

theorem JumpsToItself.halts (h : cpu.JumpsToItself cpu.current) :
    cpu.advance.state = .halted (cpu.memory.read (cpu.regs.get .r1)) ∧
      cpu.advance.device =
        { cpu.device with
          kind := { cpu.regs with
            flags := (cpu.result cpu.current).flags
            overflow := (cpu.result cpu.current).overflow }
          halted := true } := by
  have hretire : (cpu.computed cpu.current).halt.retire = (cpu.computed cpu.current).halt :=
    if_neg Bool.false_ne_true
  rw [state_advance, device_advance, h.execute_eq, hretire]
  exact ⟨rfl, rfl⟩

theorem goes_on (hrun : cpu.isRunning = true) (h : ¬cpu.JumpsToItself cpu.current) :
    cpu.advance.state = .running ∧
      cpu.advance.regs.pc =
        if cpu.commits cpu.current = false then cpu.regs.next
        else if cpu.current.destinationOperand = .pc then (cpu.result cpu.current).value
        else if cpu.StoresToOwnSlot cpu.current 8 then (cpu.result cpu.current).value + 2
        else cpu.regs.next := by
  obtain ⟨hstate, hnext⟩ := next_execute h
  have hrunning : (cpu.execute cpu.current).isRunning = true := by
    rw [isRunning, hstate]
    exact hrun
  have hretire : (cpu.execute cpu.current).retire =
      (cpu.execute cpu.current).mapRegs (·.retire) :=
    if_pos hrunning
  have hpc : cpu.advance.regs.pc = (cpu.execute cpu.current).regs.next := by
    rw [regs, device_advance, hretire]
    rfl
  rw [isRunning, beq_iff_eq] at hrunning
  rw [state_advance, hretire, hpc, hnext]
  exact ⟨hrunning, rfl⟩

-- A processor halts exactly on an instruction from the pc to the pc that commits its own address. The
-- code is the word that r1 points at, and but for the flags and the overflow register all of its device
-- stays as it was. After any other instruction it still runs.
theorem step_halts_iff (hrun : cpu.isRunning = true) (hnext : cpu.regs.next = cpu.regs.pc + 2) :
    let instr := cpu.current
    ∃ after, cpu.step = .ok (instr, after) ∧
      ((∃ code, after.state = .halted code) ↔ cpu.JumpsToItself instr) ∧
      (instr.source = 0 → instr.destination = 0 →
        cpu.result instr =
          Alu.compute instr.alu (cpu.regs.pc + instr.immediate) cpu.regs.pc cpu.regs.flags
            cpu.regs.overflow) ∧
      (cpu.JumpsToItself instr →
        after.state = .halted (cpu.memory.read (cpu.regs.get .r1)) ∧
        after.device =
          { cpu.device with
            kind := { cpu.regs with
              flags := (cpu.result instr).flags, overflow := (cpu.result instr).overflow }
            halted := true }) ∧
      (¬cpu.JumpsToItself instr →
        after.state = .running ∧
        after.regs.pc =
          if cpu.commits instr = false then cpu.regs.pc + 2
          else if instr.destinationOperand = .pc then (cpu.result instr).value
          else if cpu.StoresToOwnSlot instr 8 then (cpu.result instr).value + 2
          else cpu.regs.pc + 2) := by
  intro instr
  have hgoes := goes_on hrun
  rw [hnext] at hgoes
  refine ⟨cpu.advance, step_of_isRunning hrun, ⟨?_, fun h => ⟨_, h.halts.1⟩⟩, ?_,
    JumpsToItself.halts, hgoes⟩
  · rintro ⟨code, hhalted⟩
    by_contra h
    rw [(hgoes h).1] at hhalted
    cases hhalted
  · exact fun hsource hdestination => result_current hsource hdestination

-- At 6, the disjunction of 4 and the pc is 6 again, and not zero. The address 0x0103 in r1 wraps.
theorem step_halts_iff_or :
    let words : List Word := [0, 0, 0, 0xBEEF, 0, 0, 0x0012, 0xFFFE]
    let cpu : Processor :=
      { device :=
          ⟨1, (Registers.initial.set .r1 0x0103).setPc 6, ⟨8, ⟨words ++ .replicate 248 0⟩, 0⟩,
            .initial, false⟩
        bus := [], state := .running, cycles := 0, nanosPerInstruction := 100, last := none }
    cpu.isRunning = true ∧ cpu.regs.next = cpu.regs.pc + 2 ∧ cpu.JumpsToItself cpu.current ∧
      ∃ after, cpu.step = .ok (cpu.current, after) ∧ after.state = .halted 0xBEEF ∧
        after.regs.pc = 6 := by
  intro words cpu
  have hjumps : cpu.JumpsToItself cpu.current := by
    constructor <;> decide +kernel
  have hcode : cpu.memory.read (cpu.regs.get .r1) = 0xBEEF := by decide +kernel
  have hrun : cpu.isRunning = true := rfl
  have hnext : cpu.regs.next = cpu.regs.pc + 2 := rfl
  obtain ⟨after, hstep, -, -, hhalts, -⟩ := step_halts_iff hrun hnext
  obtain ⟨hstate, hdevice⟩ := hhalts hjumps
  have hpc : after.regs.pc = 6 :=
    congrArg (fun device : Device Registers => device.kind.pc) hdevice
  exact ⟨hrun, hnext, hjumps, after, hstep, hcode ▸ hstate, hpc⟩

end Processor

end MicroCisc
