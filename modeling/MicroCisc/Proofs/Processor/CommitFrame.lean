import MicroCisc.Proofs.Processor.Execute

namespace MicroCisc

-- The control slot that shows a register of a processor.
def Register.slot : Register → Slot
  | .r1 => 9
  | .r2 => 10
  | .r3 => 11
  | .r4 => 12
  | .r5 => 13
  | .r6 => 14

theorem Register.val_slot (register : Register) : register.slot.val = 8 + register.number := by
  cases register <;> rfl

namespace Registers

-- A register adjusted in place.
theorem get_set_apply (regs : Registers) (f : Word → Word) (changed read : Register) :
    (regs.set changed (f (regs.get changed))).get read =
      if read = changed then f (regs.get read) else regs.get read := by
  rw [get_set]
  split
  · next h => rw [h]
  · rfl

theorem get_writeSlot (regs : Registers) (slot : Slot) (value : Word) (register : Register) :
    (regs.writeSlot slot value).get register =
      if slot = register.slot then value else regs.get register := by
  unfold writeSlot
  split
  · cases register <;> rfl
  · cases register <;> rfl
  iterate 6
    · rw [get_set]
      cases register <;> rfl
  · cases register <;> rfl
  · rw [if_neg]
    rintro rfl
    cases register <;> simp_all [Register.slot]

theorem pendingInterrupt_writeSlot (regs : Registers) (slot : Slot) (value : Word) :
    (regs.writeSlot slot value).pendingInterrupt =
      if slot = 7 then 0 else regs.pendingInterrupt := by
  unfold writeSlot
  split
  · rfl
  iterate 8 rfl
  · simp_all

end Registers

namespace Device

-- What a write to a slot of a processor can change.
structure SlotFrame (before : Device Registers) (slot : Slot) (after : Device Registers) : Prop where
  id : after.id = before.id
  memory : after.memory = before.memory
  busIndex : after.control.busIndex = before.control.busIndex
  owner : after.control.owner = before.control.owner ∨ slot = 2
  mappedBlock : after.control.mappedBlock = before.control.mappedBlock ∨ slot = 3
  status : after.control.status = before.control.status ∨ slot = 4
  handler : after.control.interruptHandler = before.control.interruptHandler ∨ slot = 5
  pending : after.kind.pendingInterrupt = before.kind.pendingInterrupt ∨ slot = 7
  registers : ∀ r, after.kind.get r = before.kind.get r ∨ slot = r.slot

theorem slotFrame_self (device : Device Registers) (slot : Slot) : device.SlotFrame slot device :=
  ⟨rfl, rfl, rfl, .inl rfl, .inl rfl, .inl rfl, .inl rfl, .inl rfl, fun _ => .inl rfl⟩

theorem slotFrame_writeSlot (device : Device Registers) (source : Word) (slot : Slot)
    (value : Word) : device.SlotFrame slot (device.writeSlot source slot value) := by
  have hself := device.slotFrame_self slot
  unfold writeSlot
  split
  · exact hself
  · exact hself
  · unfold claim
    split
    · exact { hself with owner := .inr rfl }
    · split
      · exact { hself with owner := .inr rfl }
      · exact hself
  · split
    · unfold writeGatedSlot
      split
      · exact { hself with mappedBlock := .inr rfl }
      · exact { hself with status := .inr rfl }
      · exact { hself with handler := .inr rfl }
      · refine { hself with pending := ?_, registers := fun r => ?_ }
        · simp only [Behavior.writeSlot, Registers.pendingInterrupt_writeSlot]
          split <;> simp_all
        · simp only [Behavior.writeSlot, Registers.get_writeSlot]
          split <;> simp_all
    · exact hself

end Device

namespace Processor

section Targets

variable (cpu : Processor) (instr : Instruction)

def StoresToOwnSlot (slot : Slot) : Prop :=
  ∃ address, cpu.busTarget? instr = some address ∧ BusAddress.ofWord address = .slot 0 slot

-- Does one of its accesses to the bus, which are up to two reads and a store, select an index?
def Selects (index : UInt8) : Prop :=
  ∃ address ∈ cpu.readAddresses instr ++ (cpu.busTarget? instr).toList,
    (BusAddress.ofWord address).index = index

-- A tree on the bus is as it was, but for the device at its top if an access selects that.
def Touches (index : UInt8) (old new : DeviceTree) : Prop :=
  new.bus = old.bus ∧ (new.device = old.device ∨ cpu.Selects instr index)

end Targets

-- What a committed instruction can change, before time passes. Of the pc, the flags, the overflow
-- register and the run state nothing is said.
structure CommitFrame (cpu : Processor) (instr : Instruction) (after : Processor) : Prop where
  id : after.id = cpu.id
  cycles : after.cycles = cpu.cycles
  nanosPerInstruction : after.nanosPerInstruction = cpu.nanosPerInstruction
  memory : after.memory = cpu.memory ∨
    ∃ pointer, instr.destinationOperand = .memory pointer ∧
      cpu.memory.romEnd ≤ cpu.memory.index (cpu.target instr pointer) ∧
      after.memory = { cpu.memory with
        words := cpu.memory.words.setIfInBounds (cpu.memory.index (cpu.target instr pointer))
          (cpu.result instr).value }
  registers : ∀ r, after.regs.get r = cpu.regs.get r ∨
    instr.destinationOperand = .register r ∨
    (instr.isPush ∧ instr.destinationOperand.register? = some r ∧
      after.regs.get r = cpu.regs.get r - 1) ∨
    (instr.isPop ∧ instr.sourceOperand.register? = some r ∧
      after.regs.get r = cpu.regs.get r + 1) ∨
    cpu.StoresToOwnSlot instr r.slot
  pending : after.regs.pendingInterrupt = cpu.regs.pendingInterrupt ∨ cpu.StoresToOwnSlot instr 7
  handler : after.device.control.interruptHandler = cpu.device.control.interruptHandler ∨
    instr.destinationOperand = .interrupt ∨ cpu.StoresToOwnSlot instr 5
  busIndex : after.device.control.busIndex = cpu.device.control.busIndex
  owner : after.device.control.owner = cpu.device.control.owner ∨ cpu.StoresToOwnSlot instr 2
  mappedBlock : after.device.control.mappedBlock = cpu.device.control.mappedBlock ∨
    cpu.StoresToOwnSlot instr 3
  status : after.device.control.status = cpu.device.control.status ∨ cpu.StoresToOwnSlot instr 4
  bus : Bus.Pointwise (cpu.Touches instr) cpu.bus after.bus

variable {cpu : Processor} {instr : Instruction}

theorem Touches.refl (index : UInt8) (tree : DeviceTree) : cpu.Touches instr index tree tree :=
  ⟨rfl, .inl rfl⟩

theorem Touches.trans (index : UInt8) (old middle new : DeviceTree)
    (hfirst : cpu.Touches instr index old middle) (hsecond : cpu.Touches instr index middle new) :
    cpu.Touches instr index old new := by
  refine ⟨hsecond.1.trans hfirst.1, ?_⟩
  rcases hsecond.2 with heq | hselects
  · rw [heq]
    exact hfirst.2
  · exact .inr hselects

theorem touches_mapDevice {index : UInt8} (hselects : cpu.Selects instr index)
    (f : Device Kind → Device Kind) (tree : DeviceTree) :
    cpu.Touches instr index tree (tree.mapDevice f) :=
  ⟨tree.bus_mapDevice f, .inr hselects⟩

theorem commitFrame_computed : cpu.CommitFrame instr (cpu.computed instr) := by
  have hbus : Bus.Pointwise (cpu.Touches instr) cpu.bus
      (cpu.bus.afterReads cpu.id (cpu.readAddresses instr)) := by
    apply Bus.pointwise_afterReads Touches.refl Touches.trans
    intro address haddress tree
    exact touches_mapDevice ⟨address, List.mem_append_left _ haddress, rfl⟩ _ tree
  exact ⟨rfl, rfl, rfl, .inl rfl, fun _ => .inl rfl, .inl rfl, .inl rfl, rfl, .inl rfl, .inl rfl,
    .inl rfl, hbus⟩

-- A pop adjusts the pointer register of its source.
theorem commitFrame_pop : cpu.CommitFrame instr ((cpu.computed instr).pop instr) := by
  have hframe : cpu.CommitFrame instr (cpu.computed instr) := commitFrame_computed
  unfold pop
  split
  · next hpop =>
    split
    · next pointer hpointer =>
      have hget := (cpu.computed instr).regs.get_set_apply (· + 1) pointer
      refine { hframe with registers := fun r => ?_ }
      by_cases hr : r = pointer
      · refine .inr (.inr (.inr (.inl ⟨hpop, hr ▸ hpointer, ?_⟩)))
        exact (hget r).trans (if_pos hr)
      · exact .inl ((hget r).trans (if_neg hr))
    · exact hframe
  · exact hframe

-- A push adjusts the pointer register of its destination.
theorem commitFrame_push {pointer : Register}
    (hpointer : instr.destinationOperand.register? = some pointer) :
    cpu.CommitFrame instr ((cpu.computed instr).push instr pointer) := by
  have hframe : cpu.CommitFrame instr (cpu.computed instr) := commitFrame_computed
  unfold push
  split
  · next hpush =>
    have hget := (cpu.computed instr).regs.get_set_apply (· - 1) pointer
    refine { hframe with registers := fun r => ?_ }
    by_cases hr : r = pointer
    · refine .inr (.inr (.inl ⟨hpush, hr ▸ hpointer, ?_⟩))
      exact (hget r).trans (if_pos hr)
    · exact .inl ((hget r).trans (if_neg hr))
  · exact hframe

-- What holds of a component before a write to an own slot, or else of the slot, holds after it.
private theorem keep {α : Type} {x y z : α} {slot other : Slot} {p : Prop}
    (hslot : z = y ∨ slot = other) (hframe : y = x ∨ p) (hown : slot = other → p) : z = x ∨ p := by
  rcases hslot with rfl | h
  · exact hframe
  · exact .inr (hown h)

theorem commitFrame_writeBus {after : Processor} (hframe : cpu.CommitFrame instr after)
    {address : Word} (htarget : cpu.busTarget? instr = some address) (value : Word) :
    cpu.CommitFrame instr (after.writeBus address value) := by
  have hselects : cpu.Selects instr (BusAddress.ofWord address).index :=
    ⟨address, List.mem_append_right _ (by simp [htarget]), rfl⟩
  have hbus : Bus.Pointwise (cpu.Touches instr) cpu.bus
      (after.toBusMaster.write address value).bus := by
    rw [BusMaster.bus_write]
    apply hframe.bus.trans Touches.trans
    exact Bus.pointwise_afterWrite Touches.refl (fun tree _ => touches_mapDevice hselects _ tree)
      (fun tree _ => touches_mapDevice hselects _ tree) _
  have hdevice := after.toBusMaster.device_write address value
  unfold writeBus
  generalize after.toBusMaster.write address value = master at hbus hdevice
  obtain ⟨device, bus⟩ := master
  split at hdevice
  · next slot haddress =>
    -- A write to an own slot can change what the slot shows.
    have hown : ∀ {other}, slot = other → cpu.StoresToOwnSlot instr other := by
      rintro _ rfl
      exact ⟨address, htarget, haddress⟩
    have hslot : after.device.SlotFrame slot device := by
      have hwritten : device = after.device.writeSlot after.device.id slot value := hdevice
      rw [hwritten]
      exact Device.slotFrame_writeSlot _ _ _ _
    exact
      { id := hslot.id.trans hframe.id
        cycles := hframe.cycles
        nanosPerInstruction := hframe.nanosPerInstruction
        memory := by
          have hmemory := hframe.memory
          rwa [memory, ← hslot.memory] at hmemory
        registers := by
          intro r
          rcases hslot.registers r with heq | hr
          · have hregisters := hframe.registers r
            rwa [regs, ← heq] at hregisters
          · exact .inr (.inr (.inr (.inr (hown hr))))
        pending := keep hslot.pending hframe.pending hown
        handler := keep hslot.handler hframe.handler fun h => .inr (hown h)
        busIndex := hslot.busIndex.trans hframe.busIndex
        owner := keep hslot.owner hframe.owner hown
        mappedBlock := keep hslot.mappedBlock hframe.mappedBlock hown
        status := keep hslot.status hframe.status hown
        bus := hbus }
  · -- A write elsewhere on the bus leaves the processor itself alone.
    have hsame : device = after.device := hdevice
    subst hsame
    exact { hframe with bus := hbus }

theorem commitFrame_store :
    cpu.CommitFrame instr
      (((cpu.computed instr).pop instr).store instr (cpu.result instr).value) := by
  have hpop : cpu.CommitFrame instr ((cpu.computed instr).pop instr) := commitFrame_pop
  unfold store
  split
  · next hdestination =>
    split
    · exact { hpop with }
    · exact { hpop with }
  · next pointer hdestination =>
    rw [pop_of_isMemory (by rw [hdestination]; rfl), storeAddress_eq]
    have hpush : cpu.CommitFrame instr ((cpu.computed instr).push instr pointer) :=
      commitFrame_push (by rw [hdestination]; rfl)
    have hmemory : ((cpu.computed instr).push instr pointer).memory = cpu.memory := by
      unfold push
      split <;> rfl
    have hwrite : ((cpu.computed instr).push instr pointer).memory.write
        (cpu.target instr pointer) (cpu.result instr).value =
        cpu.memory.write (cpu.target instr pointer) (cpu.result instr).value := by
      rw [hmemory]
    refine { hpush with memory := ?_ }
    by_cases hrom : cpu.memory.romEnd ≤ cpu.memory.index (cpu.target instr pointer)
    · exact .inr ⟨pointer, hdestination, hrom, hwrite.trans (if_pos hrom)⟩
    · exact .inl (hwrite.trans (if_neg hrom))
  · next pointer hdestination =>
    rw [pop_of_isMemory (by rw [hdestination]; rfl), storeAddress_eq]
    have hpush : cpu.CommitFrame instr ((cpu.computed instr).push instr pointer) :=
      commitFrame_push (by rw [hdestination]; rfl)
    exact commitFrame_writeBus hpush (by rw [busTarget?, hdestination]; rfl) _
  · next r hdestination =>
    refine { hpop with registers := fun r' => ?_ }
    by_cases hr : r' = r
    · exact .inr (.inl (hr ▸ hdestination))
    · have hget := ((cpu.computed instr).pop instr).regs.get_set r r' (cpu.result instr).value
      rw [if_neg hr] at hget
      have hregisters := hpop.registers r'
      rw [← hget] at hregisters
      exact hregisters
  · exact { hpop with }
  · next hdestination => exact { hpop with handler := .inr (.inl hdestination) }
  · exact hpop

theorem commitFrame_retire {after : Processor} (hframe : cpu.CommitFrame instr after) :
    cpu.CommitFrame instr after.retire := by
  unfold retire
  split
  · exact { hframe with }
  · exact hframe

-- A step that commits stays within the frame, and then time passes on the bus.
theorem step_of_commits (hrun : cpu.isRunning = true)
    (hcommit : cpu.commits cpu.current = true) :
    ∃ committed, cpu.CommitFrame cpu.current committed ∧
      cpu.step = .ok (cpu.current,
        { committed with
          bus := Bus.tick cpu.nanosPerInstruction committed.bus
          cycles := cpu.cycles + 1
          last := some cpu.current }) := by
  have hframe : cpu.CommitFrame cpu.current (cpu.execute cpu.current).retire := by
    rw [execute_eq, if_pos hcommit]
    exact commitFrame_retire commitFrame_store
  refine ⟨_, hframe, ?_⟩
  rw [step_eq hrun, hframe.cycles, tickBus, hframe.nanosPerInstruction]
  rfl

-- A push through r1 at 0 stores at the last word, which lies above the ROM.
theorem step_of_commits_push :
    let cpu : Processor :=
      { device := ⟨1, .initial, ⟨8, #[0x41C0, 0x0042] ++ .replicate 254 0, 2⟩, .initial, false⟩
        bus := [(16, .leaf ⟨2, .leds .dark, ⟨0, #[], 0⟩, .initial, true⟩)]
        state := .running, cycles := 7, nanosPerInstruction := 100, last := none }
    cpu.isRunning = true ∧ cpu.commits cpu.current = true ∧
      cpu.current.destinationOperand = .memory .r1 ∧
      cpu.memory.index (cpu.target cpu.current .r1) = 255 ∧
      ∃ committed, cpu.CommitFrame cpu.current committed ∧
        cpu.step = .ok (cpu.current,
          { committed with
            bus := Bus.tick 100 committed.bus, cycles := 8, last := some cpu.current }) := by
  intro cpu
  have hcommit : cpu.commits cpu.current = true := by
    simp only [cpu]
    decide +kernel
  have hdestination : cpu.current.destinationOperand = .memory .r1 := by
    simp only [cpu]
    decide +kernel
  have htarget : cpu.memory.index (cpu.target cpu.current .r1) = 255 := by
    simp only [cpu]
    decide +kernel
  exact ⟨rfl, hcommit, hdestination, htarget, step_of_commits rfl hcommit⟩

end Processor

end MicroCisc
