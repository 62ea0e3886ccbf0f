import MicroCisc.Proofs.Alu.Chain
import MicroCisc.Proofs.Processor.Halting
import MicroCisc.Proofs.Processor.OwnSlots
import MicroCisc.Proofs.Processor.Reachable

namespace MicroCisc

theorem Operand.eq_flags_of_ofDestinationCode {code : UInt8} (h : ofDestinationCode code = .flags) :
    code &&& 0xF = 4 ∨ code &&& 0xF = 8 := by
  have hshared : ∀ n : Fin 16, shared n = .flags → n.val = 4 ∨ n.val = 8 := by decide
  have hlt : (code &&& 0xF).toNat < 16 := Nat.lt_succ_of_le Nat.and_le_right
  simp only [← UInt8.toNat_inj]
  unfold ofDestinationCode at h
  split at h
  · next hcode => exact .inl hcode
  · exact hshared ⟨_, hlt⟩ h

/-! ### Registers -/

namespace Registers

-- The pending pointer and the interrupt flag.
def interruptState (regs : Registers) : Word × Bool :=
  (regs.pendingInterrupt, regs.flags.has .interrupt)

variable (regs : Registers)

theorem interruptState_raiseInterrupt (pointer : Word) :
    (regs.raiseInterrupt pointer).interruptState = (pointer, true) :=
  congrArg (Prod.mk pointer) (Flags.has_put _ _ _ _)

theorem interruptState_acknowledgeInterrupt : regs.acknowledgeInterrupt.interruptState = (0, false) :=
  congrArg (Prod.mk 0) (Flags.has_put _ _ _ _)

theorem interruptState_writeSlot {slot : Slot} (hpending : slot ≠ 7) (hflags : slot ≠ 15)
    (value : Word) : (regs.writeSlot slot value).interruptState = regs.interruptState := by
  unfold writeSlot
  split
  · exact absurd rfl hpending
  iterate 7 rfl
  · exact absurd rfl hflags
  · rfl

end Registers

theorem Device.interruptState_writeSlot (device : Device Registers) (source : Word) {slot : Slot}
    (hpending : slot ≠ 7) (hflags : slot ≠ 15) (value : Word) :
    (device.writeSlot source slot value).kind.interruptState = device.kind.interruptState := by
  unfold writeSlot
  split
  · rfl
  · rfl
  · unfold claim
    split
    · rfl
    · split <;> rfl
  · split
    · unfold writeGatedSlot
      split
      · rfl
      · rfl
      · rfl
      · exact device.kind.interruptState_writeSlot hpending hflags value
    · rfl

/-! ### The host -/

-- Does the host leave the slots 7 and 15 of the processor alone?
def HostAction.SparesInterrupt : HostAction → Prop
  | .writeSlot _ slot _ => slot ≠ 7 ∧ slot ≠ 15
  | .writeBus address _ =>
      BusAddress.ofWord address ≠ .slot 0 7 ∧ BusAddress.ofWord address ≠ .slot 0 15
  | _ => True

instance : (action : HostAction) → Decidable action.SparesInterrupt
  | .writeSlot _ _ _ | .writeBus _ _ => inferInstanceAs (Decidable (_ ∧ _))
  | .tick _ | .readSlot _ _ _ | .writeLocal _ _ | .writeBlock _ _ _ | .readBus _ _ =>
      inferInstanceAs (Decidable True)

namespace BusMaster

variable (master : BusMaster Registers)

theorem interruptState_write {address : Word} (hpending : BusAddress.ofWord address ≠ .slot 0 7)
    (hflags : BusAddress.ofWord address ≠ .slot 0 15) (value : Word) :
    (master.write address value).device.kind.interruptState = master.device.kind.interruptState := by
  rw [device_write]
  split
  · next slot haddress =>
    rw [haddress] at hpending hflags
    exact master.device.interruptState_writeSlot _ (fun hslot => hpending (hslot ▸ rfl))
      (fun hslot => hflags (hslot ▸ rfl)) value
  · rfl

theorem interruptState_act {action : HostAction} (h : action.SparesInterrupt) :
    (master.act action).device.kind.interruptState = master.device.kind.interruptState := by
  cases action with
  | writeSlot source slot value => exact master.device.interruptState_writeSlot source h.1 h.2 value
  | writeBus address value => exact master.interruptState_write h.1 h.2 value
  | readSlot source slot access => rw [act, Device.snd_readSlot_registers]
  | writeBlock source offset value =>
    obtain ⟨memory, hwrite⟩ := master.device.writeBlock_eq source offset value
    rw [act, hwrite]
  | readBus address access =>
    rw [act, read]
    split
    · simp only [Device.snd_readSlot_registers]
    · rfl
    · rfl
  | tick nanos | writeLocal address value => rfl

end BusMaster

namespace Processor

/-! ### Instructions -/

-- Does the instruction commit a store in the flags, or in one of the processor's slots 7 and 15?
def StoresInInterruptState (cpu : Processor) (instr : Instruction) : Prop :=
  cpu.commits instr = true ∧
    ((instr.destination &&& 0xF = 4 ∨ instr.destination &&& 0xF = 8) ∨
      cpu.StoresToOwnSlot instr 7 ∨ cpu.StoresToOwnSlot instr 15)

instance (cpu : Processor) (instr : Instruction) : Decidable (cpu.StoresInInterruptState instr) :=
  inferInstanceAs (Decidable (_ ∧ _))

variable {cpu : Processor} {instr : Instruction} {slot : Slot}

-- No operation of the ALU touches the flag.
theorem has_interrupt_result (cpu : Processor) (instr : Instruction) :
    (cpu.result instr).flags.has .interrupt = cpu.regs.flags.has .interrupt := by
  rw [Flags.has_eq_testBit, Flags.has_eq_testBit]
  exact Alu.testBit_compute _ _ _ _ _ (by decide)

theorem interruptState_computed (cpu : Processor) (instr : Instruction) :
    (cpu.computed instr).regs.interruptState = cpu.regs.interruptState :=
  congrArg (Prod.mk cpu.regs.pendingInterrupt) (cpu.has_interrupt_result instr)

theorem interruptState_pop (cpu : Processor) (instr : Instruction) :
    (cpu.pop instr).regs.interruptState = cpu.regs.interruptState := by
  unfold pop
  split
  · split <;> rfl
  · rfl

theorem interruptState_push (cpu : Processor) (instr : Instruction) (pointer : Register) :
    (cpu.push instr pointer).regs.interruptState = cpu.regs.interruptState := by
  unfold push
  split <;> rfl

theorem interruptState_retire (cpu : Processor) :
    cpu.retire.regs.interruptState = cpu.regs.interruptState := by
  unfold retire
  split <;> rfl

theorem storesToOwnSlot_pop_computed :
    ((cpu.computed instr).pop instr).StoresToOwnSlot instr slot ↔ cpu.StoresToOwnSlot instr slot := by
  rw [StoresToOwnSlot, StoresToOwnSlot, busTarget?_pop_computed]

theorem interruptState_store (hflags : instr.destinationOperand ≠ .flags)
    (hown : ¬(cpu.StoresToOwnSlot instr 7 ∨ cpu.StoresToOwnSlot instr 15)) (value : Word) :
    (cpu.store instr value).regs.interruptState = cpu.regs.interruptState := by
  unfold store
  split
  · split <;> rfl
  · next pointer hdestination => exact cpu.interruptState_push instr pointer
  · next pointer hdestination =>
    rw [storeAddress_eq, writeBus]
    have htarget : cpu.busTarget? instr = some (cpu.target instr pointer) := by
      rw [busTarget?, hdestination]
    have hspared (slot : Slot) (hslot : ¬cpu.StoresToOwnSlot instr slot) :
        BusAddress.ofWord (cpu.target instr pointer) ≠ .slot 0 slot :=
      fun haddress => hslot ⟨_, htarget, haddress⟩
    have hwrite := (cpu.push instr pointer).toBusMaster.interruptState_write
      (hspared 7 fun h => hown (.inl h)) (hspared 15 fun h => hown (.inr h)) value
    exact hwrite.trans (cpu.interruptState_push instr pointer)
  · rfl
  · next hdestination => exact absurd hdestination hflags
  · rfl
  · rfl

theorem interruptState_execute (h : ¬cpu.StoresInInterruptState instr) :
    (cpu.execute instr).regs.interruptState = cpu.regs.interruptState := by
  rw [execute_eq]
  split
  · next hcommits =>
    have hdestination : instr.destinationOperand ≠ .flags := fun hflags =>
      h ⟨hcommits, .inl (Operand.eq_flags_of_ofDestinationCode hflags)⟩
    have hown : ¬(((cpu.computed instr).pop instr).StoresToOwnSlot instr 7 ∨
        ((cpu.computed instr).pop instr).StoresToOwnSlot instr 15) := by
      rw [storesToOwnSlot_pop_computed, storesToOwnSlot_pop_computed]
      exact fun hslot => h ⟨hcommits, .inr hslot⟩
    rw [interruptState_store hdestination hown, interruptState_pop, interruptState_computed]
  · exact cpu.interruptState_computed instr

theorem interruptState_advance (h : ¬cpu.StoresInInterruptState cpu.current) :
    cpu.advance.regs.interruptState = cpu.regs.interruptState :=
  (cpu.execute cpu.current).interruptState_retire.trans (interruptState_execute h)

-- Any store in slot 7 acknowledges the interrupt.
theorem interruptState_store_own (hown : cpu.StoresToOwnSlot instr 7) (value : Word) :
    (cpu.store instr value).regs.interruptState = (0, false) := by
  obtain ⟨address, htarget, haddress⟩ := hown
  unfold busTarget? at htarget
  split at htarget
  · next pointer hdestination =>
    cases htarget
    have hslot := (cpu.push instr pointer).writeSlot_own (show 3 ≤ (7 : Slot) by decide) value
    have hwrite := (cpu.push instr pointer).toBusMaster.device_write (cpu.target instr pointer) value
    rw [haddress] at hwrite
    simp only [store, hdestination, storeAddress_eq, writeBus, regs]
    rw [hwrite]
    exact (congrArg (·.kind.interruptState) hslot).trans
      (Registers.interruptState_acknowledgeInterrupt _)
  · cases htarget

theorem interruptState_advance_of_own (hcommits : cpu.commits cpu.current = true)
    (hown : cpu.StoresToOwnSlot cpu.current 7) :
    cpu.advance.regs.interruptState = (0, false) := by
  have hstored := interruptState_store_own (storesToOwnSlot_pop_computed.2 hown)
    (cpu.result cpu.current).value
  refine (cpu.execute cpu.current).interruptState_retire.trans ?_
  rw [execute_eq, if_pos hcommits]
  exact hstored

-- What fires on an interrupt commits while one is raised.
theorem commits_of_interrupt {pointer : Word} (h : cpu.regs.interruptState = (pointer, true))
    (heffect : instr.effect = .interrupt) : cpu.commits instr = true := by
  rw [commits, heffect]
  exact (cpu.has_interrupt_result instr).trans (congrArg Prod.snd h)

/-! ### Runs -/

-- How many instructions an operation executes, unless the processor halts earlier.
def stepsIn (cpu : Processor) : Operation → Nat
  | .step => 1
  | .run => cpu.room
  | .runLimited limit => min limit cpu.room
  | _ => 0

-- The states that a processor is in along a run, those between two instructions of an operation among
-- them.
inductive Passes : Processor → List Action → Processor → Prop
  | now (cpu : Processor) (actions : List Action) : Passes cpu actions cpu
  | within {cpu : Processor} {operation : Operation} {steps : Nat}
      (hsteps : steps ≤ cpu.stepsIn operation) (rest : List Action) :
      Passes cpu (.operate operation :: rest) (cpu.runFor steps)
  | later {cpu state : Processor} {action : Action} {rest : List Action}
      (h : Passes (cpu.undergo action) rest state) : Passes cpu (action :: rest) state

-- None of the next instructions, which may be so many, stores in the interrupt state.
def SparesFor (cpu : Processor) (limit : Nat) : Prop :=
  ∀ steps < limit, (cpu.runFor steps).isRunning = true →
    ¬(cpu.runFor steps).StoresInInterruptState (cpu.runFor steps).current

instance (cpu : Processor) (limit : Nat) : Decidable (cpu.SparesFor limit) :=
  inferInstanceAs (Decidable (∀ steps < limit, _))

-- No instruction stores in the interrupt state, and neither does the owner or the host, who do not
-- raise another interrupt or reset the processor.
def Spares (cpu : Processor) : Action → Prop
  | .operate .reset | .operate (.raiseInterrupt _) => False
  | .operate operation => cpu.SparesFor (cpu.stepsIn operation)
  | .setDevice device => device.kind = cpu.regs
  | .act [] action => action.SparesInterrupt
  | _ => True

def SparesAll (cpu : Processor) : List Action → Prop
  | [] => True
  | action :: rest => cpu.Spares action ∧ (cpu.undergo action).SparesAll rest

instance (cpu : Processor) : (action : Action) → Decidable (cpu.Spares action)
  | .operate .reset | .operate (.raiseInterrupt _) => inferInstanceAs (Decidable False)
  | .operate .step | .operate .run | .operate (.runLimited _) | .operate .resume
  | .operate (.peek _) | .operate (.load _) | .operate (.connect _ _) | .operate (.setPc _) =>
      inferInstanceAs (Decidable (cpu.SparesFor _))
  | .setDevice _ => inferInstanceAs (Decidable (_ = _))
  | .act [] action => inferInstanceAs (Decidable action.SparesInterrupt)
  | .act (_ :: _) _ | .setPace _ | .feed _ _ | .drain _ | .take _ | .replace _ _ _ =>
      inferInstanceAs (Decidable True)

instance decidableSparesAll (cpu : Processor) :
    (actions : List Action) → Decidable (cpu.SparesAll actions)
  | [] => inferInstanceAs (Decidable True)
  | action :: rest =>
      have := decidableSparesAll (cpu.undergo action) rest
      inferInstanceAs (Decidable (_ ∧ _))

theorem Spares.sparesFor {operation : Operation} (h : cpu.Spares (.operate operation)) :
    cpu.SparesFor (cpu.stepsIn operation) := by
  cases operation with
  | reset | raiseInterrupt pointer => exact h.elim
  | step | run | runLimited limit | resume | peek code | load loader | connect index tree
  | setPc pc => exact h

theorem interruptState_runFor {limit : Nat} (h : cpu.SparesFor limit) :
    (cpu.runFor limit).regs.interruptState = cpu.regs.interruptState := by
  induction limit generalizing cpu with
  | zero => rfl
  | succ limit ih =>
    rw [runFor]
    split
    · next hrun =>
      have hfirst := interruptState_advance (h 0 (Nat.succ_pos _) hrun)
      refine (ih fun steps hsteps => ?_).trans hfirst
      have hlater := h (steps + 1) (Nat.succ_lt_succ hsteps)
      rwa [runFor, if_pos hrun] at hlater
    · rfl

theorem interruptState_operate {operation : Operation} (h : cpu.Spares (.operate operation)) :
    (cpu.operate operation).regs.interruptState = cpu.regs.interruptState := by
  cases operation with
  | step =>
    rw [operate_step]
    exact interruptState_runFor h
  | run =>
    rw [operate_run]
    exact interruptState_runFor h
  | runLimited limit =>
    rw [operate_runLimited]
    exact interruptState_runFor h
  | reset | raiseInterrupt pointer => exact h.elim
  | resume =>
    cases hstate : cpu.state with
    | running => rw [operate, resume, hstate]
    | halted code =>
      rw [operate, resume_of_halted hstate]
      rfl
  | peek code => rw [operate, snd_readOperand_peek]
  | connect index tree =>
    rcases cpu.operate_connect_eq index tree with hfails | hconnects
    · rw [hfails]
    · rw [hconnects]
      rfl
  | load loader | setPc pc => rfl

theorem interruptState_undergo {action : Action} (h : cpu.Spares action) :
    (cpu.undergo action).regs.interruptState = cpu.regs.interruptState := by
  cases action with
  | operate operation => exact interruptState_operate h
  | setDevice device => exact congrArg Registers.interruptState h
  | act path action =>
    cases path with
    | nil => exact cpu.toBusMaster.interruptState_act h
    | cons index path => rfl
  | setPace nanos | feed path bytes | drain path | take path | replace index path tree => rfl

-- Along a run that spares the interrupt state, it is the same in every state.
theorem Passes.interruptState {state : Processor} {actions : List Action}
    (h : cpu.Passes actions state) (hspares : cpu.SparesAll actions) :
    state.regs.interruptState = cpu.regs.interruptState := by
  induction h with
  | now => rfl
  | within hsteps rest =>
    exact interruptState_runFor fun earlier hearlier =>
      hspares.1.sparesFor earlier (Nat.lt_of_lt_of_le hearlier hsteps)
  | later _ ih => exact (ih hspares.2).trans (interruptState_undergo hspares.1)

-- After an interrupt is raised, and as long as no instruction stores in the flags or in the slots 7 and
-- 15 and nobody else changes them or raises another, the pointer and the flag are set in every state that
-- the processor passes, so that every instruction that fires on an interrupt commits there. And in any
-- state a committed store in slot 7, of whatever value, clears both.
theorem interrupt_stays_raised (cpu : Processor) (pointer : Word) {actions : List Action}
    (hspares : (cpu.raiseInterrupt pointer).SparesAll actions) :
    (∀ state, (cpu.raiseInterrupt pointer).Passes actions state →
      state.regs.pendingInterrupt = pointer ∧ state.regs.flags.has .interrupt = true ∧
        ∀ instr : Instruction, instr.effect = .interrupt → state.commits instr = true) ∧
    ∀ other : Processor, other.isRunning = true → other.commits other.current = true →
      other.StoresToOwnSlot other.current 7 →
      ∃ after, other.step = .ok (other.current, after) ∧ after.regs.pendingInterrupt = 0 ∧
        after.regs.flags.has .interrupt = false := by
  have hraised := cpu.regs.interruptState_raiseInterrupt pointer
  refine ⟨fun state hpasses => ?_, fun other hrun hcommits hown => ?_⟩
  · have hstate := (hpasses.interruptState hspares).trans hraised
    exact ⟨congrArg Prod.fst hstate, congrArg Prod.snd hstate, fun _ => commits_of_interrupt hstate⟩
  · have hcleared := interruptState_advance_of_own hcommits hown
    exact ⟨_, step_of_isRunning hrun, congrArg Prod.fst hcleared, congrArg Prod.snd hcleared⟩

-- A processor loads r1 and halts. Once it has been resumed, it acknowledges the interrupt, by an
-- instruction that fires on one.
theorem interrupt_stays_raised_resumed :
    let memory : Memory :=
      ⟨8, #[0x4540, 2, 0x0040, 0, 0x4970, 9] ++ .replicate 250 0, 0⟩
    let cpu : Processor :=
      { device := ⟨1, Registers.initial.set .r4 7, memory, .initial, false⟩
        bus := [], state := .running, cycles := 0, nanosPerInstruction := 100, last := none }
    let actions : List Action := [.operate (.runLimited 2), .operate .resume]
    let raised := cpu.raiseInterrupt 0x0A3
    let after := raised.undergoAll actions
    raised.SparesAll actions ∧ after.regs.pendingInterrupt = 0x0A3 ∧
      after.commits after.current = true ∧ after.StoresToOwnSlot after.current 7 ∧
      ∃ acknowledged, after.step = .ok (after.current, acknowledged) ∧
        acknowledged.regs.pendingInterrupt = 0 := by
  intro memory cpu actions raised after
  have hspares : raised.SparesAll actions := by decide +kernel
  obtain ⟨hraised, hacknowledges⟩ := interrupt_stays_raised cpu 0x0A3 hspares
  have hpasses : raised.Passes actions after := .later (.later (.now _ _))
  obtain ⟨hpointer, -, hfires⟩ := hraised after hpasses
  have hcommits : after.commits after.current = true := hfires _ (by decide +kernel)
  have hown : after.StoresToOwnSlot after.current 7 := by decide +kernel
  obtain ⟨acknowledged, hstep, hcleared, -⟩ := hacknowledges after (by decide +kernel) hcommits hown
  exact ⟨hspares, hpointer, hcommits, hown, acknowledged, hstep, hcleared⟩

end Processor

end MicroCisc
