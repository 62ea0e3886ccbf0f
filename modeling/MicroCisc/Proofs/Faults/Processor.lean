import MicroCisc.Device.ChaCha
import MicroCisc.Proofs.Faults.Alu
import MicroCisc.Proofs.Faults.Time
import MicroCisc.Proofs.Processor.Reachable

namespace MicroCisc.Processor

/-! ### One instruction -/

def checkedReadOperand (cpu : Processor) (operand : NumberedOperand) (displacement : Word)
    (access : Access) : Checked (Word × Processor) :=
  match operand with
  | .pc => return (cpu.regs.pc + displacement, cpu)
  | .memory pointer => do
      let base ← cpu.regs.checkedGet pointer
      return (← cpu.memory.checkedRead (base + displacement), cpu)
  | .register number => return ((← cpu.regs.checkedGet number) + displacement, cpu)
  | .bus pointer => do
      let base ← cpu.regs.checkedGet pointer
      let (value, master) ← cpu.toBusMaster.checkedRead (base + displacement) access
      return (value, { cpu with toBusMaster := master })
  | .immediate => return (displacement, cpu)
  | .flags => return (cpu.regs.flags.bits, cpu)
  | .interrupt => return (cpu.device.control.interruptHandler, cpu)

def checkedSet (cpu : Processor) (number : Nat) (value : Word) : Checked Processor := do
  let regs ← cpu.regs.checkedSet number value
  return cpu.mapRegs fun _ => regs

def checkedPop (cpu : Processor) (instr : Instruction) (source : NumberedOperand) :
    Checked Processor :=
  if instr.isPop then
    match source.register? with
    | some pointer => do
        let value ← cpu.regs.checkedGet pointer
        cpu.checkedSet pointer (value + 1)
    | none => return cpu
  else return cpu

-- The address of a store through a pointer register, and the processor once a push has lowered that.
def checkedPush (cpu : Processor) (instr : Instruction) (pointer : Nat) :
    Checked (Word × Processor) := do
  let base ← cpu.regs.checkedGet pointer
  let address := base + instr.displacement
  if instr.isPush then return (address - 1, ← cpu.checkedSet pointer (base - 1))
  else return (address, cpu)

-- The cycle that the halt takes is counted ahead.
def checkedHalt (cpu : Processor) : Checked Processor := do
  let pointer ← cpu.regs.checkedGet 1
  let code ← cpu.memory.checkedRead pointer
  let _ ← Checked.natural 64 (cpu.cycles + 1)
  return { cpu.mapDevice (·.setHalted true) with state := .halted code }

def checkedStore (cpu : Processor) (instr : Instruction) (destination : NumberedOperand)
    (value : Word) : Checked Processor :=
  match destination with
  | .pc =>
      if instr.isSelfJump && value == cpu.regs.pc then cpu.checkedHalt
      else return cpu.mapRegs (·.setNext value)
  | .memory pointer => do
      let (address, cpu) ← cpu.checkedPush instr pointer
      let device ← cpu.device.checkedWriteLocal address value
      return { cpu with device }
  | .bus pointer => do
      let (address, cpu) ← cpu.checkedPush instr pointer
      let master ← cpu.toBusMaster.checkedWrite address value
      return { cpu with toBusMaster := master }
  | .register number => cpu.checkedSet number value
  | .flags => return cpu.mapRegs fun regs => { regs with flags := ⟨value⟩ }
  | .interrupt => return cpu.mapDevice (·.setInterruptHandler value)
  | .immediate => return cpu

def checkedExecute (cpu : Processor) (instr : Instruction) : Checked Processor := do
  let source ← NumberedOperand.ofSourceCode instr.source
  let destination ← NumberedOperand.ofDestinationCode instr.destination
  let (sourceValue, cpu) ← cpu.checkedReadOperand source instr.immediate .consume
  let (destinationValue, cpu) ← cpu.checkedReadOperand destination instr.displacement .consume
  let result ←
    Alu.checkedCompute instr.alu sourceValue destinationValue cpu.regs.flags cpu.regs.overflow
  let cpu := cpu.mapRegs fun regs =>
    { regs with flags := result.flags, overflow := result.overflow }
  if instr.effect.fires result.flags then
    let cpu ← cpu.checkedPop instr source
    cpu.checkedStore instr destination result.value
  else return cpu

section Execution

variable (cpu : Processor) (instr : Instruction)

theorem checkedReadOperand_eq (operand : Operand) (displacement : Word) (access : Access) :
    cpu.checkedReadOperand operand.numbered displacement access =
      pure (cpu.readOperand operand displacement access) := by
  cases operand with
  | memory pointer =>
    simp only [Operand.numbered, checkedReadOperand, Registers.checkedGet_number, pure_bind,
      Memory.checkedRead_eq]
    rfl
  | register r =>
    simp only [Operand.numbered, checkedReadOperand, Registers.checkedGet_number, pure_bind]
    rfl
  | bus pointer =>
    simp only [Operand.numbered, checkedReadOperand, Registers.checkedGet_number, pure_bind,
      BusMaster.checkedRead_eq]
    rfl
  | pc | immediate | flags | interrupt => rfl

theorem checkedSet_number (register : Register) (value : Word) :
    cpu.checkedSet register.number value = pure (cpu.mapRegs (·.set register value)) := by
  rw [checkedSet, Registers.checkedSet_number, pure_bind]
  rfl

theorem checkedPop_eq :
    cpu.checkedPop instr instr.sourceOperand.numbered = pure (cpu.pop instr) := by
  unfold checkedPop pop
  split
  · rw [Operand.register?_numbered]
    cases instr.sourceOperand.register? with
    | none => rfl
    | some pointer =>
      simp only [Option.map_some, Registers.checkedGet_number, pure_bind, checkedSet_number]
      rfl
  · rfl

theorem checkedPush_eq (pointer : Register) :
    cpu.checkedPush instr pointer.number =
      pure (cpu.storeAddress instr pointer, cpu.push instr pointer) := by
  unfold checkedPush storeAddress push
  rw [Registers.checkedGet_number, pure_bind]
  dsimp only
  split
  · rw [checkedSet_number, pure_bind]
    rfl
  · rfl

variable {cpu} (hcycles : cpu.cycles + 1 < 2 ^ 64)

include hcycles

theorem checkedHalt_eq : cpu.checkedHalt = pure cpu.halt := by
  have hpointer : cpu.regs.checkedGet 1 = pure (cpu.regs.get .r1) := cpu.regs.checkedGet_number .r1
  rw [checkedHalt, hpointer, pure_bind, Memory.checkedRead_eq, pure_bind,
    Checked.natural_ok hcycles, pure_bind]
  rfl

theorem checkedStore_eq (value : Word) :
    cpu.checkedStore instr instr.destinationOperand.numbered value =
      pure (cpu.store instr value) := by
  unfold store
  cases instr.destinationOperand with
  | pc =>
    simp only [Operand.numbered, checkedStore, checkedHalt_eq hcycles]
    split <;> rfl
  | memory pointer =>
    simp only [Operand.numbered, checkedStore, checkedPush_eq, pure_bind,
      Device.checkedWriteLocal_eq]
    rfl
  | bus pointer =>
    simp only [Operand.numbered, checkedStore, checkedPush_eq, pure_bind,
      BusMaster.checkedWrite_eq]
    rfl
  | register r =>
    simp only [Operand.numbered, checkedStore, checkedSet_number]
  | immediate | flags | interrupt => rfl

theorem checkedExecute_eq : cpu.checkedExecute instr = pure (cpu.execute instr) := by
  have hsource : NumberedOperand.ofSourceCode instr.source =
      pure instr.sourceOperand.numbered := Operand.numbered_ofSourceCode instr.source
  have hdestination : NumberedOperand.ofDestinationCode instr.destination =
      pure instr.destinationOperand.numbered := Operand.numbered_ofDestinationCode instr.destination
  have hread (cpu : Processor) (operand : Operand) (displacement : Word) :
      (cpu.readOperand operand displacement .consume).2.cycles = cpu.cycles := by
    rw [snd_readOperand]
  rw [checkedExecute, hsource, pure_bind, hdestination, pure_bind, checkedReadOperand_eq, pure_bind]
  dsimp only
  rw [checkedReadOperand_eq, pure_bind, Alu.checkedCompute_eq, pure_bind]
  unfold execute
  dsimp only
  split
  · rw [checkedPop_eq, pure_bind, checkedStore_eq]
    obtain ⟨f, hpop⟩ := pop_eq_mapRegs (mapRegs _ _) instr
    rw [hpop]
    show ((cpu.readOperand _ _ _).2.readOperand _ _ _).2.cycles + 1 < 2 ^ 64
    rw [hread, hread]
    exact hcycles
  · rfl

end Execution

/-! ### Runs -/

def checkedCurrent (cpu : Processor) : Checked Instruction := do
  let high ← cpu.memory.checkedRead cpu.regs.pc
  let low ← cpu.memory.checkedRead (cpu.regs.pc + 1)
  return .decode high low

-- Time does nothing to the registers.
def checkedAdvance (cpu : Processor) (instr : Instruction) : Checked Processor := do
  let cpu ← cpu.checkedExecute instr
  let cpu := cpu.retire
  let bus ← Bus.checkedTick cpu.nanosPerInstruction cpu.bus
  let cycles ← Checked.natural 64 (cpu.cycles + 1)
  return { cpu with bus, cycles, last := some instr }

def checkedStep (cpu : Processor) : Checked (Except ProcessorError (Instruction × Processor)) :=
  if cpu.isRunning then do
    let instr ← cpu.checkedCurrent
    return .ok (instr, ← cpu.checkedAdvance instr)
  else return .error (.notRunning cpu.state)

def checkedRunFor : Nat → Processor → Checked Processor
  | 0, cpu => return cpu
  | limit + 1, cpu => do
      match ← cpu.checkedStep with
      | .ok (_, after) => checkedRunFor limit after
      | .error _ => return cpu

-- The rates of the serial lines are ones that a line can have.
def HasRates (cpu : Processor) : Prop :=
  cpu.bus.EveryLine fun baud _ => SerialLine.IsRate baud

-- The counters of 64 bits have room for one more instruction.
structure HasRoom (cpu : Processor) : Prop where
  cycles : cpu.cycles + 1 < 2 ^ 64
  elapsed : cpu.bus.EveryLine fun _ elapsed => elapsed + cpu.nanosPerInstruction < 2 ^ 64

theorem checkedCurrent_eq (cpu : Processor) : cpu.checkedCurrent = pure cpu.current := by
  simp only [checkedCurrent, Memory.checkedRead_eq, pure_bind]
  rfl

section Lines

variable {cpu : Processor} {p : Nat → Nat → Prop} (h : cpu.bus.EveryLine p)

include h

theorem everyLine_busAfter (instr : Instruction) : (cpu.busAfter instr).EveryLine p := by
  rw [Bus.everyLine_iff] at h ⊢
  exact everyKind_busAfter Kind.lasting_everyLine h instr

theorem everyLine_advance (hp : Lasts cpu.nanosPerInstruction p) :
    cpu.advance.bus.EveryLine p := by
  rw [Bus.everyLine_iff] at h ⊢
  exact everyKind_advance Kind.lasting_everyLine (Kind.lastsFor_everyLine hp) h

end Lines

section Steps

variable {cpu : Processor}

theorem nanosPerInstruction_advance : cpu.advance.nanosPerInstruction = cpu.nanosPerInstruction := by
  obtain ⟨device, state, hexecute⟩ := cpu.retire_execute_eq cpu.current
  rw [advance, hexecute]
  rfl

theorem checkedAdvance_eq (hrates : cpu.HasRates) (hroom : cpu.HasRoom) :
    cpu.checkedAdvance cpu.current = pure cpu.advance := by
  obtain ⟨device, state, hexecute⟩ := cpu.retire_execute_eq cpu.current
  have hlines := everyLine_busAfter (hrates.and hroom.elapsed) cpu.current
  rw [checkedAdvance, checkedExecute_eq _ hroom.cycles, pure_bind, advance, hexecute]
  dsimp only
  rw [Bus.checkedTick_eq _ hlines, pure_bind, Checked.natural_ok hroom.cycles, pure_bind]
  rfl

theorem checkedStep_eq (hrates : cpu.HasRates) (hroom : cpu.HasRoom) :
    cpu.checkedStep = pure cpu.step := by
  unfold checkedStep step
  split
  · rw [checkedCurrent_eq, pure_bind, checkedAdvance_eq hrates hroom, pure_bind]
  · rfl

theorem everyLine_of_steps {p : Nat → Nat → Prop} {n : Nat} {after : Processor}
    (hsteps : Steps n cpu after) (hp : Lasts cpu.nanosPerInstruction p) (h : cpu.bus.EveryLine p) :
    after.bus.EveryLine p ∧ after.nanosPerInstruction = cpu.nanosPerInstruction := by
  induction hsteps with
  | refl => exact ⟨h, rfl⟩
  | next hstep _ ih =>
    obtain ⟨-, rfl⟩ := of_step_eq_ok_advance hstep
    rw [nanosPerInstruction_advance] at ih
    exact ih hp (everyLine_advance h hp)

theorem checkedRunFor_eq {limit : Nat} (hrates : cpu.HasRates)
    (hroom : ∀ n < limit, ∀ after, Steps n cpu after → after.HasRoom) :
    cpu.checkedRunFor limit = pure (cpu.runFor limit) := by
  induction limit generalizing cpu with
  | zero => rfl
  | succ limit ih =>
    have hstep := checkedStep_eq hrates (hroom 0 (Nat.succ_pos limit) cpu (.refl cpu))
    rw [checkedRunFor, hstep, pure_bind, runFor]
    cases hrun : cpu.isRunning with
    | false =>
      rw [step, hrun]
      rfl
    | true =>
      have hadvance : cpu.advance.HasRates := everyLine_advance hrates (lasts_isRate _)
      rw [step_of_isRunning hrun, if_pos rfl]
      refine ih hadvance fun n hn after hsteps => ?_
      exact hroom (n + 1) (Nat.succ_lt_succ hn) after (.next (step_of_isRunning hrun) hsteps)

-- The counters have room for so many instructions if the time of one fits and the cycles do. However
-- long a run is, no line counts up more time than a second and that of an instruction.
theorem hasRoom_of_steps {n : Nat} {after : Processor} (hsteps : Steps n cpu after)
    (hlines : cpu.bus.EveryLine IsRegular) (hnanos : 1000000000 + cpu.nanosPerInstruction ≤ 2 ^ 64)
    (hcycles : cpu.cycles + n + 1 < 2 ^ 64) : after.HasRoom := by
  obtain ⟨hafter, hpace⟩ := everyLine_of_steps hsteps (lasts_isRegular _) hlines
  refine ⟨by rwa [hsteps.cycles_eq], hafter.mono fun baud elapsed hline => ?_⟩
  have hless := hline.2
  rw [hpace]
  omega

-- No program makes a processor fail, whatever is in its memory and its registers and whichever devices
-- it has. As long as the counters have room, no step of a run has a fault, nor has the run.
theorem no_faults {limit : Nat} (hrates : cpu.HasRates)
    (hroom : ∀ n < limit, ∀ after, Steps n cpu after → after.HasRoom) :
    (∀ n < limit, ∀ after, Steps n cpu after → after.checkedStep = pure after.step) ∧
      cpu.checkedRunFor limit = pure (cpu.runFor limit) := by
  refine ⟨fun n hn after hsteps => ?_, checkedRunFor_eq hrates hroom⟩
  have hafter : after.HasRates := (everyLine_of_steps hsteps (lasts_isRate _) hrates).1
  exact checkedStep_eq hafter (hroom n hn after hsteps)

-- A million instructions on a bus with a memory of no words, a processor that masters a terminal, and a
-- serial line of the fastest rate there is.
theorem no_faults_million :
    let processor : DeviceTree :=
      .node ⟨3, .processor .initial, ⟨8, .replicate 256 0, 0⟩, .initial, true⟩
        [(1, .leaf ⟨4, .terminal .initial, ⟨8, .replicate 256 0, 0⟩, .initial, true⟩)]
    let line := SerialLine.ofBaud 4294967295 (.seeded 1)
    let cpu : Processor :=
      { device := ⟨1, .initial, ⟨8, .replicate 256 0x19A0, 0⟩, .initial, false⟩
        bus := [(1, .leaf ⟨2, .memory, ⟨0, #[], 0⟩, .initial, true⟩), (2, processor),
          (3, .leaf ⟨5, .serial line, ⟨0, #[], 0⟩, .initial, true⟩)]
        state := .running, cycles := 0, nanosPerInstruction := 100, last := none }
    cpu.HasRates ∧
      (∀ n < 1000000, ∀ after, Steps n cpu after → after.HasRoom) ∧
      cpu.checkedRunFor 1000000 = pure (cpu.runFor 1000000) := by
  intro processor line cpu
  have hline : IsRegular line.baud line.elapsed := ⟨⟨4294967295, rfl⟩, by decide⟩
  have hlines : cpu.bus.EveryLine IsRegular :=
    ⟨⟨trivial, trivial⟩, ⟨trivial, ⟨trivial, trivial⟩, trivial⟩, ⟨hline, trivial⟩, trivial⟩
  have hrates : cpu.HasRates := hlines.mono fun baud elapsed h => h.1
  have hroom : ∀ n < 1000000, ∀ after, Steps n cpu after → after.HasRoom := by
    intro n hn after hsteps
    refine hasRoom_of_steps hsteps hlines (by decide) ?_
    show 0 + n + 1 < 2 ^ 64
    omega
  exact ⟨hrates, hroom, (no_faults hrates hroom).2⟩

end Steps

end MicroCisc.Processor
