import MicroCisc.Proofs.Device.Connect
import MicroCisc.Proofs.Processor.Trajectory

namespace MicroCisc.Processor

-- What the owner of a processor can do with it.
inductive Operation where
  | step
  | run
  | runLimited (limit : Nat)
  | resume
  | reset
  | raiseInterrupt (pointer : Word)
  | peek (code : UInt8)
  | load (loader : Memory → Memory.LoadResult)
  | connect (index : UInt8) (tree : DeviceTree)
  | setPc (pc : Word)

-- An operation that fails leaves what the failed call leaves.
def operate (cpu : Processor) : Operation → Processor
  | .step =>
      match cpu.step with
      | .ok (_, after) => after
      | .error _ => cpu
  | .run => cpu.run.2
  | .runLimited limit => (cpu.runLimited limit).2
  | .resume => cpu.resume
  | .reset => cpu.reset
  | .raiseInterrupt pointer => cpu.raiseInterrupt pointer
  | .peek code => (cpu.readOperand (.ofSourceCode code) 0 .peek).2
  | .load loader => (cpu.load loader).1
  | .connect index tree => (cpu.connect index tree).toOption.getD cpu
  | .setPc pc => cpu.setPc pc

-- How many of so many steps succeed. None does after one that fails.
def successes : Nat → Processor → Nat
  | 0, _ => 0
  | attempts + 1, cpu =>
      match cpu.step with
      | .ok (_, after) => successes attempts after + 1
      | .error _ => 0

-- A processor with the number of steps that have succeeded since it was built or last reset.
structure Life where
  cpu : Processor
  count : Nat

namespace Life

def start (cpu : Processor) : Life :=
  ⟨cpu, 0⟩

-- A run is as many steps as it may take and as can be counted.
def countAfter (life : Life) : Operation → Nat
  | .step => life.count + successes 1 life.cpu
  | .run => life.count + successes life.cpu.room life.cpu
  | .runLimited limit => life.count + successes (min limit life.cpu.room) life.cpu
  | .reset => 0
  | _ => life.count

def live (life : Life) (operation : Operation) : Life :=
  ⟨life.cpu.operate operation, life.countAfter operation⟩

def liveAll (life : Life) (operations : List Operation) : Life :=
  operations.foldl live life

end Life

-- Both accounts agree: of where execution goes on, and of whether the processor has halted.
structure Consistent (cpu : Processor) : Prop where
  next : cpu.regs.next = cpu.regs.pc + 2
  halted : cpu.device.halted = cpu.isHalted

/-! ### Steps -/

-- What an instruction can do to the run: nothing, or it halts the processor where it stands.
inductive Outcome (before after : Processor) : Prop where
  | goesOn (state : after.state = before.state)
      (halted : after.device.halted = before.device.halted)
  | halts (code : Word) (state : after.state = .halted code) (halted : after.device.halted = true)
      (pc : after.regs.pc = before.regs.pc) (next : after.regs.next = before.regs.next)

variable {cpu : Processor}

theorem isRunning_of_halted {code : Word} (h : cpu.state = .halted code) : cpu.isRunning = false := by
  rw [isRunning, h]
  rfl

theorem halted_writeBus (address value : Word) :
    (cpu.writeBus address value).device.halted = cpu.device.halted := by
  show (cpu.toBusMaster.write address value).device.halted = _
  rw [BusMaster.device_write]
  split
  · next slot _ =>
    obtain ⟨kind, control, hwrite⟩ := cpu.device.writeSlot_eq cpu.device.id slot value
    rw [hwrite]
  · rfl

theorem outcome_store (instr : Instruction) (value : Word) : cpu.Outcome (cpu.store instr value) := by
  unfold store
  split
  · split
    · exact .halts _ rfl rfl rfl rfl
    · exact .goesOn rfl rfl
  · next pointer _ =>
    obtain ⟨f, hpush⟩ := cpu.push_eq_mapRegs instr pointer
    rw [hpush]
    exact .goesOn rfl rfl
  · next pointer _ =>
    obtain ⟨f, hpush⟩ := cpu.push_eq_mapRegs instr pointer
    rw [hpush]
    exact .goesOn rfl (halted_writeBus _ _)
  all_goals exact .goesOn rfl rfl

-- A pop adjusts a general register.
theorem pop_pc (instr : Instruction) :
    (cpu.pop instr).regs.pc = cpu.regs.pc ∧ (cpu.pop instr).regs.next = cpu.regs.next := by
  unfold pop
  split
  · split <;> exact ⟨rfl, rfl⟩
  · exact ⟨rfl, rfl⟩

theorem outcome_execute (cpu : Processor) (instr : Instruction) : cpu.Outcome (cpu.execute instr) := by
  rw [execute_eq]
  split
  · obtain ⟨hpc, hnext⟩ := (cpu.computed instr).pop_pc instr
    obtain ⟨f, hpop⟩ := (cpu.computed instr).pop_eq_mapRegs instr
    cases ((cpu.computed instr).pop instr).outcome_store instr (cpu.result instr).value with
    | goesOn hstate hhalted =>
      rw [hpop] at hstate hhalted ⊢
      exact .goesOn hstate hhalted
    | halts code hstate hhalted hpc' hnext' =>
      exact .halts code hstate hhalted (hpc'.trans hpc) (hnext'.trans hnext)
  · exact .goesOn rfl rfl

namespace Consistent

-- Time on the bus and the counters do not matter.
theorem congr {after : Processor} (h : cpu.Consistent) (hregs : after.regs = cpu.regs)
    (hhalted : after.device.halted = cpu.device.halted) (hstate : after.state = cpu.state) :
    after.Consistent := by
  have hisHalted : after.isHalted = cpu.isHalted := by rw [isHalted, isRunning, hstate]; rfl
  constructor
  · rw [hregs, h.next]
  · rw [hhalted, h.halted, hisHalted]

theorem halted_iff (h : cpu.Consistent) :
    cpu.device.halted = true ↔ ∃ code, cpu.state = .halted code := by
  rw [h.halted, isHalted, isRunning]
  cases cpu.state with
  | running => simp
  | halted code => simp

theorem retire {before : Processor} (hbefore : before.Consistent) (hrun : before.isRunning = true)
    (h : before.Outcome cpu) : cpu.retire.Consistent := by
  cases h with
  | goesOn hstate hhalted =>
    have hrunning : cpu.isRunning = true := by rw [isRunning, hstate]; exact hrun
    have hflag : cpu.device.halted = cpu.isHalted := by
      rw [hhalted, hbefore.halted, isHalted, isHalted, hrunning, hrun]
    rw [Processor.retire, if_pos hrunning]
    exact ⟨rfl, hflag⟩
  | halts code hstate hhalted hpc hnext =>
    have hrunning : cpu.isRunning = false := isRunning_of_halted hstate
    rw [Processor.retire, if_neg (by rw [hrunning]; exact Bool.false_ne_true)]
    refine ⟨?_, ?_⟩
    · rw [hnext, hpc, hbefore.next]
    · rw [hhalted, isHalted, hrunning]
      rfl

theorem advance (h : cpu.Consistent) (hrun : cpu.isRunning = true) : cpu.advance.Consistent :=
  (h.retire hrun (cpu.outcome_execute cpu.current)).congr rfl rfl rfl

theorem runFor (h : cpu.Consistent) (limit : Nat) : (Processor.runFor limit cpu).Consistent := by
  induction limit generalizing cpu with
  | zero => exact h
  | succ limit ih =>
    rw [Processor.runFor]
    split
    · next hrun => exact ih (h.advance hrun)
    · exact h

end Consistent

theorem cycles_runFor (attempts : Nat) (cpu : Processor) :
    (cpu.runFor attempts).cycles = cpu.cycles + successes attempts cpu := by
  induction attempts generalizing cpu with
  | zero => rfl
  | succ attempts ih =>
    cases hrun : cpu.isRunning with
    | true =>
      rw [runFor, if_pos hrun, ih, cycles_advance, successes, step_of_isRunning hrun]
      exact Nat.add_right_comm _ _ _
    | false => simp [runFor_of_not_isRunning hrun, successes, step, hrun]

/-! ### Operations -/

theorem operate_step (cpu : Processor) : cpu.operate .step = cpu.runFor 1 := by
  rw [runFor, runFor]
  cases hrun : cpu.isRunning with
  | true => simp [operate, step_of_isRunning hrun]
  | false => simp [operate, step, hrun]

theorem operate_run (cpu : Processor) : cpu.operate .run = cpu.runFor cpu.room :=
  congrArg Prod.snd cpu.run_eq

theorem operate_runLimited (cpu : Processor) (limit : Nat) :
    cpu.operate (.runLimited limit) = cpu.runFor (min limit cpu.room) :=
  congrArg Prod.snd (runLimited_eq limit cpu)

-- A connection that fails changes nothing.
theorem operate_connect_eq (cpu : Processor) (index : UInt8) (tree : DeviceTree) :
    cpu.operate (.connect index tree) = cpu ∨
      cpu.operate (.connect index tree) =
        { cpu with bus := cpu.bus.insert index (tree.placedAt index) } := by
  have hoperate : cpu.operate (.connect index tree) =
      ((cpu.toBusMaster.connect index tree).map fun master =>
        { cpu with toBusMaster := master }).toOption.getD cpu := rfl
  rw [hoperate]
  cases hconnect : cpu.toBusMaster.connect index tree with
  | error e => exact .inl rfl
  | ok master =>
    obtain ⟨_, _, _, rfl⟩ := BusMaster.connect_eq_ok_iff.1 hconnect
    exact .inr rfl

-- A connection changes the bus alone.
theorem operate_connect (cpu : Processor) (index : UInt8) (tree : DeviceTree) :
    ∃ bus, cpu.operate (.connect index tree) = { cpu with bus } := by
  rcases cpu.operate_connect_eq index tree with hfails | hconnects
  · exact ⟨cpu.bus, hfails⟩
  · exact ⟨_, hconnects⟩

theorem resume_of_halted {code : Word} (hstate : cpu.state = .halted code) :
    cpu.resume =
      { cpu with
        device := { cpu.device with kind := cpu.regs.setPc (cpu.regs.pc + 2), halted := false }
        state := .running } := by
  rw [resume, hstate]
  rfl

theorem Consistent.operate (h : cpu.Consistent) (operation : Operation) :
    (cpu.operate operation).Consistent := by
  cases operation with
  | step =>
    rw [operate_step]
    exact h.runFor 1
  | run =>
    rw [operate_run]
    exact h.runFor _
  | runLimited limit =>
    rw [operate_runLimited]
    exact h.runFor _
  | resume =>
    cases hstate : cpu.state with
    | running =>
      rw [Processor.operate, Processor.resume, hstate]
      exact h
    | halted code =>
      rw [Processor.operate, resume_of_halted hstate]
      exact ⟨rfl, rfl⟩
  | reset => exact ⟨rfl, rfl⟩
  | raiseInterrupt pointer => exact ⟨h.next, h.halted⟩
  | peek code =>
    rw [Processor.operate, snd_readOperand_peek]
    exact h
  | load loader => exact h.congr rfl rfl rfl
  | connect index tree =>
    obtain ⟨bus, hconnect⟩ := cpu.operate_connect index tree
    rw [hconnect]
    exact h.congr rfl rfl rfl
  | setPc pc => exact ⟨rfl, h.halted⟩

-- A processor that has halted only runs again if it is resumed or reset.
theorem state_operate {code : Word} (hstate : cpu.state = .halted code) (operation : Operation) :
    (cpu.operate operation).state =
      match operation with
      | .resume | .reset => .running
      | _ => .halted code := by
  have hhalted : cpu.isRunning = false := isRunning_of_halted hstate
  have hstays (limit : Nat) : (cpu.runFor limit).state = .halted code := by
    rw [runFor_of_not_isRunning hhalted, hstate]
  cases operation with
  | step => exact (congrArg state cpu.operate_step).trans (hstays 1)
  | run => exact (congrArg state cpu.operate_run).trans (hstays _)
  | runLimited limit => exact (congrArg state (cpu.operate_runLimited limit)).trans (hstays _)
  | resume => exact congrArg state (resume_of_halted hstate)
  | reset => rfl
  | peek code => exact (congrArg state (cpu.snd_readOperand_peek _ 0)).trans hstate
  | connect index tree =>
    obtain ⟨bus, hconnect⟩ := cpu.operate_connect index tree
    exact (congrArg state hconnect).trans hstate
  | raiseInterrupt pointer | load loader | setPc pc => exact hstate

namespace Life

theorem cycles_live {life : Life} (h : life.cpu.cycles = life.count) (operation : Operation) :
    (life.live operation).cpu.cycles = (life.live operation).count := by
  have hsteps (attempts : Nat) : (life.cpu.runFor attempts).cycles =
      life.count + successes attempts life.cpu := by
    rw [cycles_runFor, h]
  cases operation with
  | step => exact (congrArg cycles life.cpu.operate_step).trans (hsteps 1)
  | run => exact (congrArg cycles life.cpu.operate_run).trans (hsteps _)
  | runLimited limit =>
    exact (congrArg cycles (life.cpu.operate_runLimited limit)).trans (hsteps _)
  | resume => exact life.cpu.cycles_resume.trans h
  | reset => rfl
  | raiseInterrupt pointer | load loader | setPc pc => exact h
  | peek code =>
    exact (congrArg cycles (life.cpu.snd_readOperand_peek _ 0)).trans h
  | connect index tree =>
    obtain ⟨bus, hconnect⟩ := life.cpu.operate_connect index tree
    exact (congrArg cycles hconnect).trans h

theorem consistent_liveAll (life : Life) (hconsistent : life.cpu.Consistent)
    (hcycles : life.cpu.cycles = life.count) (operations : List Operation) :
    (life.liveAll operations).cpu.Consistent ∧
      (life.liveAll operations).cpu.cycles = (life.liveAll operations).count := by
  induction operations generalizing life with
  | nil => exact ⟨hconsistent, hcycles⟩
  | cons operation rest ih =>
    exact ih (life.live operation) (hconsistent.operate operation) (cycles_live hcycles operation)

end Life

theorem consistent_ofWidth {id : Word} {width : UInt8} {built : Processor}
    (h : ofWidth id width = .ok built) : built.Consistent ∧ built.cycles = 0 := by
  unfold ofWidth at h
  split at h
  · cases h
  · cases hdevice : Device.ofKind id Registers.initial width with
    | error e =>
      rw [hdevice] at h
      cases h
    | ok device =>
      obtain ⟨-, memory, -, rfl⟩ := Device.ofKind_eq_ok_iff.1 hdevice
      rw [hdevice] at h
      cases h
      exact ⟨⟨rfl, rfl⟩, rfl⟩

-- Whatever is done with a new processor, the next address follows the pc, the flag of the device tells
-- whether it has halted, and the cycles are the steps that have succeeded since the last reset. A step
-- of a processor that has halted fails and changes nothing, and only a resumption, which moves on to the
-- next instruction, or a reset makes it run again.
theorem lifecycle_liveAll {id : Word} {width : UInt8} {built : Processor}
    (h : ofWidth id width = .ok built) (operations : List Operation) :
    let life := (Life.start built).liveAll operations
    let cpu := life.cpu
    cpu.regs.next = cpu.regs.pc + 2 ∧
      (cpu.device.halted = true ↔ ∃ code, cpu.state = .halted code) ∧
      (∀ code, cpu.state = .halted code →
        cpu.step = .error (.notRunning (.halted code)) ∧ cpu.operate .step = cpu ∧
        (∀ operation, (cpu.operate operation).state =
          match operation with
          | .resume | .reset => .running
          | _ => .halted code) ∧
        cpu.resume =
          { cpu with
            device := { cpu.device with
              kind := { cpu.regs with pc := cpu.regs.pc + 2, next := cpu.regs.next + 2 }
              halted := false }
            state := .running }) ∧
      cpu.cycles = life.count := by
  obtain ⟨hbuilt, hzero⟩ := consistent_ofWidth h
  obtain ⟨hconsistent, hcycles⟩ := (Life.start built).consistent_liveAll hbuilt hzero operations
  intro life cpu
  refine ⟨hconsistent.next, hconsistent.halted_iff, fun code hstate => ?_, hcycles⟩
  have hhalted : cpu.isRunning = false := isRunning_of_halted hstate
  have hstep : cpu.operate .step = cpu := by
    rw [operate_step, runFor_of_not_isRunning hhalted]
  refine ⟨by simp [step, hhalted, hstate], hstep, state_operate hstate, ?_⟩
  rw [resume_of_halted hstate, hconsistent.next]
  rfl

-- A processor that halts, fails to step, is resumed and halts again two instructions later.
theorem lifecycle_liveAll_resumed :
    let operations : List Operation :=
      [.load (·.loadProgram [0x0040, 0, 0x4540, 2, 0x0040, 0]), .runLimited 10, .step, .resume,
        .runLimited 10]
    ∃ built, ofWidth 1 8 = .ok built ∧
      let life := (Life.start built).liveAll operations
      life.cpu.state = .halted 0x4540 ∧ life.count = 3 ∧ life.cpu.cycles = 3 ∧
        life.cpu.regs.next = life.cpu.regs.pc + 2 ∧ life.cpu.device.halted = true ∧
        life.cpu.step = .error (.notRunning (.halted 0x4540)) := by
  intro operations
  have hends : ∃ built, ofWidth 1 8 = .ok built ∧
      let life := (Life.start built).liveAll operations
      life.cpu.state = .halted 0x4540 ∧ life.count = 3 := ⟨_, rfl, by decide +kernel⟩
  obtain ⟨built, hbuilt, hstate, hcount⟩ := hends
  obtain ⟨hnext, hhalted, hstays, hcycles⟩ := lifecycle_liveAll hbuilt operations
  exact ⟨built, hbuilt, hstate, hcount, hcycles.trans hcount, hnext, hhalted.2 ⟨_, hstate⟩,
    (hstays _ hstate).1⟩

end MicroCisc.Processor
