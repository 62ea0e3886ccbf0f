import MicroCisc.Proofs.Processor.CommitFrame
import MicroCisc.Proofs.Processor.Stack

namespace MicroCisc

namespace Instruction

-- An instruction with an increment from a word of memory, the processor's own or one on the bus, to
-- what is no word of memory.
structure PopsThrough (instr : Instruction) (pointer : Register) : Prop where
  increment : instr.increment = true
  source : instr.sourceOperand = .memory pointer ∨ instr.sourceOperand = .bus pointer
  destination : instr.destinationOperand.isMemory = false

variable {instr : Instruction} {pointer : Register}

theorem PopsThrough.isPop (h : instr.PopsThrough pointer) : instr.isPop = true := by
  rw [isPop_eq, h.increment, h.destination]
  rcases h.source with hmemory | hbus
  · rw [hmemory]
    rfl
  · rw [hbus]
    rfl

theorem PopsThrough.register? (h : instr.PopsThrough pointer) :
    instr.sourceOperand.register? = some pointer := by
  rcases h.source with hmemory | hbus
  · rw [hmemory]
    rfl
  · rw [hbus]
    rfl

end Instruction

namespace Processor

variable {cpu : Processor} {instr : Instruction} {pointer : Register}

theorem get_pop (h : instr.PopsThrough pointer) (cpu : Processor) (r : Register) :
    (cpu.pop instr).regs.get r =
      if r = pointer then cpu.regs.get r + 1 else cpu.regs.get r := by
  rw [pop, if_pos h.isPop, h.register?]
  exact cpu.regs.get_set_apply (· + 1) pointer r

-- A store in what is no word of memory changes no general register but its destination.
theorem get_store (h : instr.destinationOperand.isMemory = false) (cpu : Processor) (value : Word)
    (r : Register) :
    (cpu.store instr value).regs.get r =
      if instr.destinationOperand = .register r then value else cpu.regs.get r := by
  unfold store
  cases hdestination : instr.destinationOperand with
  | pc =>
    simp only [reduceCtorEq, if_false]
    split <;> rfl
  | register into =>
    simp only [Operand.register.injEq, eq_comm (a := into)]
    exact cpu.regs.get_set into r value
  | flags | interrupt | immediate => exact (if_neg nofun).symm
  | memory other | bus other =>
    rw [hdestination] at h
    cases h

theorem get_execute_of_popsThrough (h : instr.PopsThrough pointer) (r : Register) :
    (cpu.execute instr).regs.get r =
      if cpu.commits instr = false then cpu.regs.get r
      else if instr.destinationOperand = .register r then (cpu.result instr).value
      else if r = pointer then cpu.regs.get r + 1
      else cpu.regs.get r := by
  rw [execute_eq]
  cases cpu.commits instr with
  | false => rfl
  | true =>
    simp only [if_true, Bool.true_eq_false, if_false, get_store h.destination, get_pop h]
    rfl

-- A pop that commits has raised its pointer register afterwards exactly if the result does not go
-- there, or is the raised value itself. One that does not commit leaves all general registers alone.
theorem registers_after_pop (hrun : cpu.isRunning = true) (h : cpu.current.PopsThrough pointer) :
    let instr := cpu.current
    ∃ after, cpu.step = .ok (instr, after) ∧
      (∀ r, after.regs.get r =
        if cpu.commits instr = false then cpu.regs.get r
        else if instr.destinationOperand = .register r then (cpu.result instr).value
        else if r = pointer then cpu.regs.get r + 1
        else cpu.regs.get r) ∧
      (cpu.commits instr = true →
        (after.regs.get pointer = cpu.regs.get pointer + 1 ↔
          (instr.destinationOperand = .register pointer →
            (cpu.result instr).value = cpu.regs.get pointer + 1))) := by
  intro instr
  have hregisters (r : Register) : cpu.advance.regs.get r =
      if cpu.commits instr = false then cpu.regs.get r
      else if instr.destinationOperand = .register r then (cpu.result instr).value
      else if r = pointer then cpu.regs.get r + 1
      else cpu.regs.get r := by
    rw [get_advance]
    exact get_execute_of_popsThrough h r
  refine ⟨cpu.advance, step_of_isRunning hrun, hregisters, fun hcommits => ?_⟩
  simp only [hregisters, hcommits, Bool.true_eq_false, if_true, if_false]
  split
  · next hinto => exact ⟨fun hvalue _ => hvalue, fun hvalue => hvalue hinto⟩
  · next hinto => exact iff_of_true rfl fun hpointer => absurd hpointer hinto

-- A pop through r1 into r2 takes the word at the last address, and r1 wraps to 0.
theorem registers_after_pop_wrapped :
    let cpu : Processor :=
      { device :=
          ⟨1, Registers.initial.set .r1 0xFFFF, ⟨8, ⟨[0x16C0, 0] ++ .replicate 254 7⟩, 0⟩, .initial,
            false⟩
        bus := [], state := .running, cycles := 0, nanosPerInstruction := 100, last := none }
    cpu.isRunning = true ∧ cpu.current.PopsThrough .r1 ∧
      ∃ after, cpu.step = .ok (cpu.current, after) ∧ after.regs.get .r1 = 0 ∧
        after.regs.get .r2 = 7 := by
  intro cpu
  have hpops : cpu.current.PopsThrough .r1 := by
    constructor
    · decide +kernel
    · exact .inl (by decide +kernel)
    · decide +kernel
  have hrun : cpu.isRunning = true := rfl
  obtain ⟨after, hstep, hregisters, -⟩ := registers_after_pop hrun hpops
  refine ⟨hrun, hpops, after, hstep, ?_, ?_⟩
  · rw [hregisters]
    decide +kernel
  · rw [hregisters]
    decide +kernel

-- A pop through r1 into r1 leaves the word there, not the raised pointer.
theorem pop_into_pointer_not_raised :
    ¬∀ (cpu after : Processor) (pointer : Register), cpu.isRunning = true →
      cpu.current.PopsThrough pointer → cpu.commits cpu.current = true →
      cpu.step = .ok (cpu.current, after) →
      after.regs.get pointer = cpu.regs.get pointer + 1 := by
  intro h
  let cpu : Processor :=
    { device :=
        ⟨1, Registers.initial.set .r1 2, ⟨8, ⟨[0x15C0, 0, 0x1234] ++ .replicate 253 0⟩, 0⟩, .initial,
          false⟩
      bus := [], state := .running, cycles := 0, nanosPerInstruction := 100, last := none }
  have hpops : cpu.current.PopsThrough .r1 := by
    constructor
    · decide +kernel
    · exact .inl (by decide +kernel)
    · decide +kernel
  have hraised := h cpu cpu.advance .r1 rfl hpops (by decide +kernel) (step_of_isRunning rfl)
  exact absurd hraised (by decide +kernel)

end Processor

end MicroCisc
