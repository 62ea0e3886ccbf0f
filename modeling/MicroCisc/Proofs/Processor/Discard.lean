import MicroCisc.Device.ChaCha
import MicroCisc.Proofs.Processor.Execute

namespace MicroCisc

-- The first byte that waits is gone if one is ready, and else a byte has been drawn from the filler.
def SerialLine.AfterByte (line after : SerialLine) : Prop :=
  match line.ready, line.inbound.toList with
  | ready + 1, _ :: rest =>
      after.inbound.toList = rest ∧ after = { line with ready, inbound := after.inbound }
  | _, _ => after = { line with ready := 0, filler := line.filler.next.2 }

theorem SerialLine.afterByte_receive (line : SerialLine) : line.AfterByte line.receive.2 := by
  have hpop := line.inbound.toList_pop?
  unfold AfterByte receive
  cases hready : line.ready with
  | zero => rfl
  | succ ready =>
    cases hlist : line.inbound.toList with
    | nil =>
      rw [hlist, if_pos rfl, Option.map_eq_none_iff] at hpop
      simp only [hpop]
      rfl
    | cons byte rest =>
      rw [hlist, if_neg (List.cons_ne_nil byte rest), Option.map_eq_some_iff] at hpop
      obtain ⟨⟨first, inbound⟩, hfirst, heq⟩ := hpop
      simp only [hfirst]
      exact ⟨(List.cons.inj heq).2, trivial⟩

namespace Processor

-- The registers, the memory, the control words and the run state of the processor stay as they were
-- but for the pc, the flags and the overflow register. On the bus, a serial line whose slot 10 was
-- read by a controller has received a byte. Then time passes there.
theorem step_of_not_commits {cpu : Processor} (hrun : cpu.isRunning = true)
    (hnext : cpu.regs.next = cpu.regs.pc + 2) (hdiscard : cpu.commits cpu.current = false) :
    cpu.step = .ok (cpu.current,
      { device := { cpu.device with
          kind := { cpu.regs with
            pc := cpu.regs.pc + 2
            next := cpu.regs.pc + 2 + 2
            flags := (cpu.result cpu.current).flags
            overflow := (cpu.result cpu.current).overflow } }
        bus := Bus.tick cpu.nanosPerInstruction
          (cpu.bus.afterReads cpu.id (cpu.readAddresses cpu.current))
        state := .running
        cycles := cpu.cycles + 1
        nanosPerInstruction := cpu.nanosPerInstruction
        last := some cpu.current }) ∧
    (cpu.current.alu = .copy →
      (cpu.result cpu.current).flags = cpu.regs.flags ∧
        (cpu.result cpu.current).overflow = cpu.regs.overflow) ∧
    ∀ line : SerialLine, line.AfterByte line.receive.2 := by
  have hexecute : cpu.execute cpu.current = cpu.computed cpu.current := by
    rw [execute_eq, hdiscard]
    rfl
  have hstate : cpu.state = .running := by
    rwa [isRunning, beq_iff_eq] at hrun
  have hretire : (cpu.computed cpu.current).retire =
      (cpu.computed cpu.current).mapRegs (·.retire) :=
    if_pos hrun
  refine ⟨?_, ?_, SerialLine.afterByte_receive⟩
  · rw [step_eq hrun, hexecute, hretire, ← hstate, ← hnext]
    rfl
  · intro hcopy
    simp only [result, hcopy]
    exact ⟨rfl, rfl⟩

-- A discarded push from a serial line: the byte is gone, but r1 and the memory are as they were.
theorem step_of_not_commits_serial :
    let line : SerialLine :=
      { SerialLine.ofBaud 9600 (.fixed 0) with inbound := .ofList [65, 66], ready := 2 }
    let cpu : Processor :=
      { device :=
          ⟨1, Registers.initial.set .r4 0x010A, ⟨8, #[0x91B0, 0, 5, 6] ++ .replicate 252 0, 0⟩,
            .initial, false⟩
        bus := [(16, .leaf ⟨2, .serial line, ⟨0, #[], 0⟩, { Control.initial with owner := 1 }, true⟩)]
        state := .running, cycles := 7, nanosPerInstruction := 100, last := none }
    cpu.isRunning = true ∧ cpu.regs.next = cpu.regs.pc + 2 ∧ cpu.commits cpu.current = false ∧
      cpu.current.isPush = true ∧
      cpu.bus.afterReads cpu.id (cpu.readAddresses cpu.current) =
        [(16, .leaf ⟨2, .serial line.receive.2, ⟨0, #[], 0⟩,
          { Control.initial with owner := 1 }, true⟩)] ∧
      ∃ after, cpu.step = .ok (cpu.current, after) ∧ after.memory = cpu.memory ∧
        after.regs.get .r1 = cpu.regs.get .r1 := by
  intro line cpu
  have hdiscard : cpu.commits cpu.current = false := by
    simp only [cpu, line]
    decide +kernel
  have haddresses : cpu.readAddresses cpu.current = [0x010A] := by
    simp only [cpu, line]
    decide +kernel
  have hbus : cpu.bus.afterReads cpu.id (cpu.readAddresses cpu.current) =
      [(16, .leaf ⟨2, .serial line.receive.2, ⟨0, #[], 0⟩,
        { Control.initial with owner := 1 }, true⟩)] := by
    rw [haddresses]
    rfl
  have hpush : cpu.current.isPush = true := by
    simp only [cpu, line]
    decide +kernel
  exact ⟨rfl, rfl, hdiscard, hpush, hbus, _, (step_of_not_commits rfl rfl hdiscard).1, rfl, rfl⟩

end Processor

end MicroCisc
