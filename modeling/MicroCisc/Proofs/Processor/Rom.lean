import MicroCisc.Proofs.Device.Rom
import MicroCisc.Proofs.Processor.CommitFrame

namespace MicroCisc.Processor

-- An instruction, or something that the host does to the processor or to a device of its tree.
inductive Event where
  | step
  | act (path : List UInt8) (action : HostAction)
  | raiseInterrupt (pointer : Word)
  | reset
  | resume

-- A processor that has halted does not step.
def handle (cpu : Processor) : Event → Processor
  | .step =>
      match cpu.step with
      | .ok (_, after) => after
      | .error _ => cpu
  | .act path action => { cpu with toBusMaster := cpu.toBusMaster.actAt action path }
  | .raiseInterrupt pointer => cpu.raiseInterrupt pointer
  | .reset => cpu.reset
  | .resume => cpu.resume

def handleAll (cpu : Processor) (events : List Event) : Processor :=
  events.foldl handle cpu

variable (cpu : Processor)

theorem bootRegion_execute (instr : Instruction) :
    (cpu.execute instr).memory.bootRegion = cpu.memory.bootRegion := by
  have hframe : cpu.CommitFrame instr (cpu.execute instr) := by
    rw [execute_eq]
    split
    · exact commitFrame_store
    · exact commitFrame_computed
  rcases hframe.memory with heq | ⟨pointer, -, hrom, heq⟩
  · rw [heq]
  · have hwrite : (cpu.execute instr).memory =
        cpu.memory.write (cpu.target instr pointer) (cpu.result instr).value :=
      heq.trans (if_pos hrom).symm
    rw [hwrite, Memory.bootRegion_write]

theorem pointwise_busAfter_sameRoms (instr : Instruction) :
    Bus.Pointwise (fun _ => DeviceTree.SameRoms) cpu.bus (cpu.busAfter instr) := by
  have hreads := cpu.bus.pointwise_afterReads_sameRoms cpu.id (cpu.readAddresses instr)
  unfold busAfter
  split
  · next address value _ =>
    exact hreads.trans (fun _ _ _ _ => .trans)
      (Bus.pointwise_afterWrite_sameRoms cpu.id _ address value)
  · exact hreads

theorem sameRoms_advance : cpu.toBusMaster.SameRoms cpu.advance.toBusMaster := by
  have hmemory := cpu.bootRegion_execute cpu.current
  have hexecute := cpu.pointwise_busAfter_sameRoms cpu.current
  rw [← bus_execute] at hexecute
  have hbus := hexecute.trans (fun _ _ _ _ => .trans)
    (Bus.pointwise_tick_sameRoms _ (cpu.execute cpu.current).nanosPerInstruction)
  obtain ⟨f, hretire⟩ := (cpu.execute cpu.current).retire_eq_mapRegs
  rw [advance, hretire]
  exact ⟨hmemory, hbus⟩

theorem sameRoms_handle (event : Event) :
    cpu.toBusMaster.SameRoms (cpu.handle event).toBusMaster := by
  have hself := BusMaster.SameRoms.refl cpu.toBusMaster
  have hresume : cpu.toBusMaster.SameRoms cpu.resume.toBusMaster := by
    unfold resume
    split
    · exact hself
    · exact ⟨rfl, hself.below⟩
  cases event with
  | step =>
    simp only [handle, step]
    by_cases hrun : cpu.isRunning = true
    · simp only [hrun, if_true]
      exact cpu.sameRoms_advance
    · rw [if_neg hrun]
      exact hself
  | act path action => exact BusMaster.sameRoms_actAt action path cpu.toBusMaster
  | raiseInterrupt pointer => exact ⟨rfl, hself.below⟩
  | reset => exact ⟨rfl, hself.below⟩
  | resume => exact hresume

theorem sameRoms_handleAll (events : List Event) :
    cpu.toBusMaster.SameRoms (cpu.handleAll events).toBusMaster := by
  induction events generalizing cpu with
  | nil => exact .refl _
  | cons event rest ih => exact (cpu.sameRoms_handle event).trans (ih (cpu.handle event))

-- Whatever a processor executes and its host does, in the memory of the processor and in that of every
-- device below it the boundary of the ROM stays and the words below it do, at all the addresses that
-- reach them.
theorem rom_handleAll {cpu : Processor} {path : List UInt8} {before : Memory}
    (h : cpu.memoryAt? path = some before) (events : List Event) :
    ∃ after, (cpu.handleAll events).memoryAt? path = some after ∧ after.size = before.size ∧
      after.romEnd = before.romEnd ∧ (∀ i < before.romEnd, after.words[i]? = before.words[i]?) ∧
      ∀ address, before.index address < before.romEnd →
        after.read address = before.read address := by
  have hregion := (cpu.sameRoms_handleAll events).bootRegion_memoryAt? path
  rw [h, Option.map_some, Option.map_eq_some_iff] at hregion
  obtain ⟨after, hafter, hsame⟩ := hregion
  exact ⟨after, hafter, Memory.size_eq_of_bootRegion_eq hsame,
    Memory.romEnd_eq_of_bootRegion_eq hsame, fun i => Memory.getElem?_eq_of_bootRegion_eq hsame,
    fun address => Memory.read_eq_of_bootRegion_eq hsame⟩

-- A device with a ROM of one word below a processor that runs, under writes that wrap to the ROMs of
-- both.
theorem rom_handleAll_wrapped :
    let memory (word : Word) : Memory := ⟨8, #[word] ++ .replicate 255 0, 1⟩
    let below : DeviceTree := .leaf ⟨2, .memory, memory 7, .initial, true⟩
    let cpu : Processor :=
      { device := ⟨1, .initial, memory 0x41C0, .initial, false⟩, bus := [(16, below)]
        state := .running, cycles := 0, nanosPerInstruction := 100, last := none }
    let events : List Event :=
      [.step, .act [] (.writeLocal 0x0100 9), .act [16] (.writeLocal 0x0300 9), .reset, .step]
    cpu.memoryAt? [16] = some (memory 7) ∧ (memory 7).index 0x0300 < (memory 7).romEnd ∧
      ∃ after, (cpu.handleAll events).memoryAt? [16] = some after ∧
        after.read 0x0300 = (memory 7).read 0x0300 := by
  intro memory below cpu events
  have hmemory : cpu.memoryAt? [16] = some (memory 7) := rfl
  have hindex : (memory 7).index 0x0300 < (memory 7).romEnd := by
    simp [memory, Memory.index, Memory.size]
  obtain ⟨after, hafter, _, _, _, hread⟩ := rom_handleAll hmemory events
  exact ⟨hmemory, hindex, after, hafter, hread 0x0300 hindex⟩

end MicroCisc.Processor
