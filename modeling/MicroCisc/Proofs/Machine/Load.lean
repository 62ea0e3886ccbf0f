import MicroCisc.Machine
import MicroCisc.Proofs.Memory.BootRom

namespace MicroCisc

namespace Memory

variable (memory : Memory) (program : List Word)

theorem snd_loadProgram :
    (memory.loadProgram program).2 =
      if program.length ≤ memory.size then none
      else some (.programTooLarge program.length memory.size) := by
  rw [loadProgram]
  split <;> rfl

-- A ROM does not fit where a program does not.
theorem snd_loadRom : (memory.loadRom program).2 = (memory.loadProgram program).2 := by
  have hload : (({ memory with romEnd := 0 } : Memory).loadProgram program).2 =
      (memory.loadProgram program).2 := by
    rw [snd_loadProgram, snd_loadProgram]
    rfl
  rw [← hload, loadRom]
  split
  · next hfits => rw [hfits]
  · rfl

end Memory

namespace Machine

-- What a load makes of the memory of the processor.
def loaded (machine : Machine) (program : Program) : Memory.LoadResult :=
  if machine.rom then machine.cpu.memory.loadRom program.words
  else machine.cpu.memory.loadProgram program.words

-- The processor after a load, before its pc is set.
def loadedCpu (machine : Machine) (program : Program) : Processor :=
  machine.cpu.mapDevice fun device => { device with memory := (machine.loaded program).1 }

theorem fst_loaded (machine : Machine) (program : Program) :
    ∃ event, (machine.loaded program).1 = machine.cpu.memory.perform event := by
  unfold loaded
  split
  · exact ⟨.loadRom program.words, rfl⟩
  · exact ⟨.loadProgram program.words, rfl⟩

theorem snd_loaded (machine : Machine) (program : Program) :
    (machine.loaded program).2 =
      if program.words.length ≤ machine.cpu.memory.size then none
      else some (.programTooLarge program.words.length machine.cpu.memory.size) := by
  unfold loaded
  split
  · rw [Memory.snd_loadRom, Memory.snd_loadProgram]
  · rw [Memory.snd_loadProgram]

theorem load_eq (machine : Machine) (program : Program) :
    machine.load program =
      if program.words.length ≤ machine.cpu.memory.size then
        ({ machine with cpu := (machine.loadedCpu program).setPc machine.startPc }, none)
      else
        ({ machine with cpu := machine.loadedCpu program },
          some (.programTooLarge program.words.length machine.cpu.memory.size)) := by
  have hload : machine.load program =
      ({ machine with
          cpu :=
            if (machine.loaded program).2.isNone then
              (machine.loadedCpu program).setPc machine.startPc
            else machine.loadedCpu program },
        (machine.loaded program).2) :=
    rfl
  rw [hload, snd_loaded]
  split <;> rfl

end Machine

end MicroCisc
