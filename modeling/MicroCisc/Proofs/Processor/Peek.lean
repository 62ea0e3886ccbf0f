import MicroCisc.Device.ChaCha
import MicroCisc.Proofs.Device.Peek
import MicroCisc.Proofs.Processor.Reachable

namespace MicroCisc.Processor

-- Would a read of the operand draw a byte from a generator?
def drawsRandom (cpu : Processor) (operand : Operand) (displacement : Word) : Bool :=
  (operand.busAddress? cpu.regs displacement).any cpu.toBusMaster.drawsRandom

variable {cpu : Processor}

theorem peek_eq_consume (h : cpu.bus.EveryKind Kind.Occurs) {operand : Operand}
    {displacement : Word} (hread : cpu.drawsRandom operand displacement = false) :
    (cpu.readOperand operand displacement .peek).1 =
      (cpu.readOperand operand displacement .consume).1 := by
  cases operand with
  | bus pointer => exact BusMaster.peek_eq_consume h hread
  | pc | memory pointer | register r | immediate | flags | interrupt => rfl

theorem peek_of_drawsRandom {operand : Operand} {displacement : Word}
    (hread : cpu.drawsRandom operand displacement = true) :
    (cpu.readOperand operand displacement .peek).1 = 0 := by
  cases operand with
  | bus pointer => exact BusMaster.peek_of_drawsRandom hread
  | pc | memory pointer | register r | immediate | flags | interrupt => cases hread

-- A peek is no more than a look at the state.
theorem operate_peek (cpu : Processor) (code : UInt8) : cpu.operate (.peek code) = cpu :=
  cpu.snd_readOperand_peek (.ofSourceCode code) 0

theorem undergo_of_isPeek {action : Action} (h : action.isPeek = true) : cpu.undergo action = cpu := by
  cases action with
  | operate operation =>
    cases operation with
    | peek code => exact cpu.operate_peek code
    | step | run | runLimited | resume | reset | raiseInterrupt | load | connect | setPc => cases h
  | setPace | setDevice | act | feed | drain | take | replace => cases h

theorem undergoAll_filter (cpu : Processor) (actions : List Action) :
    cpu.undergoAll (actions.filter fun action => !action.isPeek) = cpu.undergoAll actions := by
  induction actions generalizing cpu with
  | nil => rfl
  | cons action rest ih =>
    show _ = (cpu.undergo action).undergoAll rest
    cases hpeek : action.isPeek with
    | true =>
      rw [List.filter_cons_of_neg (by simp [hpeek]), ih, undergo_of_isPeek hpeek]
    | false =>
      rw [List.filter_cons_of_pos (by simp [hpeek])]
      exact ih (cpu.undergo action)

theorem sourceOperand_eq_of_code {instr : Instruction} {code : UInt8}
    (h : instr.source &&& 0xF = code &&& 0xF) : instr.sourceOperand = .ofSourceCode code := by
  rw [Instruction.sourceOperand, Operand.ofSourceCode, Operand.ofSourceCode, h]

-- A peek leaves the processor and all devices as they are, and whatever happens later happens alike without
-- the peeks. Unless the read would draw a byte from a generator, where a peek shows 0, the value is the one
-- that any instruction with this source code and no immediate would load.
theorem peek_foretells (h : cpu.Reachable) (code : UInt8) :
    cpu.operate (.peek code) = cpu ∧
      (∀ later : List Action,
        cpu.undergoAll (later.filter fun action => !action.isPeek) = cpu.undergoAll later) ∧
      (cpu.drawsRandom (.ofSourceCode code) 0 = false →
        ∀ instr : Instruction, instr.source &&& 0xF = code &&& 0xF → instr.immediate = 0 →
          cpu.sourceValue instr = cpu.peek code) ∧
      (cpu.drawsRandom (.ofSourceCode code) 0 = true → cpu.peek code = 0) := by
  refine ⟨cpu.operate_peek code, cpu.undergoAll_filter, ?_, peek_of_drawsRandom⟩
  intro hread instr hcode himmediate
  rw [sourceValue, sourceOperand_eq_of_code hcode, himmediate]
  exact (peek_eq_consume h.occurs hread).symm

-- A byte for a serial line with a generator. Before it has arrived a peek shows 0, and then the byte, however
-- often one peeks.
theorem peek_foretells_arrived :
    let line : DeviceTree :=
      .leaf ⟨2, .serial (.ofBaud 9600 (.seeded 1)), ⟨0, #[], 0⟩, .initial, true⟩
    let actions : List Action :=
      [.operate (.connect 16 line), .act [] (.writeBus 0x0102 1), .act [] (.writeBus 0x000C 0x010A),
        .feed [16] [65]]
    let instr : Instruction := ⟨9, 5, false, .always, .copy, 0, 0⟩
    ∃ built, ofWidth 1 8 = .ok built ∧
      let waiting := built.undergoAll actions
      let cpu := waiting.undergo (.act [16] (.tick 2000000))
      waiting.Reachable ∧ waiting.drawsRandom (.ofSourceCode 9) 0 = true ∧ waiting.peek 9 = 0 ∧
        cpu.Reachable ∧ cpu.drawsRandom (.ofSourceCode 9) 0 = false ∧ cpu.peek 9 = 65 ∧
        cpu.operate (.peek 9) = cpu ∧
        cpu.undergoAll [.operate .step] =
          cpu.undergoAll [.operate (.peek 9), .operate .step, .operate (.peek 9)] ∧
        cpu.sourceValue instr = cpu.peek 9 := by
  intro line actions instr
  have hshows : ∃ built, ofWidth 1 8 = .ok built ∧
      let waiting := built.undergoAll actions
      let cpu := waiting.undergo (.act [16] (.tick 2000000))
      waiting.drawsRandom (.ofSourceCode 9) 0 = true ∧
        cpu.drawsRandom (.ofSourceCode 9) 0 = false ∧ cpu.peek 9 = 65 :=
    ⟨_, rfl, by decide +kernel⟩
  obtain ⟨built, hbuilt, hrandom, harrived, hpeek⟩ := hshows
  have hline : line.EveryKind Kind.Occurs := ⟨.new 9600 (.seeded 1), trivial⟩
  have hsound : ∀ action ∈ actions, action.IsSound := by
    simp [actions, Action.IsSound, hline]
  have hwaiting := (Reachable.new hbuilt).undergoAll hsound
  have hcpu := hwaiting.undergo (show (Action.act [16] (.tick 2000000)).IsSound from trivial)
  obtain ⟨-, -, -, hzero⟩ := peek_foretells hwaiting 9
  obtain ⟨hsame, hlater, hforetells, -⟩ := peek_foretells hcpu 9
  exact ⟨built, hbuilt, hwaiting, hrandom, hzero hrandom, hcpu, harrived, hpeek, hsame,
    hlater [.operate (.peek 9), .operate .step, .operate (.peek 9)],
    hforetells harrived instr rfl rfl⟩

end MicroCisc.Processor
