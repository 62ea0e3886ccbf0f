import Mathlib.Algebra.Group.Nat.Defs
import Mathlib.Data.List.Infix
import MicroCisc.Proofs.Processor.Trajectory

namespace MicroCisc

namespace Instruction

-- A copy of any source onto the stack below a pointer register.
structure PushesOnto (instr : Instruction) (pointer : Register) : Prop where
  alu : instr.alu = .copy
  destination : instr.destinationOperand = .memory pointer
  offset : instr.offset = 0
  increment : instr.increment = true

-- A copy of the top of that stack to another register.
structure PopsInto (instr : Instruction) (pointer into : Register) : Prop where
  alu : instr.alu = .copy
  source : instr.sourceOperand = .memory pointer
  immediate : instr.immediate = 0
  increment : instr.increment = true
  destination : instr.destinationOperand = .register into
  ne : into ≠ pointer

variable {instr : Instruction} {pointer into : Register}

theorem PushesOnto.isPush (h : instr.PushesOnto pointer) : instr.isPush = true := by
  simp [isPush_eq, h.increment, h.destination, Operand.isMemory]

theorem PopsInto.isPop (h : instr.PopsInto pointer into) : instr.isPop = true := by
  simp [isPop_eq, h.increment, h.source, h.destination, Operand.isMemory]

end Instruction

-- What a stack sees: a word comes, or one goes.
inductive StackEvent where
  | push (value : Word)
  | pop (value : Word)
  deriving DecidableEq, Repr

namespace StackEvent

def isPush : StackEvent → Bool
  | .push _ => true
  | .pop _ => false

-- The stack after some events, the top first, if each pop among them takes the word that is on top.
def replay? : List StackEvent → List Word → Option (List Word)
  | [], stack => some stack
  | .push value :: rest, stack => replay? rest (value :: stack)
  | .pop value :: rest, top :: stack => if value = top then replay? rest stack else none
  | .pop _ :: _, [] => none

def pushes (events : List StackEvent) : Nat :=
  events.countP (·.isPush)

def pops (events : List StackEvent) : Nat :=
  events.countP (!·.isPush)

-- From a stack of `depth` words, no event pops an empty stack, and there are never more than `room`
-- words on it.
def Fits (room depth : Nat) (events : List StackEvent) : Prop :=
  ∀ earlier, earlier <+: events →
    pops earlier ≤ depth + pushes earlier ∧ depth + pushes earlier ≤ pops earlier + room

variable {events : List StackEvent} {value : Word} {room depth : Nat}

@[simp] theorem pushes_push : pushes (.push value :: events) = pushes events + 1 := by
  simp [pushes, isPush]

@[simp] theorem pushes_pop : pushes (.pop value :: events) = pushes events := by
  simp [pushes, isPush]

@[simp] theorem pops_push : pops (.push value :: events) = pops events := by
  simp [pops, isPush]

@[simp] theorem pops_pop : pops (.pop value :: events) = pops events + 1 := by
  simp [pops, isPush]

theorem Fits.push (h : Fits room depth (.push value :: events)) :
    depth < room ∧ Fits room (depth + 1) events := by
  constructor
  · have hfirst := h [.push value] (List.prefix_append [_] events)
    simp only [pushes_push, pops_push] at hfirst
    simp [pushes, pops] at hfirst
    omega
  · intro earlier hearlier
    have hlonger := h (.push value :: earlier) (List.cons_prefix_cons.2 ⟨rfl, hearlier⟩)
    simp only [pushes_push, pops_push] at hlonger
    omega

theorem Fits.pop (h : Fits room depth (.pop value :: events)) :
    ∃ below, depth = below + 1 ∧ Fits room below events := by
  have hfirst := h [.pop value] (List.prefix_append [_] events)
  simp only [pushes_pop, pops_pop] at hfirst
  simp [pushes, pops] at hfirst
  refine ⟨depth - 1, by omega, fun earlier hearlier => ?_⟩
  have hlonger := h (.pop value :: earlier) (List.cons_prefix_cons.2 ⟨rfl, hearlier⟩)
  simp only [pushes_pop, pops_pop] at hlonger
  omega

theorem length_of_replay? {stack final : List Word} (h : replay? events stack = some final) :
    pops events + final.length = stack.length + pushes events := by
  fun_induction replay? events stack with
  | case1 stack =>
    cases h
    exact Nat.add_comm _ _
  | case2 stack value rest ih =>
    have hrest := ih h
    simp only [pushes_push, pops_push, List.length_cons] at hrest ⊢
    omega
  | case3 value rest stack ih =>
    have hrest := ih h
    simp only [pushes_pop, pops_pop, List.length_cons] at hrest ⊢
    omega
  | case4 => cases h
  | case5 => cases h

end StackEvent

namespace Word

variable (address : Word) (n : Nat)

theorem sub_one_add_ofNat_succ : address - 1 + .ofNat (n + 1) = address + .ofNat n := by
  rw [UInt16.ofNat_add]
  grind

theorem sub_ofNat_succ : address - .ofNat (n + 1) = address - .ofNat n - 1 := by
  rw [UInt16.ofNat_add]
  grind

end Word

namespace Memory

variable {memory : Memory} {w : Nat}

-- Addresses wrap modulo 2^16, and so modulo the size of the memory.
theorem index_add_ofNat (hw : w ≤ 16) (hsize : memory.size = 2 ^ w) (address : Word) (n : Nat) :
    memory.index (address + .ofNat n) = (address.toNat + n) % 2 ^ w := by
  have hdvd : 2 ^ w ∣ 2 ^ 16 := Nat.pow_dvd_pow 2 hw
  rw [index, hsize, UInt16.toNat_add, UInt16.toNat_ofNat', Nat.mod_mod_of_dvd _ hdvd, Nat.add_mod,
    Nat.mod_mod_of_dvd _ hdvd, ← Nat.add_mod]

-- Addresses that are less than the size of the memory apart do not fall on the same word.
theorem index_add_ofNat_ne (hw : w ≤ 16) (hsize : memory.size = 2 ^ w) (address : Word) {n : Nat}
    (hpos : 0 < n) (hlt : n < 2 ^ w) :
    memory.index (address + .ofNat n) ≠ memory.index address := by
  intro hsame
  rw [index_add_ofNat hw hsize, index, hsize] at hsame
  have hmod := Nat.sub_mod_eq_zero_of_mod_eq hsame
  rw [Nat.add_sub_cancel_left, Nat.mod_eq_of_lt hlt] at hmod
  exact Nat.ne_of_gt hpos hmod

end Memory

namespace Processor

variable {cpu : Processor} {instr : Instruction} {pointer into : Register} {w : Nat}

/-! ### One push, one pop -/

theorem value_result_copy (h : instr.alu = .copy) :
    (cpu.result instr).value = cpu.sourceValue instr := by
  rw [result, h]
  rfl

theorem execute_push (hpushes : instr.PushesOnto pointer) (hcommits : cpu.commits instr = true) :
    (cpu.execute instr).memory =
        cpu.memory.write (cpu.regs.get pointer - 1) (cpu.sourceValue instr) ∧
      (cpu.execute instr).regs.get pointer = cpu.regs.get pointer - 1 := by
  have htarget : (cpu.computed instr).storeAddress instr pointer = cpu.regs.get pointer - 1 := by
    have haddress : (cpu.regs.get pointer + instr.displacement) - 1 = cpu.regs.get pointer - 1 := by
      rw [Instruction.displacement, hpushes.offset]
      exact congrArg (· - 1) (UInt16.add_zero _)
    rw [storeAddress, hpushes.isPush]
    exact haddress
  have hexecute : cpu.execute instr =
      ((cpu.computed instr).mapRegs fun regs => regs.set pointer (regs.get pointer - 1)).mapDevice
        (·.writeLocal (cpu.regs.get pointer - 1) (cpu.sourceValue instr)) := by
    rw [execute_eq, if_pos hcommits, pop_of_isMemory (by rw [hpushes.destination]; rfl),
      value_result_copy hpushes.alu, store, hpushes.destination]
    simp only [htarget, push, hpushes.isPush, if_true]
  rw [hexecute]
  refine ⟨rfl, ?_⟩
  exact (Registers.get_set _ pointer pointer _).trans (if_pos rfl)

theorem execute_pop (hpops : instr.PopsInto pointer into) (hcommits : cpu.commits instr = true) :
    (cpu.execute instr).memory = cpu.memory ∧
      (cpu.execute instr).regs.get into = cpu.memory.read (cpu.regs.get pointer) ∧
      (cpu.execute instr).regs.get pointer = cpu.regs.get pointer + 1 := by
  have hvalue : cpu.sourceValue instr = cpu.memory.read (cpu.regs.get pointer) := by
    rw [sourceValue, hpops.source, hpops.immediate]
    exact congrArg cpu.memory.read (UInt16.add_zero _)
  have hexecute : cpu.execute instr =
      ((cpu.computed instr).mapRegs fun regs => regs.set pointer (regs.get pointer + 1)).mapRegs
        (·.set into (cpu.memory.read (cpu.regs.get pointer))) := by
    rw [execute_eq, if_pos hcommits, value_result_copy hpops.alu, hvalue, store, hpops.destination,
      pop, hpops.isPop, hpops.source]
    rfl
  rw [hexecute]
  refine ⟨rfl, (Registers.get_set _ into into _).trans (if_pos rfl), ?_⟩
  refine (Registers.get_set _ into pointer _).trans ((if_neg hpops.ne.symm).trans ?_)
  exact (Registers.get_set _ pointer pointer _).trans (if_pos rfl)

theorem memory_advance : cpu.advance.memory = (cpu.execute cpu.current).memory := by
  obtain ⟨f, hretire⟩ := (cpu.execute cpu.current).retire_eq_mapRegs
  rw [advance, hretire]
  rfl

theorem get_advance (r : Register) :
    cpu.advance.regs.get r = (cpu.execute cpu.current).regs.get r := by
  have hretire : (cpu.execute cpu.current).retire.regs.get r =
      (cpu.execute cpu.current).regs.get r := by
    unfold retire
    split <;> rfl
  exact hretire

/-! ### What lies on a stack -/

-- The words of a stack lie from the pointer on, the top first. The pointer was at the bottom when
-- the stack was empty.
structure StackAt (cpu : Processor) (pointer : Register) (bottom : Word) (stack : List Word) :
    Prop where
  pointer_eq : cpu.regs.get pointer = bottom - .ofNat stack.length
  read_eq : ∀ i (hi : i < stack.length),
    cpu.memory.read (cpu.regs.get pointer + .ofNat i) = stack[i]

theorem stackAt_nil (cpu : Processor) (pointer : Register) :
    cpu.StackAt pointer (cpu.regs.get pointer) [] :=
  ⟨(UInt16.sub_zero _).symm, fun _ hi => absurd hi (Nat.not_lt_zero _)⟩

variable {bottom value : Word} {stack : List Word} {after : Processor}

theorem StackAt.push (h : cpu.StackAt pointer bottom stack) (hw : w ≤ 16)
    (hsize : cpu.memory.size = 2 ^ w) (hroom : stack.length < 2 ^ w)
    (hrom : cpu.memory.romEnd ≤ cpu.memory.index (cpu.regs.get pointer - 1))
    (hmemory : after.memory = cpu.memory.write (cpu.regs.get pointer - 1) value)
    (hpointer : after.regs.get pointer = cpu.regs.get pointer - 1) :
    after.StackAt pointer bottom (value :: stack) := by
  have hpos : 0 < cpu.memory.size := hsize ▸ Nat.two_pow_pos w
  constructor
  · rw [hpointer, h.pointer_eq, List.length_cons, Word.sub_ofNat_succ]
  · intro i hi
    rw [hmemory, hpointer, Memory.read_write _ hpos]
    cases i with
    | zero =>
      have htop : cpu.regs.get pointer - 1 + .ofNat 0 = cpu.regs.get pointer - 1 :=
        UInt16.add_zero _
      rw [htop, if_pos ⟨hrom, rfl⟩]
      rfl
    | succ i =>
      have hbelow : i < stack.length := Nat.lt_of_succ_lt_succ hi
      have hapart := Memory.index_add_ofNat_ne hw hsize (cpu.regs.get pointer - 1) (Nat.succ_pos i)
        (Nat.lt_of_le_of_lt hbelow hroom)
      rw [if_neg fun hsame => hapart hsame.2, Word.sub_one_add_ofNat_succ, h.read_eq i hbelow]
      rfl

theorem StackAt.pop (h : cpu.StackAt pointer bottom (value :: stack))
    (hmemory : after.memory = cpu.memory)
    (hpointer : after.regs.get pointer = cpu.regs.get pointer + 1) :
    after.StackAt pointer bottom stack := by
  constructor
  · rw [hpointer, h.pointer_eq, List.length_cons, Word.sub_ofNat_succ, UInt16.sub_add_cancel]
  · intro i hi
    have hread := h.read_eq (i + 1) (Nat.succ_lt_succ hi)
    rw [← Word.sub_one_add_ofNat_succ, hmemory, hpointer, UInt16.add_sub_cancel]
    exact hread

-- The top of a stack is where its pointer points.
theorem StackAt.top (h : cpu.StackAt pointer bottom (value :: stack)) :
    cpu.memory.read (cpu.regs.get pointer) = value := by
  have hread := h.read_eq 0 (Nat.succ_pos _)
  have htop : cpu.regs.get pointer + .ofNat 0 = cpu.regs.get pointer := UInt16.add_zero _
  rw [htop] at hread
  exact hread

/-! ### Runs -/

-- Copies onto a stack and off it, executed one after another, and what they move. Each of them
-- commits, and none stores in the ROM.
inductive StackRun (pointer : Register) : List StackEvent → Processor → Processor → Prop
  | refl (cpu : Processor) : StackRun pointer [] cpu cpu
  | push {cpu between after : Processor} {instr : Instruction} {events : List StackEvent}
      (hstep : cpu.step = .ok (instr, between)) (hpushes : instr.PushesOnto pointer)
      (hcommits : cpu.commits instr = true)
      (hrom : cpu.memory.romEnd ≤ cpu.memory.index (cpu.regs.get pointer - 1))
      (hrest : StackRun pointer events between after) :
      StackRun pointer (.push (cpu.sourceValue instr) :: events) cpu after
  | pop {cpu between after : Processor} {instr : Instruction} {into : Register}
      {events : List StackEvent}
      (hstep : cpu.step = .ok (instr, between)) (hpops : instr.PopsInto pointer into)
      (hcommits : cpu.commits instr = true)
      (hrest : StackRun pointer events between after) :
      StackRun pointer (.pop (between.regs.get into) :: events) cpu after

theorem step_push (hstep : cpu.step = .ok (instr, after)) (hpushes : instr.PushesOnto pointer)
    (hcommits : cpu.commits instr = true) :
    after.memory = cpu.memory.write (cpu.regs.get pointer - 1) (cpu.sourceValue instr) ∧
      after.regs.get pointer = cpu.regs.get pointer - 1 := by
  obtain ⟨rfl, -⟩ := of_step_eq_ok hstep
  obtain ⟨-, rfl⟩ := of_step_eq_ok_advance hstep
  rw [memory_advance, get_advance]
  exact execute_push hpushes hcommits

theorem step_pop (hstep : cpu.step = .ok (instr, after)) (hpops : instr.PopsInto pointer into)
    (hcommits : cpu.commits instr = true) :
    after.memory = cpu.memory ∧
      after.regs.get into = cpu.memory.read (cpu.regs.get pointer) ∧
      after.regs.get pointer = cpu.regs.get pointer + 1 := by
  obtain ⟨rfl, -⟩ := of_step_eq_ok hstep
  obtain ⟨-, rfl⟩ := of_step_eq_ok_advance hstep
  rw [memory_advance, get_advance, get_advance]
  exact execute_pop hpops hcommits

-- The induction is on the run, for any stack that it starts from.
theorem StackRun.stackAt {events : List StackEvent} (hrun : StackRun pointer events cpu after)
    (h : cpu.StackAt pointer bottom stack) (hw : w ≤ 16) (hsize : cpu.memory.size = 2 ^ w)
    (hfits : StackEvent.Fits (2 ^ w) stack.length events) :
    ∃ final, StackEvent.replay? events stack = some final ∧ after.StackAt pointer bottom final := by
  induction hrun generalizing stack with
  | refl cpu => exact ⟨stack, rfl, h⟩
  | push hstep hpushes hcommits hrom _ ih =>
    obtain ⟨hmemory, hpointer⟩ := step_push hstep hpushes hcommits
    obtain ⟨hroom, hrest⟩ := hfits.push
    exact ih (h.push hw hsize hroom hrom hmemory hpointer)
      (by rw [hmemory, Memory.size_write, hsize]) hrest
  | pop hstep hpops hcommits _ ih =>
    obtain ⟨hmemory, hinto, hpointer⟩ := step_pop hstep hpops hcommits
    obtain ⟨below, hbelow, hrest⟩ := hfits.pop
    cases stack with
    | nil => cases hbelow
    | cons top stack =>
      have htop := hinto.trans h.top
      obtain rfl : stack.length = below := Nat.succ.inj hbelow
      obtain ⟨final, hreplay, hfinal⟩ := ih (h.pop hmemory hpointer) (by rw [hmemory, hsize]) hrest
      exact ⟨final, by rw [StackEvent.replay?, if_pos htop, hreplay], hfinal⟩

-- What is popped is what was pushed, last in, first out, and the pointer lies as far below its
-- first value as there are words on the stack. The beginnings of a run are runs too, so this holds
-- all along. Pushes may even overwrite instructions: a run consists of those that are there when it
-- gets to them.
theorem StackRun.last_in_first_out {events : List StackEvent} (hw : w ≤ 16)
    (hsize : cpu.memory.size = 2 ^ w) (hrun : StackRun pointer events cpu after)
    (hfits : ∀ earlier, earlier <+: events →
      StackEvent.pops earlier ≤ StackEvent.pushes earlier ∧
        StackEvent.pushes earlier ≤ StackEvent.pops earlier + 2 ^ w) :
    ∃ stack, StackEvent.replay? events [] = some stack ∧
      StackEvent.pops events + stack.length = StackEvent.pushes events ∧
      after.regs.get pointer = cpu.regs.get pointer - .ofNat stack.length := by
  have hroom : StackEvent.Fits (2 ^ w) 0 events := by
    simpa only [StackEvent.Fits, Nat.zero_add] using hfits
  obtain ⟨stack, hreplay, hstack⟩ := hrun.stackAt (cpu.stackAt_nil pointer) hw hsize hroom
  have hlength := StackEvent.length_of_replay? hreplay
  exact ⟨stack, hreplay, hlength.trans (Nat.zero_add _), hstack.pointer_eq⟩

-- Two pushes and a pop from a ROM, with a pointer that starts at 0.
theorem StackRun.last_in_first_out_wrapped :
    let rom : List Word := [0x41C0, 5, 0x41C0, 9, 0x1DC0, 0]
    let cpu : Processor :=
      { device := ⟨1, .initial, ⟨8, ⟨rom ++ .replicate 250 0⟩, 6⟩, .initial, false⟩
        bus := [], state := .running, cycles := 0, nanosPerInstruction := 100, last := none }
    let events : List StackEvent := [.push 5, .push 9, .pop 9]
    ∃ after, cpu.memory.size = 2 ^ 8 ∧ StackRun .r1 events cpu after ∧
      (∀ earlier, earlier <+: events →
        StackEvent.pops earlier ≤ StackEvent.pushes earlier ∧
          StackEvent.pushes earlier ≤ StackEvent.pops earlier + 2 ^ 8) ∧
      StackEvent.replay? events [] = some [5] ∧ after.regs.get .r1 = 0xFFFF := by
  intro rom cpu events
  have hsize : cpu.memory.size = 2 ^ 8 := by decide +kernel
  have hrun : StackRun .r1
      [.push (cpu.sourceValue cpu.current), .push (cpu.advance.sourceValue cpu.advance.current),
        .pop (cpu.advance.advance.advance.regs.get .r4)]
      cpu cpu.advance.advance.advance := by
    refine .push (step_of_isRunning rfl) ?_ (by decide +kernel) (by decide +kernel)
      (.push (step_of_isRunning (by decide +kernel)) ?_ (by decide +kernel) (by decide +kernel)
        (.pop (step_of_isRunning (by decide +kernel)) ?_ (by decide +kernel) (.refl _)))
    · constructor <;> decide +kernel
    · constructor <;> decide +kernel
    · constructor <;> decide +kernel
  have hevents : [.push (cpu.sourceValue cpu.current),
      .push (cpu.advance.sourceValue cpu.advance.current),
      .pop (cpu.advance.advance.advance.regs.get .r4)] = events := by
    decide +kernel
  rw [hevents] at hrun
  have hfits : ∀ earlier, earlier <+: events →
      StackEvent.pops earlier ≤ StackEvent.pushes earlier ∧
        StackEvent.pushes earlier ≤ StackEvent.pops earlier + 2 ^ 8 := by
    intro earlier hearlier
    rw [← List.mem_inits] at hearlier
    revert earlier
    decide
  obtain ⟨stack, hreplay, -, hpointer⟩ := hrun.last_in_first_out (by decide) hsize hfits
  obtain rfl : [5] = stack := Option.some.inj hreplay
  exact ⟨_, hsize, hrun, hfits, hreplay, hpointer⟩

end Processor

end MicroCisc
