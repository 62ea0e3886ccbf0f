import MicroCisc.Proofs.Device.Time
import MicroCisc.Proofs.Faults.Basic

namespace MicroCisc.SerialLine

-- A rate that a line can have: it is built with the one that is asked for, or else with 10 baud.
def IsRate (baud : Nat) : Prop :=
  ∃ asked : UInt32, baud = max asked.toNat 10

def checkedPeriod (line : SerialLine) : Checked Nat :=
  Checked.divide 1000000000 (line.baud / 10)

def checkedReceive (line : SerialLine) : Checked (UInt8 × SerialLine) :=
  if line.ready = 0 then return line.receiveFiller
  else match line.inbound.pop? with
    | some (byte, inbound) => do
        let ready ← Checked.subtract line.ready 1
        return (byte, { line with ready, inbound })
    | none => return line.receiveFiller

def checkedTransmit (line : SerialLine) (byte : UInt8) : Checked SerialLine :=
  if line.free = 0 then return { line with outbound := line.outbound.pop.push byte }
  else do
    let free ← Checked.subtract line.free 1
    return { line with free, outbound := line.outbound.push byte }

def checkedReadSlot (line : SerialLine) (slot : Slot) (access : Access) :
    Checked (Word × SerialLine) :=
  match slot, access with
  | 10, .consume => do
      let (byte, line) ← line.checkedReceive
      return (byte.toUInt16, line)
  | slot, access => return line.readSlot slot access

def checkedWriteSlot (line : SerialLine) (slot : Slot) (value : Word) : Checked SerialLine :=
  match slot with
  | 8 => line.checkedTransmit value.low
  | _ => return line

-- Counts one more, if there is one more to count.
def checkedCount (count : Nat) (more : Bool) : Checked Nat :=
  if more then Checked.natural 16 (count + 1) else return count

def checkedPass (line : SerialLine) : Checked SerialLine := do
  let ready ← checkedCount line.ready (line.ready < depth && line.ready < line.pending)
  let free ← checkedCount line.free (line.free < depth)
  return { line with ready, free }

-- One byte period after the other, as long as the time lasts and there are bytes to move. `fuel` bounds
-- the number of periods.
def checkedPeriods (period : Nat) : Nat → SerialLine → Checked SerialLine
  | 0, _ => throw .endless
  | fuel + 1, line =>
      if line.elapsed < period then return line
      else do
        let elapsed ← Checked.subtract line.elapsed period
        let line ← { line with elapsed }.checkedPass
        if line.ready = depth ∧ line.free = depth then
          let elapsed ← Checked.remainder line.elapsed period
          return { line with elapsed }
        else checkedPeriods period fuel line

def checkedTick (line : SerialLine) (nanos : Nat) : Checked SerialLine := do
  let period ← line.checkedPeriod
  let elapsed ← Checked.natural 64 (line.elapsed + nanos)
  checkedPeriods period (elapsed + 1) { line with elapsed }

variable (line : SerialLine)

theorem checkedReceive_eq : line.checkedReceive = pure line.receive := by
  unfold checkedReceive receive
  cases line.ready with
  | zero => rfl
  | succ ready =>
    cases line.inbound.pop? with
    | none => rfl
    | some popped => rfl

theorem checkedTransmit_eq (byte : UInt8) :
    line.checkedTransmit byte = pure (line.transmit byte) := by
  unfold checkedTransmit transmit
  by_cases hfree : line.free = 0
  · simp [hfree]
  · rw [if_neg hfree, Checked.subtract_ok (by omega), pure_bind]
    simp [hfree]

theorem checkedReadSlot_eq (slot : Slot) (access : Access) :
    line.checkedReadSlot slot access = pure (line.readSlot slot access) := by
  unfold checkedReadSlot
  split
  · rw [checkedReceive_eq, pure_bind]
    rfl
  · rfl

theorem checkedWriteSlot_eq (slot : Slot) (value : Word) :
    line.checkedWriteSlot slot value = pure (line.writeSlot slot value) := by
  unfold checkedWriteSlot writeSlot
  split
  · exact line.checkedTransmit_eq value.low
  · simp_all

/-! ### Time -/

theorem IsRate.div_ten_pos {baud : Nat} (h : IsRate baud) : 0 < baud / 10 := by
  obtain ⟨asked, rfl⟩ := h
  omega

-- A byte takes two nanoseconds at the least, and no more than a second.
theorem IsRate.two_le_period {baud : Nat} (h : IsRate baud) : 2 ≤ 1000000000 / (baud / 10) := by
  have hrate := h.div_ten_pos
  obtain ⟨asked, rfl⟩ := h
  have hasked := asked.toNat_lt
  rw [Nat.le_div_iff_mul_le hrate]
  omega

theorem IsRate.period_pos {baud : Nat} (h : IsRate baud) : 0 < 1000000000 / (baud / 10) :=
  Nat.lt_of_lt_of_le Nat.zero_lt_two h.two_le_period

theorem period_le (baud : Nat) : 1000000000 / (baud / 10) ≤ 1000000000 :=
  Nat.div_le_self _ _

theorem checkedPeriod_eq (h : IsRate line.baud) : line.checkedPeriod = pure line.bytePeriod :=
  Checked.divide_ok (Nat.ne_of_gt h.div_ten_pos)

-- A line that is slower than any can be.
example : checkedPeriod { ofBaud 9600 (.fixed 0) with baud := 9 } = throw .divisionByZero := rfl

theorem checkedPass_eq : line.checkedPass = pure line.passPeriod := by
  have hready : checkedCount line.ready (line.ready < depth && line.ready < line.pending) =
      pure line.passPeriod.ready := by
    simp only [checkedCount, passPeriod, Nat.lt_min, Bool.and_eq_true, decide_eq_true_eq]
    split
    · next hcount => exact Checked.natural_ok (by unfold depth at hcount; omega)
    · rfl
  have hfree : checkedCount line.free (line.free < depth) = pure line.passPeriod.free := by
    simp only [checkedCount, passPeriod, decide_eq_true_eq]
    split
    · next hcount => exact Checked.natural_ok (by unfold depth at hcount; omega)
    · rfl
  rw [checkedPass, hready, pure_bind, hfree, pure_bind]
  rfl

theorem isSettled_of_eq_depth {line : SerialLine} (hready : line.ready = depth)
    (hfree : line.free = depth) : line.isSettled = true := by
  have hpending : min depth line.pending ≤ line.ready := hready ▸ Nat.min_le_left _ _
  simp only [isSettled, Bool.and_eq_true, decide_eq_true_eq]
  exact ⟨Nat.le_of_eq hfree.symm, hpending⟩

-- The loop gives up on a line that has settled, as nothing more can move. It needs no more fuel than
-- there are periods, and one more to see that the time is up.
theorem checkedPeriods_eq {period : Nat} (hperiod : 0 < period) {fuel : Nat}
    (hfuel : line.elapsed / period < fuel) :
    checkedPeriods period fuel line =
      pure (passPeriods (line.elapsed / period)
        { line with elapsed := line.elapsed % period }) := by
  induction fuel generalizing line with
  | zero => exact absurd hfuel (Nat.not_lt_zero _)
  | succ fuel ih =>
    rw [checkedPeriods]
    by_cases helapsed : line.elapsed < period
    · rw [if_pos helapsed, Nat.div_eq_of_lt helapsed, Nat.mod_eq_of_lt helapsed]
      rfl
    · have hle : period ≤ line.elapsed := Nat.le_of_not_lt helapsed
      have hless : (line.elapsed - period) / period < fuel := by
        rw [Nat.div_eq_sub_div hperiod hle] at hfuel
        omega
      rw [if_neg helapsed, Checked.subtract_ok hle, pure_bind, checkedPass_eq, pure_bind,
        Nat.div_eq_sub_div hperiod hle, Nat.mod_eq_sub_mod hle, passPeriods_succ]
      generalize line.elapsed - period = elapsed at hless
      split
      · next hdepth =>
        have hsettled : isSettled { line with elapsed := elapsed % period }.passPeriod = true :=
          isSettled_of_eq_depth hdepth.1 hdepth.2
        rw [passPeriods_of_isSettled hsettled, Checked.remainder_ok (Nat.ne_of_gt hperiod)]
        rfl
      · exact ih { line with elapsed }.passPeriod hless

-- Time that can be counted passes on a line of any rate.
theorem checkedTick_eq {nanos : Nat} (hrate : IsRate line.baud)
    (hnanos : line.elapsed + nanos < 2 ^ 64) : line.checkedTick nanos = pure (line.tick nanos) := by
  rw [checkedTick, line.checkedPeriod_eq hrate, pure_bind, Checked.natural_ok hnanos, pure_bind]
  exact checkedPeriods_eq { line with elapsed := line.elapsed + nanos } hrate.period_pos
    (Nat.lt_succ_of_le (Nat.div_le_self _ _))

end MicroCisc.SerialLine
