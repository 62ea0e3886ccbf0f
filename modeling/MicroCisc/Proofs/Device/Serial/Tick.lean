import Mathlib.Logic.Function.Iterate
import MicroCisc.Device.ChaCha
import MicroCisc.Proofs.Faults.Time

namespace MicroCisc.SerialLine

variable {line : SerialLine}

-- A line keeps the rate that it is built with.
theorem Occurs.isRate (h : line.Occurs) : IsRate line.baud := by
  induction h with
  | new baud fill => exact ⟨baud, rfl⟩
  | feed _ bytes ih => exact ih
  | drain _ ih => exact ih
  | @read line _ slot access ih =>
    rw [snd_readSlot]
    split
    · rwa [line.steady_receive.1]
    · exact ih
  | @write line _ slot value ih => rwa [(line.steady_writeSlot slot value).1]
  | @tick line _ nanos ih =>
    obtain ⟨ready, free, hpass⟩ := passPeriods_eq ((line.elapsed + nanos) / line.bytePeriod)
      { line with elapsed := (line.elapsed + nanos) % line.bytePeriod }
    rw [SerialLine.tick, hpass]
    exact ih

-- One byte period passes, and is taken off the time that has gone by.
def takePeriod (line : SerialLine) : SerialLine :=
  { line.passPeriod with elapsed := line.elapsed - line.bytePeriod }

theorem iterate_takePeriod (n : Nat) (line : SerialLine) :
    takePeriod^[n] line =
      passPeriods n { line with elapsed := line.elapsed - n * line.bytePeriod } := by
  induction n generalizing line with
  | zero =>
    rw [Nat.zero_mul, Nat.sub_zero]
    rfl
  | succ n ih =>
    have helapsed : line.elapsed - (n + 1) * line.bytePeriod =
        line.elapsed - line.bytePeriod - n * line.bytePeriod := by
      rw [Nat.sub_sub, Nat.succ_mul, Nat.add_comm line.bytePeriod]
    rw [Function.iterate_succ_apply, ih, passPeriods_succ, helapsed]
    rfl

-- A tick that goes through all the periods of the time, and takes each of them off.
theorem iterate_takePeriod_eq_tick (line : SerialLine) (nanos : Nat) :
    takePeriod^[line.periodsIn nanos] { line with elapsed := line.elapsed + nanos } =
      line.tick nanos := by
  have hrest : line.elapsed + nanos - line.periodsIn nanos * line.bytePeriod =
      (line.elapsed + nanos) % line.bytePeriod := by
    rw [Nat.mod_eq_sub_mul_div, Nat.mul_comm, periodsIn]
  rw [iterate_takePeriod, SerialLine.tick, ← hrest]
  rfl

-- At no rate does a byte take less than two nanoseconds. A line in any state that it can come to ends a
-- tick with the time that makes up no whole period, with as many bytes arrived and places free as there
-- were periods for, and with all else as it was. The loop that gives up once both directions are full
-- ends there, within as many rounds as there are periods, and so does going through every period.
theorem tick_closed_form [Generator] (h : line.Occurs) {nanos : Nat} (hnanos : line.elapsed + nanos < 2 ^ 64) :
    let period := line.bytePeriod
    let k := (line.elapsed + nanos) / period
    let begun := { line with elapsed := line.elapsed + nanos }
    let ended :=
      { line with
        elapsed := (line.elapsed + nanos) % period
        ready := min 2 (min line.pending (line.ready + k))
        free := min 2 (line.free + k) }
    (∀ baud fill, 2 ≤ (ofBaud baud fill).bytePeriod) ∧ 2 ≤ period ∧
      line.tick nanos = ended ∧
      line.checkedTick nanos = pure ended ∧
      (∀ fuel, k < fuel → checkedPeriods period fuel begun = pure ended) ∧
      takePeriod^[k] begun = ended := by
  intro period k begun ended
  have hrate := h.isRate
  have hended : line.tick nanos = ended := by
    rw [h.bounded.tick_eq, Nat.min_assoc]
    rfl
  refine ⟨fun baud fill => IsRate.two_le_period ⟨baud, rfl⟩, hrate.two_le_period, hended, ?_,
    fun fuel hfuel => ?_, ?_⟩
  · rw [line.checkedTick_eq hrate hnanos, hended]
  · rw [← hended]
    exact checkedPeriods_eq begun hrate.period_pos hfuel
  · rw [← hended]
    exact line.iterate_takePeriod_eq_tick nanos

-- Four periods pass on a line that sends a byte and has three bytes to receive. The loop gives up in
-- its second round.
theorem tick_closed_form_gives_up :
    let line := ((ofBaud 9600 (.fixed 0)).writeSlot 8 97).feed [65, 66, 67]
    let ended := { line with elapsed := 833336, ready := 2, free := 2 }
    line.Occurs ∧ line.elapsed + 5000000 < 2 ^ 64 ∧
      (line.elapsed + 5000000) / line.bytePeriod = 4 ∧
      line.tick 5000000 = ended ∧ line.checkedTick 5000000 = pure ended ∧
      checkedPeriods line.bytePeriod 2 { line with elapsed := 5000000 } = pure ended := by
  intro line ended
  have hline : line.Occurs := ((SerialLine.Occurs.new 9600 (.fixed 0)).write 8 97).feed [65, 66, 67]
  have hnanos : line.elapsed + 5000000 < 2 ^ 64 := by decide
  have htick : line.tick 5000000 = ended := by cbv
  obtain ⟨-, -, hclosed, hchecked, -, -⟩ := tick_closed_form hline hnanos
  rw [← hclosed, htick] at hchecked
  exact ⟨hline, hnanos, by decide, htick, hchecked, by cbv⟩

end MicroCisc.SerialLine
