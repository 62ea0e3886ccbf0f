import MicroCisc.Device.ChaCha
import MicroCisc.Proofs.Device.Serial.Traffic

namespace MicroCisc.SerialLine

theorem size_outbound_transmit (line : SerialLine) (byte : UInt8) :
    (line.transmit byte).outbound.size + (line.transmit byte).free =
      line.outbound.size + line.free + if line.overruns 8 then 1 else 0 := by
  unfold transmit overruns
  by_cases hfree : line.free = 0
  · by_cases houtbound : line.outbound = #[]
    · simp [hfree, houtbound]
    · have hsize : line.outbound.size ≠ 0 := by simpa using houtbound
      simp only [hfree, houtbound, beq_self_eq_true, if_true, Bool.true_and, Array.size_push,
        Array.size_pop, Array.isEmpty_iff, if_false, Nat.add_zero]
      omega
  · simp only [hfree, beq_iff_eq, if_false, Array.size_push, beq_self_eq_true, Bool.true_and,
      Bool.and_eq_true, false_and]
    omega

theorem size_outbound_writeSlot (line : SerialLine) (slot : Slot) (value : Word) :
    (line.writeSlot slot value).outbound.size + (line.writeSlot slot value).free =
      line.outbound.size + line.free + if line.overruns slot then 1 else 0 := by
  by_cases hslot : slot = 8
  · subst hslot
    exact line.size_outbound_transmit value.low
  · have hno : line.overruns slot = false := by simp [overruns, hslot]
    rw [writeSlot_of_ne hslot, hno]
    rfl

namespace Traffic

variable {first : SerialLine} {traffic : Traffic}

-- The bytes that have gone into the queue for the host, drained or not.
def sent (traffic : Traffic) : Nat :=
  traffic.drained.length + traffic.line.outbound.size

-- The bytes sent and the places free never come to more than the places there were, the periods
-- that have passed, and the bytes pushed out without a place.
def WithinPace (traffic : Traffic) : Prop :=
  traffic.sent + traffic.line.free ≤ depth + traffic.periods + traffic.overrun

theorem Paced.withinPace_perform (hpaced : traffic.Paced first) (h : traffic.WithinPace)
    (event : Event) : (traffic.perform event).WithinPace := by
  unfold WithinPace sent at h ⊢
  cases event with
  | feed bytes => exact h
  | drain =>
    have hdrained : (traffic.perform .drain).drained.length =
        traffic.drained.length + traffic.line.outbound.size := List.length_append
    have hline : (traffic.perform .drain).line = { traffic.line with outbound := #[] } := rfl
    rw [hdrained, hline]
    exact h
  | read slot access =>
    have hline : (traffic.perform (.read slot access)).line =
        (traffic.line.readSlot slot access).2 := rfl
    rw [snd_readSlot] at hline
    split at hline
    · obtain ⟨inbound, ready, filler, hreceive⟩ := traffic.line.receive_eq
      rw [periods, hline, hreceive]
      exact h
    · rw [periods, hline]
      exact h
  | write slot value =>
    have hsize := traffic.line.size_outbound_writeSlot slot value
    have hline : (traffic.perform (.write slot value)).line =
        traffic.line.writeSlot slot value := rfl
    have hoverrun : (traffic.perform (.write slot value)).overrun =
        if traffic.line.overruns slot then traffic.overrun + 1 else traffic.overrun := rfl
    have hdrained : (traffic.perform (.write slot value)).drained = traffic.drained := rfl
    have hperiods : (traffic.perform (.write slot value)).periods = traffic.periods := by
      obtain ⟨outbound, free, hwrite, -⟩ := traffic.line.writeSlot_eq slot value
      rw [periods, periods, hline, hwrite]
      rfl
    rw [hline, hoverrun, hdrained, hperiods]
    cases hcase : traffic.line.overruns slot with
    | false =>
      rw [hcase] at hsize
      simp only [Bool.false_eq_true, if_false] at hsize ⊢
      omega
    | true =>
      rw [hcase] at hsize
      simp only [if_true] at hsize ⊢
      omega
  | tick nanos =>
    have hline : (traffic.perform (.tick nanos)).line = traffic.line.tick nanos := rfl
    have hoverrun : (traffic.perform (.tick nanos)).overrun = traffic.overrun := rfl
    have hdrained : (traffic.perform (.tick nanos)).drained = traffic.drained := rfl
    rw [hpaced.periods_tick, hline, hoverrun, hdrained, hpaced.bounded.tick_eq]
    show _ + traffic.line.outbound.size + min depth (traffic.line.free + _) ≤ _
    omega

-- Whatever the device, the host and the clock do to a line: it sends no more than two bytes and one
-- a byte period, but for the bytes written to a busy line after the host had drained the last one.
theorem sent_le [Generator] (baud : UInt32) (fill : Fill) (events : List Event) :
    let traffic := (start baud fill).performAll events
    traffic.drained.length + traffic.line.outbound.size ≤
      2 + traffic.ticked / (ofBaud baud fill).bytePeriod + traffic.overrun := by
  intro traffic
  obtain ⟨hpaced, hwithin⟩ : traffic.Paced (.ofBaud baud fill) ∧ traffic.WithinPace := by
    apply performAll_induction (motive := fun traffic =>
      traffic.Paced (.ofBaud baud fill) ∧ traffic.WithinPace)
    · exact ⟨paced_start baud fill, Nat.le_add_right _ _⟩
    · intro traffic event h
      exact ⟨h.1.perform event, h.1.withinPace_perform h.2 event⟩
  have hperiod : traffic.line.bytePeriod = (ofBaud baud fill).bytePeriod := by
    rw [bytePeriod, bytePeriod, hpaced.baud]
  rw [← hperiod]
  exact Nat.le_trans (Nat.le_add_right _ _) hwithin

-- Drained after each byte, a line sends four bytes although no time passes.
theorem sent_not_le :
    ¬∀ (baud : UInt32) (fill : Fill) (events : List Event),
      let traffic := (start baud fill).performAll events
      traffic.drained.length + traffic.line.outbound.size ≤
        2 + traffic.ticked / (ofBaud baud fill).bytePeriod := by
  intro h
  have hsent := h 9600 (.fixed 0) [.write 8 97, .write 8 98, .drain, .write 8 99, .drain,
    .write 8 100, .drain]
  exact absurd hsent (by decide)

end Traffic

end MicroCisc.SerialLine
