import MicroCisc.Device.ChaCha
import MicroCisc.Proofs.Device.Serial.Traffic

namespace MicroCisc.SerialLine

theorem Bounded.toNat_readyCount {line : SerialLine} (h : line.Bounded) :
    line.readyCount.toNat = line.ready := by
  have hready : line.ready ≤ 2 := Nat.le_trans h.ready (Nat.min_le_left _ _)
  have hcount : line.readyCount = UInt8.ofNat line.ready := Word.low_ofBytes _ _
  rw [hcount, UInt8.toNat_ofNat']
  omega

theorem Bounded.readyCount_eq_zero_iff {line : SerialLine} (h : line.Bounded) :
    line.readyCount = 0 ↔ line.ready = 0 := by
  rw [← h.toNat_readyCount, ← UInt8.toNat_inj, UInt8.toNat_zero]

-- A look at slot 10 shows the byte that has arrived, which a read would yield.
theorem Bounded.fst_readSlot_peek_of_ready {line : SerialLine} (h : line.Bounded) {ready : Nat}
    (hready : line.ready = ready + 1) :
    (line.readSlot 10 .peek).1 = (line.readSlot 10 .consume).1 := by
  obtain ⟨first, rest, hlist, hreceive⟩ := h.receive_of_ready hready
  have hhead : line.inbound.head? = some first := by
    rw [← ByteQueue.head?_toList, hlist, List.head?_cons]
  show line.peek.toUInt16 = line.receive.1.toUInt16
  simp only [peek, hready, hreceive, hhead]
  rfl

theorem Bounded.fst_readSlot_peek {line : SerialLine} (h : line.Bounded) {byte : UInt8}
    (hfiller : line.filler = .fixed byte) :
    (line.readSlot 10 .peek).1 = (line.readSlot 10 .consume).1 := by
  cases hready : line.ready with
  | zero =>
    show line.peek.toUInt16 = line.receive.1.toUInt16
    rw [receive_of_not_ready hfiller hready]
    simp only [peek, hready, hfiller]
    rfl
  | succ ready => exact h.fst_readSlot_peek_of_ready hready

namespace Traffic

variable {first : SerialLine} {traffic : Traffic}

theorem perform_receive (h : traffic.line.Bounded) {ready : Nat}
    (hready : traffic.line.ready = ready + 1) :
    ∃ byte rest, traffic.line.inbound.toList = byte :: rest.toList ∧
      traffic.perform (.read 10 .consume) =
        { traffic with
          line := { traffic.line with ready, inbound := rest }
          received := traffic.received ++ [byte.toUInt16] } := by
  obtain ⟨byte, rest, hlist, hreceive⟩ := h.receive_of_ready hready
  have hcount : (traffic.line.readyCount != 0) = true := by
    rw [bne_iff_ne, Ne, h.readyCount_eq_zero_iff, hready]
    exact Nat.succ_ne_zero ready
  have hread : traffic.line.readSlot 10 .consume =
      (byte.toUInt16, { traffic.line with ready, inbound := rest }) := by
    simp only [readSlot, hreceive]
  refine ⟨byte, rest, hlist, ?_⟩
  simp only [perform, hread, hcount]
  rfl

theorem perform_receive_of_not_ready (h : traffic.line.Bounded) {byte : UInt8}
    (hfiller : traffic.line.filler = .fixed byte) (hready : traffic.line.ready = 0) :
    traffic.perform (.read 10 .consume) = traffic := by
  have hcount : (traffic.line.readyCount != 0) = false := by
    rw [bne_eq_false_iff_eq, h.readyCount_eq_zero_iff]
    exact hready
  have hread : traffic.line.readSlot 10 .consume = (byte.toUInt16, traffic.line) := by
    simp only [readSlot, receive_of_not_ready hfiller hready]
  simp only [perform, hread, hcount, Bool.and_false]
  rfl

-- What an event other than a read of slot 10 leaves of the bytes on their way to the device.
structure Untouched (before after : Traffic) : Prop where
  filler : after.line.filler = before.line.filler
  received : after.received = before.received
  ready : before.line.ready ≤ after.line.ready
  arrived : after.line.ready + before.periods ≤ before.line.ready + after.periods
  fed : ∃ more, after.fed = before.fed ++ more ∧
    after.line.inbound.toList = before.line.inbound.toList ++ more

theorem Paced.untouched_perform (h : traffic.Paced first) {event : Event}
    (hevent : event.isReceive = false) : traffic.Untouched (traffic.perform event) := by
  cases event with
  | feed bytes =>
    exact ⟨rfl, rfl, Nat.le_refl _, Nat.le_refl _, bytes, rfl, ByteQueue.toList_append _ _⟩
  | drain =>
    exact ⟨rfl, rfl, Nat.le_refl _, Nat.le_refl _, [], (List.append_nil _).symm,
      (List.append_nil _).symm⟩
  | read slot access =>
    have hline : (traffic.line.readSlot slot access).2 = traffic.line := by
      rw [snd_readSlot, if_neg]
      simpa [Event.isReceive] using hevent
    have hsame : traffic.perform (.read slot access) = traffic := by
      simp only [Traffic.perform, hline, hevent, Bool.false_and]
      rfl
    rw [hsame]
    exact ⟨rfl, rfl, Nat.le_refl _, Nat.le_refl _, [], by simp⟩
  | write slot value =>
    obtain ⟨outbound, free, hwrite, -⟩ := traffic.line.writeSlot_eq slot value
    have hline : (traffic.perform (.write slot value)).line =
        { traffic.line with outbound, free } := hwrite
    have hperiods : (traffic.perform (.write slot value)).periods = traffic.periods := by
      rw [periods, periods, hline]
      rfl
    refine ⟨?_, rfl, Nat.le_of_eq ?_, Nat.le_of_eq ?_, [], ?_⟩
    · rw [hline]
    · rw [hline]
    · rw [hperiods, hline]
    · rw [hline]
      exact ⟨(List.append_nil _).symm, (List.append_nil _).symm⟩
  | tick nanos =>
    have hline : (traffic.perform (.tick nanos)).line = traffic.line.tick nanos := rfl
    have htick := h.bounded.tick_eq nanos
    have hready := h.bounded.ready
    refine ⟨?_, rfl, ?_, ?_, [], ?_⟩
    · rw [hline, htick]
    · rw [hline, htick]
      show traffic.line.ready ≤ min _ (traffic.line.ready + _)
      omega
    · rw [h.periods_tick, hline, htick]
      show min _ (traffic.line.ready + _) + _ ≤ _
      omega
    · rw [hline, htick]
      exact ⟨(List.append_nil _).symm, (List.append_nil _).symm⟩

-- Everything fed has been received or waits, and no byte came faster than the line moves them.
structure Accounted (byte : UInt8) (traffic : Traffic) : Prop where
  filler : traffic.line.filler = .fixed byte
  fed : traffic.fed.map UInt8.toUInt16 =
    traffic.received ++ traffic.line.inbound.toList.map UInt8.toUInt16
  received : traffic.received.length + traffic.line.ready ≤ traffic.periods

theorem accounted_start [Generator] (baud : UInt32) (byte : UInt8) :
    (start baud (.fixed byte)).Accounted byte :=
  ⟨rfl, rfl, Nat.zero_le _⟩

theorem Event.eq_of_isReceive {event : Event} (h : event.isReceive = true) :
    event = .read 10 .consume := by
  cases event with
  | read slot access =>
    simp only [Event.isReceive, Bool.and_eq_true, beq_iff_eq] at h
    rw [h.1, h.2]
  | feed bytes | drain | write slot value | tick nanos => cases h

theorem Accounted.perform {byte : UInt8} (h : traffic.Accounted byte)
    (hpaced : traffic.Paced first) (event : Event) : (traffic.perform event).Accounted byte := by
  cases hevent : event.isReceive with
  | false =>
    have hkept := hpaced.untouched_perform hevent
    obtain ⟨more, hfed, hinbound⟩ := hkept.fed
    refine ⟨hkept.filler.trans h.filler, ?_, ?_⟩
    · rw [hfed, hinbound, hkept.received, List.map_append, List.map_append, h.fed, List.append_assoc]
    · have harrived := hkept.arrived
      have hbefore := h.received
      rw [hkept.received]
      omega
  | true =>
    rw [Event.eq_of_isReceive hevent]
    cases hready : traffic.line.ready with
    | zero =>
      rw [perform_receive_of_not_ready hpaced.bounded h.filler hready]
      exact h
    | succ ready =>
      obtain ⟨next, rest, hlist, hreceive⟩ := perform_receive hpaced.bounded hready
      have hfed := h.fed
      have hbefore := h.received
      rw [hlist, List.map_cons] at hfed
      rw [hready] at hbefore
      rw [hreceive]
      refine ⟨h.filler, ?_, ?_⟩
      · simpa using hfed
      · show (traffic.received ++ [next.toUInt16]).length + ready ≤ traffic.periods
        rw [List.length_append, List.length_singleton]
        omega

-- As many reads as bytes have arrived yield the first bytes that wait, whatever happens between
-- them. The induction is on the events: what has arrived and is not read by then stays arrived.
theorem Paced.received_performAll (h : traffic.Paced first) {events : List Event}
    (hevents : events.countP Event.isReceive ≤ traffic.line.ready) :
    (traffic.performAll events).received = traffic.received ++
      (traffic.line.inbound.toList.take (events.countP Event.isReceive)).map UInt8.toUInt16 := by
  induction events generalizing traffic with
  | nil => simp [performAll]
  | cons event rest ih =>
    have hnext := h.perform event
    show ((traffic.perform event).performAll rest).received = _
    cases hevent : event.isReceive with
    | false =>
      have hkept := h.untouched_perform hevent
      obtain ⟨more, -, hinbound⟩ := hkept.fed
      have hcount : (event :: rest).countP Event.isReceive = rest.countP Event.isReceive :=
        List.countP_cons_of_neg (by simp [hevent])
      rw [hcount] at hevents ⊢
      have hlength : rest.countP Event.isReceive ≤ traffic.line.inbound.toList.length := by
        have hready := h.bounded.ready
        rw [pending_eq] at hready
        omega
      rw [ih hnext (Nat.le_trans hevents hkept.ready), hkept.received, hinbound,
        List.take_append_of_le_length hlength]
    | true =>
      have hcount : (event :: rest).countP Event.isReceive = rest.countP Event.isReceive + 1 :=
        List.countP_cons_of_pos hevent
      rw [hcount] at hevents ⊢
      obtain ⟨ready, hready⟩ : ∃ ready, traffic.line.ready = ready + 1 :=
        ⟨traffic.line.ready - 1, by omega⟩
      obtain ⟨byte, queue, hlist, hreceive⟩ := perform_receive h.bounded hready
      rw [Event.eq_of_isReceive hevent, hreceive] at hnext ⊢
      have hle : rest.countP Event.isReceive ≤ ready := by omega
      rw [ih hnext hle, hlist, List.take_succ_cons, List.map_cons, List.append_assoc]
      rfl

-- Whatever the device, the host and the clock do to a line with a fixed filler: all that the host
-- has fed has been received or waits, in order; a line that shows no byte yields its filler; looks
-- show what a read would yield and change nothing; as many bytes as are shown can be read, whatever
-- comes between; and the device has received no more bytes than byte periods have passed.
theorem received_in_order [Generator] (baud : UInt32) (byte : UInt8) (events : List Event) :
    let traffic := (start baud (.fixed byte)).performAll events
    let line := traffic.line
    traffic.fed.map UInt8.toUInt16 =
        traffic.received ++ line.inbound.toList.map UInt8.toUInt16 ∧
      (line.readyCount = 0 → line.readSlot 10 .consume = (byte.toUInt16, line)) ∧
      (∀ slot, (line.readSlot slot .peek).2 = line) ∧
      (line.readSlot 10 .peek).1 = (line.readSlot 10 .consume).1 ∧
      line.readyCount.toNat ≤ min 2 line.pending ∧
      (∀ later : List Event, later.countP Event.isReceive ≤ line.readyCount.toNat →
        (traffic.performAll later).received = traffic.received ++
          (line.inbound.toList.take (later.countP Event.isReceive)).map UInt8.toUInt16) ∧
      traffic.received.length ≤ traffic.ticked / (ofBaud baud (.fixed byte)).bytePeriod := by
  intro traffic line
  obtain ⟨hpaced, haccounted⟩ : traffic.Paced (.ofBaud baud (.fixed byte)) ∧
      traffic.Accounted byte := by
    apply performAll_induction (motive := fun traffic =>
      traffic.Paced (.ofBaud baud (.fixed byte)) ∧ traffic.Accounted byte)
    · exact ⟨paced_start baud _, accounted_start baud byte⟩
    · intro traffic event h
      exact ⟨h.1.perform event, h.2.perform h.1 event⟩
  have hbounded : line.Bounded := hpaced.bounded
  refine ⟨haccounted.fed, fun hcount => ?_, fun slot => ?_,
    hbounded.fst_readSlot_peek haccounted.filler, ?_, fun later hlater => ?_, ?_⟩
  · have hready := hbounded.readyCount_eq_zero_iff.1 hcount
    have hreceive : line.receive = (byte, line) := receive_of_not_ready haccounted.filler hready
    simp only [readSlot, hreceive]
  · rw [snd_readSlot, if_neg (by simp)]
  · rw [hbounded.toNat_readyCount]
    exact hbounded.ready
  · rw [hbounded.toNat_readyCount] at hlater
    exact hpaced.received_performAll hlater
  · have hperiod : line.bytePeriod = (ofBaud baud (.fixed byte)).bytePeriod := by
      rw [bytePeriod, bytePeriod, hpaced.baud]
    rw [← hperiod]
    exact Nat.le_trans (Nat.le_add_right _ _) haccounted.received

-- Three bytes are fed, and two periods pass. The third byte has not arrived when it is asked for.
theorem received_in_order_three_bytes :
    let traffic := (start 9600 (.fixed 0)).performAll
      [.feed [65, 66, 67], .tick 3000000, .read 10 .consume]
    let later : List Event := [.drain, .feed [68], .read 10 .consume]
    let after := traffic.performAll later
    traffic.received = [65] ∧ later.countP Event.isReceive ≤ traffic.line.readyCount.toNat ∧
      after.received = [65, 66] ∧ after.line.readyCount = 0 ∧
      after.line.readSlot 10 .consume = (0, after.line) := by
  intro traffic later after
  have hcount : later.countP Event.isReceive ≤ traffic.line.readyCount.toNat := by decide
  have hzero : after.line.readyCount = 0 := by decide
  obtain ⟨-, -, -, -, -, hlater, -⟩ := received_in_order 9600 0
    [.feed [65, 66, 67], .tick 3000000, .read 10 .consume]
  obtain ⟨-, hfiller, -⟩ := received_in_order 9600 0
    [.feed [65, 66, 67], .tick 3000000, .read 10 .consume, .drain, .feed [68], .read 10 .consume]
  exact ⟨by decide, hcount, hlater later hcount, hzero, hfiller hzero⟩

end Traffic

end MicroCisc.SerialLine
