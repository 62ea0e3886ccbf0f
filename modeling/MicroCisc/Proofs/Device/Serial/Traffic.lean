import MicroCisc.Device.SerialLine

namespace MicroCisc

namespace SerialLine

-- Of the bytes that have arrived none is missing from the queue, and neither direction holds more
-- bytes than it has room for.
structure Bounded (line : SerialLine) : Prop where
  ready : line.ready ≤ min depth line.pending
  free : line.free ≤ depth

theorem bounded_ofBaud [Generator] (baud : UInt32) (fill : Fill) : (ofBaud baud fill).Bounded :=
  ⟨Nat.zero_le _, Nat.le_refl _⟩

variable {line : SerialLine}

theorem pending_eq (line : SerialLine) : line.pending = line.inbound.toList.length :=
  line.inbound.length_toList.symm

theorem pending_feed (line : SerialLine) (bytes : List UInt8) :
    (line.feed bytes).pending = line.pending + bytes.length := by
  rw [pending_eq, pending_eq, feed, ByteQueue.toList_append, List.length_append]

theorem Bounded.feed (h : line.Bounded) (bytes : List UInt8) : (line.feed bytes).Bounded := by
  have hready : line.ready ≤ min depth (line.feed bytes).pending := by
    have hbefore := h.ready
    rw [pending_feed]
    omega
  exact ⟨hready, h.free⟩

-- A byte that has arrived is the first one of the queue.
theorem Bounded.receive_of_ready (h : line.Bounded) {ready : Nat} (hready : line.ready = ready + 1) :
    ∃ byte rest, line.inbound.toList = byte :: rest.toList ∧
      line.receive = (byte, { line with ready, inbound := rest }) := by
  have hpending : line.inbound.toList ≠ [] := by
    have hle := h.ready
    intro hnil
    rw [pending_eq, hnil, hready, List.length_nil] at hle
    omega
  have hpop := line.inbound.toList_pop?
  rw [if_neg hpending, Option.map_eq_some_iff] at hpop
  obtain ⟨⟨byte, rest⟩, hfirst, hlist⟩ := hpop
  refine ⟨byte, rest, hlist.symm, ?_⟩
  simp only [receive, hready, hfirst]

-- Before a byte has arrived, a line with a fixed filler yields that, and stays as it is.
theorem receive_of_not_ready {byte : UInt8} (hfiller : line.filler = .fixed byte)
    (hready : line.ready = 0) : line.receive = (byte, line) := by
  obtain ⟨baud, inbound, outbound, ready, free, elapsed, filler⟩ := line
  subst hfiller hready
  rfl

theorem Bounded.receive (h : line.Bounded) : line.receive.2.Bounded := by
  cases hready : line.ready with
  | zero =>
    have hkept : line.receive.2 = { line with ready := 0, filler := line.filler.next.2 } := by
      simp only [SerialLine.receive, hready, receiveFiller]
    rw [hkept]
    exact ⟨Nat.zero_le _, h.free⟩
  | succ ready =>
    obtain ⟨byte, rest, hlist, hreceive⟩ := h.receive_of_ready hready
    have hle := h.ready
    rw [hreceive]
    refine ⟨?_, h.free⟩
    rw [pending_eq] at hle ⊢
    rw [hready, hlist, List.length_cons] at hle
    show ready ≤ min depth rest.toList.length
    omega

theorem receive_eq (line : SerialLine) :
    ∃ inbound ready filler, line.receive.2 = { line with inbound, ready, filler } := by
  unfold receive
  split
  · exact ⟨_, _, _, rfl⟩
  · split <;> exact ⟨_, _, _, rfl⟩

-- Only a read of slot 10 that is no look changes anything.
theorem snd_readSlot (line : SerialLine) (slot : Slot) (access : Access) :
    (line.readSlot slot access).2 =
      if slot = 10 ∧ access = .consume then line.receive.2 else line := by
  cases access with
  | peek => unfold readSlot; split <;> simp_all
  | consume => unfold readSlot; split <;> simp_all

theorem transmit_eq (line : SerialLine) (byte : UInt8) :
    ∃ outbound free, line.transmit byte = { line with outbound, free } ∧ free ≤ line.free := by
  unfold transmit
  split
  · exact ⟨_, _, rfl, Nat.le_refl _⟩
  · exact ⟨_, _, rfl, Nat.sub_le _ _⟩

theorem writeSlot_eq (line : SerialLine) (slot : Slot) (value : Word) :
    ∃ outbound free, line.writeSlot slot value = { line with outbound, free } ∧
      free ≤ line.free := by
  unfold writeSlot
  split
  · exact line.transmit_eq value.low
  · exact ⟨_, _, rfl, Nat.le_refl _⟩

-- Only slot 8 can be written.
theorem writeSlot_of_ne {slot : Slot} (h : slot ≠ 8) (line : SerialLine) (value : Word) :
    line.writeSlot slot value = line := by
  unfold writeSlot
  split
  · exact absurd rfl h
  · rfl

theorem Bounded.writeSlot (h : line.Bounded) (slot : Slot) (value : Word) :
    (line.writeSlot slot value).Bounded := by
  obtain ⟨outbound, free, hwrite, hle⟩ := line.writeSlot_eq slot value
  rw [hwrite]
  exact ⟨h.ready, Nat.le_trans hle h.free⟩

/-! ### Time -/

-- One byte a period arrives as long as one is waiting and there is room for it, and one place a
-- period becomes free as long as one is taken.
theorem Bounded.passPeriods_eq (h : line.Bounded) (n : Nat) :
    passPeriods n line =
      { line with
        ready := min (min depth line.pending) (line.ready + n)
        free := min depth (line.free + n) } := by
  induction n generalizing line with
  | zero =>
    rw [passPeriods, Nat.add_zero, Nat.add_zero, Nat.min_eq_right h.ready, Nat.min_eq_right h.free]
  | succ n ih =>
    have hready := h.ready
    have hfree := h.free
    have hpass : line.passPeriod =
        { line with
          ready := min (min depth line.pending) (line.ready + 1)
          free := min depth (line.free + 1) } := by
      simp only [passPeriod, mk.injEq, true_and, and_true]
      constructor <;> split <;> omega
    have hnext : line.passPeriod.Bounded := by
      rw [hpass]
      exact ⟨Nat.min_le_left _ _, Nat.min_le_left _ _⟩
    rw [passPeriods_succ, ih hnext, hpass]
    have hpending : ∀ ready free, ({ line with ready, free } : SerialLine).pending = line.pending :=
      fun _ _ => rfl
    simp only [hpending, mk.injEq, true_and, and_true]
    constructor <;> omega

-- Whole periods are counted in two pieces, with the time left over from the first one added to the
-- second.
theorem periods_add (first second period : Nat) :
    (first + second) / period = first / period + (first % period + second) / period := by
  rcases Nat.eq_zero_or_pos period with rfl | hpos
  · simp
  · calc (first + second) / period
        = (period * (first / period) + (first % period + second)) / period := by
          rw [← Nat.add_assoc, Nat.div_add_mod]
      _ = first / period + (first % period + second) / period := Nat.mul_add_div hpos _ _

-- The byte periods that end while some nanoseconds pass.
def periodsIn (line : SerialLine) (nanos : Nat) : Nat :=
  (line.elapsed + nanos) / line.bytePeriod

theorem Bounded.tick_eq (h : line.Bounded) (nanos : Nat) :
    line.tick nanos =
      { line with
        elapsed := (line.elapsed + nanos) % line.bytePeriod
        ready := min (min depth line.pending) (line.ready + line.periodsIn nanos)
        free := min depth (line.free + line.periodsIn nanos) } := by
  have hstart : ({ line with elapsed := (line.elapsed + nanos) % line.bytePeriod } :
      SerialLine).Bounded :=
    ⟨h.ready, h.free⟩
  exact hstart.passPeriods_eq _

theorem Bounded.tick (h : line.Bounded) (nanos : Nat) : (line.tick nanos).Bounded := by
  rw [h.tick_eq]
  exact ⟨Nat.min_le_left _ _, Nat.min_le_left _ _⟩

/-! ### Histories -/

-- What the device, the host or the clock does to a line.
inductive Event where
  | feed (bytes : List UInt8)
  | drain
  | read (slot : Slot) (access : Access)
  | write (slot : Slot) (value : Word)
  | tick (nanos : Nat)
  deriving DecidableEq, Repr

def Event.isReceive : Event → Bool
  | .read slot access => slot == 10 && access == .consume
  | _ => false

-- How many bytes slot 9 shows as arrived.
def readyCount (line : SerialLine) : UInt8 :=
  (line.readSlot 9 .peek).1.low

-- Does a write to a slot push out a byte although no place is free, since the host has drained the
-- bytes that have not gone out?
def overruns (line : SerialLine) (slot : Slot) : Bool :=
  slot == 8 && line.free == 0 && line.outbound.isEmpty

structure Traffic where
  line : SerialLine
  fed : List UInt8
  -- What reads of slot 10 have yielded while slot 9 showed a byte.
  received : List Word
  drained : List UInt8
  ticked : Nat
  overrun : Nat

namespace Traffic

def start [Generator] (baud : UInt32) (fill : Fill) : Traffic :=
  { line := .ofBaud baud fill, fed := [], received := [], drained := [], ticked := 0, overrun := 0 }

def perform (traffic : Traffic) : Event → Traffic
  | .feed bytes =>
      { traffic with line := traffic.line.feed bytes, fed := traffic.fed ++ bytes }
  | .drain =>
      let (bytes, line) := traffic.line.drain
      { traffic with line, drained := traffic.drained ++ bytes.toList }
  | .read slot access =>
      let (value, line) := traffic.line.readSlot slot access
      let counts := (Event.read slot access).isReceive && traffic.line.readyCount != 0
      { traffic with
        line, received := if counts then traffic.received ++ [value] else traffic.received }
  | .write slot value =>
      let overrun := if traffic.line.overruns slot then traffic.overrun + 1 else traffic.overrun
      { traffic with line := traffic.line.writeSlot slot value, overrun }
  | .tick nanos =>
      { traffic with line := traffic.line.tick nanos, ticked := traffic.ticked + nanos }

def performAll (traffic : Traffic) (events : List Event) : Traffic :=
  events.foldl perform traffic

-- What holds at the start and survives each event holds after any events.
theorem performAll_induction {motive : Traffic → Prop} {traffic : Traffic}
    (hstart : motive traffic)
    (hstep : ∀ traffic event, motive traffic → motive (traffic.perform event))
    (events : List Event) : motive (traffic.performAll events) := by
  induction events generalizing traffic with
  | nil => exact hstart
  | cons event rest ih => exact ih (hstep traffic event hstart)

-- The whole byte periods that have gone by.
def periods (traffic : Traffic) : Nat :=
  traffic.ticked / traffic.line.bytePeriod

-- The line keeps its pace, and its clock has counted the time since the last period ended.
structure Paced (first : SerialLine) (traffic : Traffic) : Prop where
  bounded : traffic.line.Bounded
  baud : traffic.line.baud = first.baud
  elapsed : traffic.line.elapsed = traffic.ticked % traffic.line.bytePeriod

variable {first : SerialLine} {traffic : Traffic}

theorem paced_start [Generator] (baud : UInt32) (fill : Fill) :
    (start baud fill).Paced (.ofBaud baud fill) :=
  ⟨bounded_ofBaud baud fill, rfl, (Nat.zero_mod _).symm⟩

theorem Paced.perform (h : traffic.Paced first) (event : Event) :
    (traffic.perform event).Paced first := by
  cases event with
  | feed bytes => exact ⟨h.bounded.feed bytes, h.baud, h.elapsed⟩
  | drain => exact ⟨⟨h.bounded.ready, h.bounded.free⟩, h.baud, h.elapsed⟩
  | read slot access =>
    have hline : (traffic.perform (.read slot access)).line =
        (traffic.line.readSlot slot access).2 := rfl
    rw [snd_readSlot] at hline
    split at hline
    · obtain ⟨inbound, ready, filler, hreceive⟩ := traffic.line.receive_eq
      refine ⟨?_, ?_, ?_⟩
      · rw [hline]
        exact h.bounded.receive
      · rw [hline, hreceive]
        exact h.baud
      · rw [hline, hreceive]
        exact h.elapsed
    · refine ⟨?_, ?_, ?_⟩ <;> rw [hline]
      · exact h.bounded
      · exact h.baud
      · exact h.elapsed
  | write slot value =>
    have hline : (traffic.perform (.write slot value)).line =
        traffic.line.writeSlot slot value := rfl
    obtain ⟨outbound, free, hwrite, -⟩ := traffic.line.writeSlot_eq slot value
    refine ⟨h.bounded.writeSlot slot value, ?_, ?_⟩
    · rw [hline, hwrite]
      exact h.baud
    · rw [hline, hwrite]
      exact h.elapsed
  | tick nanos =>
    have hline : (traffic.perform (.tick nanos)).line = traffic.line.tick nanos := rfl
    have htick := h.bounded.tick_eq nanos
    refine ⟨h.bounded.tick nanos, ?_, ?_⟩
    · rw [hline, htick]
      exact h.baud
    · rw [hline, htick, h.elapsed]
      exact Nat.mod_add_mod _ _ _

theorem Paced.periods_tick (h : traffic.Paced first) (nanos : Nat) :
    (traffic.perform (.tick nanos)).periods = traffic.periods + traffic.line.periodsIn nanos := by
  have hperiod : (traffic.perform (.tick nanos)).line.bytePeriod = traffic.line.bytePeriod := by
    rw [bytePeriod, bytePeriod, (h.perform (.tick nanos)).baud, h.baud]
  have hticked : (traffic.perform (.tick nanos)).ticked = traffic.ticked + nanos := rfl
  rw [periods, periods, periodsIn, hperiod, hticked, h.elapsed]
  exact periods_add _ _ _

end Traffic

end SerialLine

end MicroCisc
