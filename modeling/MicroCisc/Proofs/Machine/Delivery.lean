import MicroCisc.Proofs.Machine.Sweep
import MicroCisc.Proofs.Processor.Sending

namespace MicroCisc.Machine

variable {α : Type}

-- All that some sweeps have taken, put together in order.
def gather (bytes : α → Array UInt8) (taken : List α) : Array UInt8 :=
  taken.foldr (fun first rest => bytes first ++ rest) #[]

-- Does no instruction write to a line that has no free place, after the host has taken the byte whose
-- place it should have?
def NoOverrun (sweep : Machine → α × Machine) : List Nat → Machine → Prop
  | [], _ => True
  | chunk :: rest, machine =>
      (∀ n < chunk, ∀ location ∈ machine.serialLines,
        (machine.cpu.runFor n).overruns location.path = false) ∧
      NoOverrun sweep rest (sweep (machine.runFor chunk)).2

instance decidableNoOverrun (sweep : Machine → α × Machine) :
    (chunks : List Nat) → (machine : Machine) → Decidable (NoOverrun sweep chunks machine)
  | [], _ => .isTrue trivial
  | chunk :: rest, machine =>
      have := decidableNoOverrun sweep rest (sweep (machine.runFor chunk)).2
      inferInstanceAs (Decidable (_ ∧ _))

-- Drains lines one after another, and keeps what each has given.
def drainLines : List Location → Machine → List (Location × Array UInt8) × Machine
  | [], machine => ([], machine)
  | location :: rest, machine =>
      let (bytes, machine) := machine.drain location
      let (taken, machine) := drainLines rest machine
      ((location, bytes) :: taken, machine)

-- Drains all serial lines.
def drainAll (machine : Machine) : List (Location × Array UInt8) × Machine :=
  drainLines machine.serialLines machine

-- The bytes from the line that a path leads to.
def bytesFrom (path : List UInt8) (taken : List (Location × Array UInt8)) : Array UInt8 :=
  gather (fun (location, bytes) => if location.path = path then bytes else #[]) taken

/-! ### Sweeps -/

section Sweeping

variable (machine : Machine) (location : Location) (path : List UInt8)

theorem fst_drain : (machine.drain location).1 = machine.cpu.bus.outboundAt location.path := by
  have hkind : ∀ kind : Kind, kind.drain.1 = kind.sender?.map (·.outbound) := fun kind => by
    cases kind <;> rfl
  simp only [drain, visitDevice, Bus.fst_visitKind, hkind, Bus.outboundAt, Bus.senderAt?,
    Option.map_bind, Function.comp_def]

theorem senderAt?_visitDevice (f : Kind → Option α × Kind) :
    (machine.visitDevice f location).2.cpu.bus.senderAt? path =
      if path = location.path then (machine.cpu.bus.kindAt? path).bind fun kind => (f kind).2.sender?
      else machine.cpu.bus.senderAt? path := by
  simp only [visitDevice, Bus.senderAt?, Bus.kindAt?_visitKind]
  split
  · rw [Option.bind_map]
    rfl
  · rfl

theorem outboundAt_drain :
    (machine.drain location).2.cpu.bus.outboundAt path =
      if path = location.path then #[] else machine.cpu.bus.outboundAt path := by
  have hkind : ∀ kind : Kind, kind.drain.2.sender? = kind.sender?.map (·.drained) := fun kind => by
    cases kind <;> rfl
  have hvisit := machine.senderAt?_visitDevice location path Kind.drain
  simp only [hkind] at hvisit
  unfold Bus.outboundAt
  show ((Bus.senderAt? (machine.visitDevice Kind.drain location).2.cpu.bus path).map _).getD _ = _
  rw [hvisit]
  split
  · cases machine.cpu.bus.kindAt? path with
    | none => rfl
    | some kind => cases hsender : kind.sender? <;> simp [hsender, Sender.drained]
  · rfl

theorem outboundAt_take :
    (machine.take location).2.cpu.bus.outboundAt path = machine.cpu.bus.outboundAt path := by
  have hkind : ∀ kind : Kind, kind.take.2.sender? = kind.sender? := fun kind => by
    cases kind <;> rfl
  have hvisit := machine.senderAt?_visitDevice location path Kind.take
  simp only [hkind] at hvisit
  unfold Bus.outboundAt
  show ((Bus.senderAt? (machine.visitDevice Kind.take location).2.cpu.bus path).map _).getD _ = _
  rw [hvisit]
  split <;> rfl

end Sweeping

-- A sweep that takes all bytes that wait on the line that a path leads to, in a machine whose serial
-- lines are `lines`.
structure Takes (sweep : Machine → α × Machine) (bytes : α → Array UInt8) (lines : List Location)
    (path : List UInt8) : Prop where
  drained (machine : Machine) : (sweep machine).2.drained = machine.drained
  bytes (machine : Machine) (h : machine.serialLines = lines) :
    bytes (sweep machine).1 = machine.cpu.bus.outboundAt path
  emptied (machine : Machine) (h : machine.serialLines = lines) :
    (sweep machine).2.cpu.bus.outboundAt path = #[]

variable {sweep : Machine → α × Machine} {bytes : α → Array UInt8} {lines : List Location}
  {path : List UInt8}

section Delivering

variable (h : Takes sweep bytes lines path) {kept swept : Machine} {taken : Array UInt8}
  (hlines : swept.serialLines = lines) (hmem : path ∈ lines.map (·.path))
  (hdrained : kept.drained = swept.drained)
  (houtbound : kept.cpu.bus.outboundAt path = taken ++ swept.cpu.bus.outboundAt path)

include h hlines hmem hdrained houtbound

-- The sweep after a chunk takes what goes out in that chunk, and what was left before.
theorem Takes.outboundAt_chunk {chunk : Nat}
    (hplace : ∀ n < chunk, ∀ location ∈ swept.serialLines,
      (swept.cpu.runFor n).overruns location.path = false) :
    (kept.runFor chunk).cpu.bus.outboundAt path =
      taken ++ bytes (sweep (swept.runFor chunk)).1 := by
  obtain ⟨location, hlocation, rfl⟩ := List.mem_map.1 hmem
  have hcpu : kept.cpu.drained = swept.cpu.drained :=
    view_eq_of_drained_eq (·.cpu.drained) (fun machine => machine.cpu.drained_drained) hdrained
  rw [h.bytes (swept.runFor chunk) hlines]
  exact Processor.outboundAt_runFor_append chunk hcpu houtbound
    fun n hn => hplace n hn location (hlines ▸ hlocation)

-- Bytes taken before come first. All others wait, at the end, on a machine that is not swept.
theorem Takes.outboundAt_runFor (chunk : Nat) (rest : List Nat)
    (hplace : NoOverrun sweep (chunk :: rest) swept) :
    (kept.runFor (chunk :: rest).sum).cpu.bus.outboundAt path =
      taken ++ gather bytes (swept.runSwept sweep (chunk :: rest)).1 := by
  induction rest generalizing chunk kept swept taken with
  | nil =>
    have hchunk := h.outboundAt_chunk hlines hmem hdrained houtbound hplace.1
    simpa only [runSwept, gather, List.foldr_cons, List.foldr_nil, Array.append_empty,
      List.sum_singleton] using hchunk
  | cons next rest ih =>
    have hchunk := h.outboundAt_chunk hlines hmem hdrained houtbound hplace.1
    have hswept := h.drained (swept.runFor chunk)
    have hemptied := h.emptied (swept.runFor chunk) hlines
    have hsame : (kept.runFor chunk).drained = (sweep (swept.runFor chunk)).2.drained :=
      (drained_runFor_congr hdrained chunk).trans hswept.symm
    have hkept : (kept.runFor chunk).cpu.bus.outboundAt path =
        taken ++ bytes (sweep (swept.runFor chunk)).1 ++
          (sweep (swept.runFor chunk)).2.cpu.bus.outboundAt path := by
      rw [hemptied, Array.append_empty, hchunk]
    have hlines' := (view_eq_of_drained_eq (·.serialLines) (fun _ => rfl) hswept).trans hlines
    have hrest := ih hlines' hsame hkept next hplace.2
    rw [List.sum_cons, runFor_add, hrest, Array.append_assoc]
    rfl

end Delivering

-- What the sweeps have taken is what would wait without them.
theorem Takes.gather_runSwept (h : Takes sweep bytes lines path) {machine : Machine}
    (hlines : machine.serialLines = lines) (hmem : path ∈ lines.map (·.path)) {chunks : List Nat}
    (hne : chunks ≠ []) (hplace : NoOverrun sweep chunks machine) :
    gather bytes (machine.runSwept sweep chunks).1 =
      (machine.runFor chunks.sum).cpu.bus.outboundAt path := by
  cases chunks with
  | nil => exact absurd rfl hne
  | cons chunk rest =>
    have hall := h.outboundAt_runFor hlines hmem rfl Array.empty_append.symm chunk rest hplace
    rw [hall, Array.empty_append]

theorem NoOverrun.of_isPrefix {chunks all : List Nat} (hchunks : chunks <+: all) {machine : Machine}
    (h : NoOverrun sweep all machine) : NoOverrun sweep chunks machine := by
  induction chunks generalizing all machine with
  | nil => trivial
  | cons chunk rest ih =>
    obtain ⟨later, rfl⟩ := hchunks
    exact ⟨h.1, ih (List.prefix_append rest later) h.2⟩

/-! ### The sweeps of a host -/

theorem drained_drainLines (locations : List Location) (machine : Machine) :
    (drainLines locations machine).2.drained = machine.drained := by
  induction locations generalizing machine with
  | nil => rfl
  | cons location rest ih => exact (ih _).trans (machine.drained_drain location)

theorem outboundAt_drainLines (path : List UInt8) (locations : List Location) (machine : Machine) :
    bytesFrom path (drainLines locations machine).1 =
        (if path ∈ locations.map (·.path) then machine.cpu.bus.outboundAt path else #[]) ∧
      (drainLines locations machine).2.cpu.bus.outboundAt path =
        (if path ∈ locations.map (·.path) then #[] else machine.cpu.bus.outboundAt path) := by
  induction locations generalizing machine with
  | nil => exact ⟨rfl, rfl⟩
  | cons location rest ih =>
    obtain ⟨hbytes, hleft⟩ := ih (machine.drain location).2
    have hdrain := machine.outboundAt_drain location path
    have hfirst : bytesFrom path (drainLines (location :: rest) machine).1 =
        (if location.path = path then (machine.drain location).1 else #[]) ++
          bytesFrom path (drainLines rest (machine.drain location).2).1 := rfl
    have hlast : (drainLines (location :: rest) machine).2 =
        (drainLines rest (machine.drain location).2).2 := rfl
    rw [hfirst, hlast, hbytes, hleft, hdrain, fst_drain, List.map_cons]
    by_cases hpath : location.path = path
    · subst hpath
      simp
    · simp [hpath, Ne.symm hpath]

theorem takes_drainAll {lines : List Location} {path : List UInt8}
    (hmem : path ∈ lines.map (·.path)) : Takes drainAll (bytesFrom path) lines path where
  drained machine := drained_drainLines machine.serialLines machine
  bytes machine hlines := by
    have hline := (outboundAt_drainLines path machine.serialLines machine).1
    rwa [hlines, if_pos hmem, ← hlines] at hline
  emptied machine hlines := by
    have hline := (outboundAt_drainLines path machine.serialLines machine).2
    rwa [hlines, if_pos hmem, ← hlines] at hline

theorem outboundAt_pumpTerminals (machine : Machine) (path : List UInt8) :
    machine.pumpTerminals.2.cpu.bus.outboundAt path = machine.cpu.bus.outboundAt path := by
  refine List.foldlRecOn (motive := fun taken : Array UInt8 × Machine =>
    taken.2.cpu.bus.outboundAt path = machine.cpu.bus.outboundAt path) machine.terminals _ rfl ?_
  intro taken htaken location _
  exact (taken.2.outboundAt_take location path).trans htaken

-- A pump takes the bytes of the first line.
theorem takes_pump (first : Location) (rest : List Location) :
    Takes pump (·.serial) (first :: rest) first.path where
  drained := drained_pump
  bytes machine hlines := by
    have hserial : machine.pump.1.serial = machine.pumpSerial.1 := rfl
    rw [hserial, pumpSerial, hlines]
    exact machine.fst_drain first
  emptied machine hlines := by
    have hpump : machine.pump.2 = machine.pumpSerial.2.pumpTerminals.2 := rfl
    rw [hpump, outboundAt_pumpTerminals, pumpSerial, hlines]
    refine List.foldlRecOn (motive := fun after : Machine =>
      after.cpu.bus.outboundAt first.path = #[]) rest _ ?_ ?_
    · rw [outboundAt_drain, if_pos rfl]
    · intro after hafter location _
      rw [outboundAt_drain, hafter, ite_self]

-- Without serial lines there is nothing for a pump to take from one.
theorem serial_pump_of_serialLines_eq_nil {machine : Machine} (h : machine.serialLines = []) :
    machine.pump.1.serial = #[] := by
  have hserial : machine.pump.1.serial = machine.pumpSerial.1 := rfl
  rw [hserial, pumpSerial, h]

end MicroCisc.Machine
