import MicroCisc.Proofs.Device.Connect
import MicroCisc.Proofs.Device.Rom
import MicroCisc.Proofs.Device.Serial.Traffic

namespace MicroCisc

mutual

-- Is this true of the kind of every device in the tree?
def DeviceTree.EveryKind (p : Kind → Prop) : DeviceTree → Prop
  | .node device bus => p device.kind ∧ Bus.EveryKind p bus

def Bus.EveryKind (p : Kind → Prop) : Bus → Prop
  | [] => True
  | (_, tree) :: rest => tree.EveryKind p ∧ Bus.EveryKind p rest

end

namespace Kind

-- What stays true of a kind that is read and written. Only a byte that is received changes what is read.
structure Lasting (p : Kind → Prop) : Prop where
  receive {kind : Kind} : p kind → p kind.receive
  writeSlot {kind : Kind} (slot : Slot) (value : Word) : p kind → p (kind.writeSlot slot value)

def LastsFor (nanos : Nat) (p : Kind → Prop) : Prop :=
  ∀ kind memory, p kind → p (kind.tick memory nanos)

end Kind

variable {p q : Kind → Prop}

namespace Device

variable {device : Device Kind}

theorem kind_receive (hp : Kind.Lasting p) (h : p device.kind) (source : Word) :
    p (device.receive source).kind := by
  unfold receive
  split
  · exact hp.receive h
  · exact h

theorem kind_readSlot (hp : Kind.Lasting p) (h : p device.kind) (source : Word) (slot : Slot)
    (access : Access) : p (device.readSlot source slot access).2.kind := by
  cases access with
  | peek =>
    rw [snd_readSlot_peek]
    exact h
  | consume =>
    rw [snd_readSlot_consume]
    split
    · exact kind_receive hp h source
    · exact h

theorem kind_writeSlot (hp : Kind.Lasting p) (h : p device.kind) (source : Word) (slot : Slot)
    (value : Word) : p (device.writeSlot source slot value).kind := by
  unfold writeSlot
  split
  · exact h
  · exact h
  · unfold claim
    split
    · exact h
    · split <;> exact h
  · split
    · unfold writeGatedSlot
      split
      · exact h
      · exact h
      · exact h
      · exact hp.writeSlot _ value h
    · exact h

theorem kind_writeBlock (device : Device Kind) (source : Word) (offset : UInt8) (value : Word) :
    (device.writeBlock source offset value).kind = device.kind := by
  obtain ⟨memory, hwrite⟩ := device.writeBlock_eq source offset value
  rw [hwrite]

end Device

namespace DeviceTree

theorem EveryKind.mapDevice {f : Device Kind → Device Kind}
    (hf : ∀ device : Device Kind, p device.kind → p (f device).kind) {tree : DeviceTree}
    (h : tree.EveryKind p) : (tree.mapDevice f).EveryKind p := by
  cases tree with
  | node device bus => exact ⟨hf device h.1, h.2⟩

theorem EveryKind.kind {tree : DeviceTree} (h : tree.EveryKind p) : p tree.device.kind := by
  cases tree with
  | node device bus => exact h.1

theorem EveryKind.placedAt {tree : DeviceTree} (h : tree.EveryKind p) (index : UInt8) :
    (tree.placedAt index).EveryKind p := by
  refine h.mapDevice ?_
  exact fun _ hkind => hkind

end DeviceTree

namespace Bus

variable {bus : Bus}

theorem EveryKind.of_pointwise {before after : Bus}
    (hpoint : Pointwise (fun _ old new => old.EveryKind p → new.EveryKind p) before after)
    (h : before.EveryKind p) : after.EveryKind p := by
  induction hpoint with
  | nil => trivial
  | cons hfirst _ ih => exact ⟨hfirst.2 h.1, ih h.2⟩

theorem EveryKind.get? (h : bus.EveryKind p) {index : UInt8} {tree : DeviceTree}
    (hget : bus.get? index = some tree) : tree.EveryKind p := by
  induction bus with
  | nil => cases hget
  | cons first rest ih =>
    obtain ⟨i, other⟩ := first
    simp only [Bus.get?, List.lookup_cons] at ih hget
    split at hget
    · cases hget
      exact h.1
    · exact ih h.2 hget

theorem EveryKind.modify {f : DeviceTree → DeviceTree}
    (hf : ∀ tree : DeviceTree, tree.EveryKind p → (f tree).EveryKind p) (h : bus.EveryKind p)
    (index : UInt8) : (Bus.modify f index bus).EveryKind p :=
  h.of_pointwise (pointwise_modify (fun _ _ htree => htree) hf bus)

theorem EveryKind.insert (h : bus.EveryKind p) {tree : DeviceTree} (htree : tree.EveryKind p)
    (index : UInt8) : (Bus.insert index tree bus).EveryKind p := by
  induction bus with
  | nil => exact ⟨htree, trivial⟩
  | cons first rest ih =>
    simp only [Bus.insert]
    split
    · exact ⟨htree, h⟩
    · exact ⟨h.1, ih h.2⟩

theorem EveryKind.afterReads (hp : Kind.Lasting p) (h : bus.EveryKind p) (source : Word)
    (addresses : List Word) : (bus.afterReads source addresses).EveryKind p := by
  refine h.of_pointwise (pointwise_afterReads (fun _ _ htree => htree)
    (fun _ _ _ _ hfirst hsecond htree => hsecond (hfirst htree)) source ?_ bus)
  intro address _ tree htree
  exact htree.mapDevice fun device hdevice => device.kind_receive hp hdevice source

theorem EveryKind.afterWrite (hp : Kind.Lasting p) (h : bus.EveryKind p)
    (source address value : Word) : (bus.afterWrite source address value).EveryKind p := by
  refine h.of_pointwise (pointwise_afterWrite (fun _ _ htree => htree) ?_ ?_ bus)
  · intro tree slot htree
    exact htree.mapDevice fun device hdevice => device.kind_writeSlot hp hdevice source slot value
  · intro tree offset htree
    refine htree.mapDevice fun device hdevice => ?_
    rwa [device.kind_writeBlock]

end Bus

mutual

theorem DeviceTree.EveryKind.tick {nanos : Nat} (hp : Kind.LastsFor nanos p) :
    {tree : DeviceTree} → tree.EveryKind p → (tree.tick nanos).EveryKind p
  | .node device _, h => ⟨hp device.kind device.memory h.1, Bus.EveryKind.tick hp h.2⟩

theorem Bus.EveryKind.tick {nanos : Nat} (hp : Kind.LastsFor nanos p) :
    {bus : Bus} → bus.EveryKind p → (Bus.tick nanos bus).EveryKind p
  | [], _ => trivial
  | (_, _) :: _, h => ⟨h.1.tick hp, h.2.tick hp⟩

end

mutual

theorem DeviceTree.EveryKind.and :
    {tree : DeviceTree} → tree.EveryKind p → tree.EveryKind q →
      tree.EveryKind fun kind => p kind ∧ q kind
  | .node _ _, hp, hq => ⟨⟨hp.1, hq.1⟩, hp.2.and hq.2⟩

theorem Bus.EveryKind.and :
    {bus : Bus} → bus.EveryKind p → bus.EveryKind q → bus.EveryKind fun kind => p kind ∧ q kind
  | [], _, _ => trivial
  | (_, _) :: _, hp, hq => ⟨hp.1.and hq.1, hp.2.and hq.2⟩

end

mutual

theorem DeviceTree.EveryKind.mono (hpq : ∀ kind, p kind → q kind) :
    {tree : DeviceTree} → tree.EveryKind p → tree.EveryKind q
  | .node device _, h => ⟨hpq device.kind h.1, Bus.EveryKind.mono hpq h.2⟩

theorem Bus.EveryKind.mono (hpq : ∀ kind, p kind → q kind) :
    {bus : Bus} → bus.EveryKind p → bus.EveryKind q
  | [], _ => trivial
  | (_, _) :: _, h => ⟨h.1.mono hpq, h.2.mono hpq⟩

end

/-! ### Visits -/

section Visits

variable {α : Type}

theorem DeviceTree.EveryKind.visit {f : DeviceTree → α × DeviceTree}
    (hf : ∀ tree : DeviceTree, tree.EveryKind p → (f tree).2.EveryKind p) {path : List UInt8}
    {tree : DeviceTree} (h : tree.EveryKind p) : (tree.visit f path).2.EveryKind p := by
  induction path generalizing tree with
  | nil =>
    cases tree with
    | node device bus =>
      rw [DeviceTree.visit]
      exact hf _ h
  | cons index path ih =>
    cases tree with
    | node device bus =>
      rw [DeviceTree.visit]
      refine ⟨h.1, ?_⟩
      rw [Bus.snd_visit]
      exact h.2.modify (fun below hbelow => ih hbelow) index

namespace Bus

variable {bus : Bus}

theorem EveryKind.visit {f : DeviceTree → α × DeviceTree}
    (hf : ∀ tree : DeviceTree, tree.EveryKind p → (f tree).2.EveryKind p) (h : bus.EveryKind p)
    (index : UInt8) (path : List UInt8) : (bus.visit f index path).2.EveryKind p := by
  rw [snd_visit]
  exact h.modify (fun tree htree => htree.visit hf) index

theorem EveryKind.visitKind {f : Kind → Option α × Kind} (hf : ∀ kind, p kind → p (f kind).2)
    (h : bus.EveryKind p) (path : List UInt8) : (bus.visitKind f path).2.EveryKind p := by
  cases path with
  | nil => exact h
  | cons index path =>
    have htop (tree : DeviceTree) (htree : tree.EveryKind p) :
        (DeviceTree.visitTop f tree).2.EveryKind p := by
      cases tree with
      | node device bus => exact ⟨hf device.kind htree.1, htree.2⟩
    exact h.visit htop index path

end Bus

end Visits

/-! ### The host -/

namespace BusMaster

variable {κ : Type} [Behavior κ] {master : BusMaster κ}

theorem everyKind_read (hp : Kind.Lasting p) (h : master.bus.EveryKind p) (address : Word)
    (access : Access) : (master.read address access).2.bus.EveryKind p := by
  unfold read
  split
  · exact h
  · simp only [Bus.snd_readSlot]
    refine h.modify (fun tree htree => ?_) _
    exact htree.mapDevice fun device hdevice => device.kind_readSlot hp hdevice _ _ access
  · exact h

theorem everyKind_act (hp : Kind.Lasting p) (htick : ∀ nanos, Kind.LastsFor nanos p)
    (h : master.bus.EveryKind p) (action : HostAction) : (master.act action).bus.EveryKind p := by
  cases action with
  | tick nanos => exact h.tick (htick nanos)
  | readBus address access => exact everyKind_read hp h address access
  | writeBus address value =>
    rw [act, bus_write]
    exact h.afterWrite hp _ address value
  | readSlot source slot access => exact h
  | writeSlot source slot value => exact h
  | writeLocal address value => exact h
  | writeBlock source offset value => exact h

-- What a host does to a device as its own master.
theorem kind_act (hp : Kind.Lasting p) (htick : ∀ nanos, Kind.LastsFor nanos p)
    {master : BusMaster Kind} (h : p master.device.kind) (action : HostAction) :
    p (master.act action).device.kind := by
  cases action with
  | tick nanos => exact htick nanos _ master.device.memory h
  | readSlot source slot access => exact master.device.kind_readSlot hp h source slot access
  | writeSlot source slot value => exact master.device.kind_writeSlot hp h source slot value
  | writeLocal address value => exact h
  | writeBlock source offset value =>
    rw [act, Device.kind_writeBlock]
    exact h
  | readBus address access =>
    rw [act, read]
    split
    · exact master.device.kind_readSlot hp h _ _ access
    · exact h
    · exact h
  | writeBus address value =>
    rw [act, device_write]
    split
    · exact master.device.kind_writeSlot hp h _ _ value
    · exact h

theorem everyKind_toTree_actAt (hp : Kind.Lasting p) (htick : ∀ nanos, Kind.LastsFor nanos p)
    (action : HostAction) (path : List UInt8) {tree : DeviceTree} (h : tree.EveryKind p) :
    (tree.master.actAt action path).toTree.EveryKind p := by
  induction path generalizing tree with
  | nil =>
    cases tree with
    | node device bus => exact ⟨kind_act hp htick h.1 action, everyKind_act hp htick h.2 action⟩
  | cons index path ih =>
    cases tree with
    | node device bus => exact ⟨h.1, h.2.modify (fun below hbelow => ih hbelow) index⟩

theorem everyKind_actAt (hp : Kind.Lasting p) (htick : ∀ nanos, Kind.LastsFor nanos p)
    (h : master.bus.EveryKind p) (action : HostAction) (path : List UInt8) :
    (master.actAt action path).bus.EveryKind p := by
  cases path with
  | nil => exact everyKind_act hp htick h action
  | cons index path =>
    exact h.modify (fun below hbelow => everyKind_toTree_actAt hp htick action path hbelow) index

end BusMaster

/-! ### The states that devices come to -/

-- The states that a serial line can come to, whatever its device, the host and the clock do to it.
inductive SerialLine.Occurs : SerialLine → Prop
  | new [Generator] (baud : UInt32) (fill : Fill) : Occurs (.ofBaud baud fill)
  | feed {line : SerialLine} (h : Occurs line) (bytes : List UInt8) : Occurs (line.feed bytes)
  | drain {line : SerialLine} (h : Occurs line) : Occurs line.drain.2
  | read {line : SerialLine} (h : Occurs line) (slot : Slot) (access : Access) :
      Occurs (line.readSlot slot access).2
  | write {line : SerialLine} (h : Occurs line) (slot : Slot) (value : Word) :
      Occurs (line.writeSlot slot value)
  | tick {line : SerialLine} (h : Occurs line) (nanos : Nat) : Occurs (line.tick nanos)

theorem SerialLine.Occurs.bounded {line : SerialLine} (h : line.Occurs) : line.Bounded := by
  induction h with
  | new baud fill => exact bounded_ofBaud baud fill
  | feed _ bytes ih => exact ih.feed bytes
  | drain _ ih => exact ⟨ih.ready, ih.free⟩
  | read _ slot access ih =>
    rw [snd_readSlot]
    split
    · exact ih.receive
    · exact ih
  | write _ slot value ih => exact ih.writeSlot slot value
  | tick _ nanos ih => exact ih.tick nanos

namespace Kind

-- Is the kind, if it is a serial line, in a state that one can come to?
def Occurs : Kind → Prop
  | .serial line => line.Occurs
  | _ => True

theorem lasting_occurs : Lasting Occurs where
  receive {kind} h := by
    cases kind with
    | serial line => exact SerialLine.Occurs.read h 10 .consume
    | processor | memory | terminal | leds => trivial
  writeSlot {kind} slot value h := by
    cases kind with
    | serial line => exact SerialLine.Occurs.write h slot value
    | processor | memory | terminal | leds => trivial

theorem lastsFor_occurs (nanos : Nat) : LastsFor nanos Occurs := by
  intro kind memory h
  cases kind with
  | serial line => exact SerialLine.Occurs.tick h nanos
  | processor | memory | terminal | leds => trivial

theorem occurs_feed (bytes : List UInt8) (kind : Kind) (h : kind.Occurs) :
    (kind.feed bytes).2.Occurs := by
  cases kind with
  | serial line => exact SerialLine.Occurs.feed h bytes
  | processor | memory | terminal | leds => trivial

theorem occurs_drain (kind : Kind) (h : kind.Occurs) : kind.drain.2.Occurs := by
  cases kind with
  | serial line => exact SerialLine.Occurs.drain h
  | processor | memory | terminal | leds => trivial

theorem occurs_take (kind : Kind) (h : kind.Occurs) : kind.take.2.Occurs := by
  cases kind with
  | serial line => exact h
  | processor | memory | terminal | leds => trivial

end Kind

end MicroCisc
