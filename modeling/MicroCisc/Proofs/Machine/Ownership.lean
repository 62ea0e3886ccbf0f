import MicroCisc.Device.ChaCha
import MicroCisc.Proofs.Machine.Build
import MicroCisc.Proofs.Machine.Events

namespace MicroCisc

namespace Device

-- The owner that a store of `source` to slot 2 of a halted device leaves.
def ownerAfterStore (owner source value : Word) : Word :=
  if owner = source then value else if owner = 0 then source else owner

variable {device : Device Kind} {source : Word}

theorem isStranger_iff_owner_ne (hhalted : device.halted = true) (hid : device.id ≠ source)
    (hsource : source ≠ 0) : device.IsStranger source ↔ device.control.owner ≠ source := by
  unfold IsStranger
  constructor
  · rintro ⟨_, hfree⟩ rfl
    exact hfree ⟨hsource, rfl, hhalted⟩
  · intro howner
    refine ⟨hid.symm, ?_⟩
    rintro ⟨_, rfl, _⟩
    exact howner rfl

-- All that a stranger can change of a device is its owner.
theorem afterWrite_of_isStranger (h : device.IsStranger source) (index : UInt8)
    (address value : Word) :
    device.afterWrite source index address value =
      device.setOwner (device.afterWrite source index address value).control.owner := by
  unfold afterWrite
  split
  · next i slot _ =>
    rw [writeSlot_of_isStranger h slot value]
    split
    · split <;> rfl
    · rfl
  · next i offset _ =>
    rw [writeBlock_of_isStranger h offset value]
    split <;> rfl

-- Owners change through slot 2 alone.
theorem owner_afterWrite (hhalted : device.halted = true) (hid : device.id ≠ source)
    (hsource : source ≠ 0) {index : UInt8} (hindex : index ≠ 0) (address value : Word) :
    (device.afterWrite source index address value).control.owner =
      if BusAddress.ofWord address = .slot index 2 then
        ownerAfterStore device.control.owner source value
      else device.control.owner := by
  have hstranger := isStranger_iff_owner_ne hhalted hid hsource
  unfold afterWrite ownerAfterStore
  cases BusAddress.ofWord address with
  | block i offset =>
    obtain ⟨memory, hblock⟩ := device.writeBlock_eq source offset value
    simp only [hblock, reduceCtorEq, if_false]
    split <;> rfl
  | slot i slot =>
    simp only [BusAddress.slot.injEq]
    by_cases hi : i = index
    · subst hi
      rw [if_pos ⟨rfl, hindex⟩]
      by_cases howner : device.control.owner = source
      · have hcontroller : device.isController source = true := by
          by_contra h
          rw [Bool.not_eq_true, isController_eq_false_iff] at h
          exact hstranger.1 h howner
        simp only [owner_writeSlot_of_isController hcontroller, true_and, howner, if_true]
      · rw [writeSlot_of_isStranger (hstranger.2 howner)]
        simp only [true_and, howner, if_false]
        by_cases hslot : slot = 2
        · simp only [hslot, true_and, if_true]
          split <;> rfl
        · simp only [hslot, false_and, if_false]
    · rw [if_neg fun h => hi h.1, if_neg fun h => hi h.1]

end Device

namespace DeviceTree

-- The device at the top of a tree has the same id, and is halted or not as before.
structure SameDevice (old new : DeviceTree) : Prop where
  id : new.device.id = old.device.id
  halted : new.device.halted = old.device.halted

theorem SameDevice.refl (tree : DeviceTree) : tree.SameDevice tree :=
  ⟨rfl, rfl⟩

theorem SameDevice.trans {old middle new : DeviceTree} (hfirst : old.SameDevice middle)
    (hsecond : middle.SameDevice new) : old.SameDevice new :=
  ⟨hsecond.id.trans hfirst.id, hsecond.halted.trans hfirst.halted⟩

theorem SameButKind.sameDevice {old new : DeviceTree} (h : old.SameButKind new) :
    old.SameDevice new := by
  obtain ⟨kind, hkind⟩ := h
  constructor <;> rw [hkind]

variable (tree : DeviceTree)

theorem sameDevice_writeSlot (source : Word) (slot : Slot) (value : Word) :
    tree.SameDevice (tree.mapDevice (·.writeSlot source slot value)) := by
  obtain ⟨kind, control, hslot⟩ := tree.device.writeSlot_eq source slot value
  constructor <;> rw [device_mapDevice, hslot]

theorem sameDevice_writeBlock (source : Word) (offset : UInt8) (value : Word) :
    tree.SameDevice (tree.mapDevice (·.writeBlock source offset value)) := by
  obtain ⟨memory, hblock⟩ := tree.device.writeBlock_eq source offset value
  constructor <;> rw [device_mapDevice, hblock]

theorem device_tick (nanos : Nat) : (tree.tick nanos).device = tree.device.tick nanos := by
  cases tree
  rfl

theorem sameDevice_tick (nanos : Nat) : tree.SameDevice (tree.tick nanos) := by
  constructor <;> rw [device_tick] <;> rfl

theorem tick_mapDevice_setOwner (owner : Word) (nanos : Nat) :
    (tree.mapDevice (·.setOwner owner)).tick nanos =
      (tree.tick nanos).mapDevice (·.setOwner owner) := by
  cases tree
  rfl

end DeviceTree

namespace Processor

-- The owner that the next step leaves to the device at an index, given the one that it has.
def ownerAfterStep (cpu : Processor) (index : UInt8) (owner : Word) : Word :=
  match cpu.busStore? cpu.current with
  | some (address, value) =>
      if BusAddress.ofWord address = .slot index 2 then
        Device.ownerAfterStore owner cpu.id value
      else owner
  | none => owner

-- The processor has an id of its own, and each device on its bus has another and stays halted.
structure Wired (cpu : Processor) : Prop where
  id : cpu.id ≠ 0
  free : cpu.bus.get? 0 = none
  foreign : ∀ index tree, cpu.bus.get? index = some tree → tree.device.id ≠ cpu.id
  halted : ∀ index tree, cpu.bus.get? index = some tree → tree.device.halted = true

variable {cpu after : Processor} {instr : Instruction} {index : UInt8} {tree : DeviceTree}

theorem Wired.index_ne_zero (h : cpu.Wired) (hget : cpu.bus.get? index = some tree) :
    index ≠ 0 := by
  rintro rfl
  rw [h.free] at hget
  cases hget

theorem Wired.isStranger_iff (h : cpu.Wired) (hget : cpu.bus.get? index = some tree) :
    tree.device.IsStranger cpu.id ↔ tree.device.control.owner ≠ cpu.id :=
  Device.isStranger_iff_owner_ne (h.halted index tree hget) (h.foreign index tree hget) h.id

theorem Wired.of_pointwise (h : cpu.Wired) (hid : after.id = cpu.id)
    (hbus : Bus.Pointwise (fun _ => DeviceTree.SameDevice) cpu.bus after.bus) : after.Wired := by
  refine ⟨?_, hbus.get?_eq_none h.free, ?_, ?_⟩
  · rw [hid]
    exact h.id
  · intro index new hget
    obtain ⟨old, hold, hsame⟩ := hbus.exists_before hget
    rw [hid, hsame.id]
    exact h.foreign index old hold
  · intro index new hget
    obtain ⟨old, hold, hsame⟩ := hbus.exists_before hget
    rw [hsame.halted]
    exact h.halted index old hold

theorem sameDevice_step (hstep : cpu.step = .ok (instr, after)) :
    Bus.Pointwise (fun _ => DeviceTree.SameDevice) cpu.bus after.bus := by
  obtain ⟨_, _, hbus⟩ := of_step_eq_ok hstep
  have hreads : Bus.Pointwise (fun _ => DeviceTree.SameDevice) cpu.bus
      (cpu.bus.afterReads cpu.id (cpu.readAddresses cpu.current)) :=
    (Bus.pointwise_afterReads_sameButKind _ _ _).mono fun _ _ _ => DeviceTree.SameButKind.sameDevice
  have hbusAfter : Bus.Pointwise (fun _ => DeviceTree.SameDevice) cpu.bus
      (cpu.busAfter cpu.current) := by
    unfold busAfter
    dsimp only
    split
    · next address value _ =>
      apply hreads.trans (fun _ _ _ _ => .trans)
      apply Bus.pointwise_afterWrite (fun _ => .refl)
      · intro tree slot
        exact tree.sameDevice_writeSlot cpu.id slot value
      · intro tree offset
        exact tree.sameDevice_writeBlock cpu.id offset value
    · exact hreads
  rw [hbus]
  exact hbusAfter.trans (fun _ _ _ _ => .trans)
    (Bus.pointwise_tick (fun _ => DeviceTree.sameDevice_tick) _ _)

-- What the store of an instruction leaves of the device at an index.
def afterStore (cpu : Processor) (instr : Instruction) (index : UInt8) (device : Device Kind) :
    Device Kind :=
  match cpu.busStore? instr with
  | some (address, value) => device.afterWrite cpu.id index address value
  | none => device

theorem get?_busAfter (cpu : Processor) (instr : Instruction) (index : UInt8) :
    (cpu.busAfter instr).get? index =
      ((cpu.bus.afterReads cpu.id (cpu.readAddresses instr)).get? index).map
        (.mapDevice (cpu.afterStore instr index)) := by
  unfold busAfter afterStore
  cases cpu.busStore? instr with
  | some store => exact Bus.get?_afterWrite _ _ _ _ _
  | none =>
    dsimp only
    generalize (cpu.bus.afterReads cpu.id (cpu.readAddresses instr)).get? index = found
    cases found with
    | none => rfl
    | some tree => exact congrArg some (DeviceTree.mapDevice_eq_self rfl).symm

theorem afterStore_of_isStranger {device : Device Kind} (h : device.IsStranger cpu.id) :
    cpu.afterStore instr index device =
      device.setOwner (cpu.afterStore instr index device).control.owner := by
  unfold afterStore
  cases cpu.busStore? instr with
  | some store => exact Device.afterWrite_of_isStranger h index store.1 store.2
  | none => rfl

theorem owner_afterStore {device : Device Kind} (hhalted : device.halted = true)
    (hid : device.id ≠ cpu.id) (hcpu : cpu.id ≠ 0) (hindex : index ≠ 0) :
    (cpu.afterStore cpu.current index device).control.owner =
      cpu.ownerAfterStep index device.control.owner := by
  unfold afterStore ownerAfterStep
  cases cpu.busStore? cpu.current with
  | some store => exact Device.owner_afterWrite hhalted hid hcpu hindex store.1 store.2
  | none => rfl

-- A step leaves to each device the owner that the law says, and of one that the processor does not
-- own nothing else happens but that time passes.
theorem Wired.exists_step (h : cpu.Wired) (hget : cpu.bus.get? index = some tree)
    (hstep : cpu.step = .ok (instr, after)) :
    ∃ new, after.bus.get? index = some new ∧
      new.device.control.owner = cpu.ownerAfterStep index tree.device.control.owner ∧
      (tree.device.control.owner ≠ cpu.id →
        new = (tree.tick cpu.nanosPerInstruction).mapDevice
          (·.setOwner (cpu.ownerAfterStep index tree.device.control.owner))) := by
  obtain ⟨_, _, hbus⟩ := of_step_eq_ok hstep
  have hreads := Bus.pointwise_afterReads_sameButKind cpu.id (cpu.readAddresses cpu.current) cpu.bus
  obtain ⟨read, hread, hkind⟩ := hreads.exists_after hget
  have hsame := hkind.sameDevice
  have howner : read.device.control.owner = tree.device.control.owner := by
    obtain ⟨kind, hkind⟩ := hkind
    rw [hkind]
  have hlaw : (cpu.afterStore cpu.current index read.device).control.owner =
      cpu.ownerAfterStep index tree.device.control.owner := by
    rw [owner_afterStore _ _ h.id (h.index_ne_zero hget), howner]
    · rw [hsame.halted]
      exact h.halted index tree hget
    · rw [hsame.id]
      exact h.foreign index tree hget
  refine ⟨(read.mapDevice (cpu.afterStore cpu.current index)).tick cpu.nanosPerInstruction,
    ?_, ?_, fun hne => ?_⟩
  · rw [hbus, Bus.get?_tick, get?_busAfter, hread]
    rfl
  · rw [DeviceTree.device_tick, DeviceTree.device_mapDevice, ← hlaw]
    rfl
  · have hstranger := (h.isStranger_iff hget).2 hne
    have hunread := Bus.get?_afterReads_of_isStranger hget hstranger (cpu.readAddresses cpu.current)
    rw [hread, Option.some.injEq] at hunread
    subst hunread
    rw [← DeviceTree.tick_mapDevice_setOwner, ← hlaw]
    congr 1
    cases read with
    | node device below =>
      exact congrArg (DeviceTree.node · below) (afterStore_of_isStranger hstranger)

end Processor

namespace Machine

variable {machine : Machine}

-- Whatever happens, the processor keeps its id, and at each index of its bus stays the same device.
theorem sameDevice_perform (machine : Machine) (event : Event) :
    (machine.perform event).cpu.id = machine.cpu.id ∧
      Bus.Pointwise (fun _ => DeviceTree.SameDevice) machine.cpu.bus
        (machine.perform event).cpu.bus := by
  by_cases hstep : event = .step
  · subst hstep
    unfold perform
    dsimp only
    split
    · next cpu h => exact ⟨(Processor.of_step_eq_ok h).2.1, Processor.sameDevice_step h⟩
    · exact ⟨rfl, .refl (fun _ => .refl) _⟩
  · have hhost := machine.hostFrame_perform hstep
    exact ⟨hhost.id, hhost.bus.mono fun _ _ _ => DeviceTree.SameButKind.sameDevice⟩

theorem sameDevice_performAll (machine : Machine) (events : List Event) :
    (machine.performAll events).cpu.id = machine.cpu.id ∧
      Bus.Pointwise (fun _ => DeviceTree.SameDevice) machine.cpu.bus
        (machine.performAll events).cpu.bus := by
  induction events generalizing machine with
  | nil => exact ⟨rfl, .refl (fun _ => .refl) _⟩
  | cons event rest ih =>
    obtain ⟨hid, hbus⟩ := machine.sameDevice_perform event
    obtain ⟨hidRest, hbusRest⟩ := ih (machine.perform event)
    exact ⟨hidRest.trans hid, hbus.trans (fun _ _ _ _ => .trans) hbusRest⟩

-- What can become of a device on the processor's bus, and what the processor can do with it.
structure OwnershipLaw (machine : Machine) (index : UInt8) (tree : DeviceTree) : Prop where
  host : ∀ event, event ≠ .step → ∃ after,
    (machine.perform event).cpu.bus.get? index = some after ∧
      after.device.control.owner = tree.device.control.owner
  step : machine.cpu.isRunning = true → ∃ after,
    (machine.perform .step).cpu.bus.get? index = some after ∧
      after.device.control.owner =
        machine.cpu.ownerAfterStep index tree.device.control.owner ∧
      -- One that the processor does not own sees time pass, and may be claimed.
      (tree.device.control.owner ≠ machine.cpu.id →
        after = (tree.tick machine.cpu.nanosPerInstruction).mapDevice
          (·.setOwner (machine.cpu.ownerAfterStep index tree.device.control.owner)))
  lockedOut : tree.device.control.owner ≠ machine.cpu.id → machine.cpu.LockedOut index

theorem ownershipLaw (hwired : machine.cpu.Wired) {index : UInt8} {tree : DeviceTree}
    (hget : machine.cpu.bus.get? index = some tree) : machine.OwnershipLaw index tree where
  host := by
    intro event hevent
    obtain ⟨after, hafter, kind, hkind⟩ :=
      (machine.hostFrame_perform hevent).bus.exists_after hget
    refine ⟨after, hafter, ?_⟩
    rw [hkind]
  step := by
    intro hrun
    rw [perform_step hrun]
    exact hwired.exists_step hget (if_pos hrun)
  lockedOut := by
    intro howner
    have hstranger := (hwired.isStranger_iff hget).2 howner
    exact BusMaster.lockedOut_of_isStranger (hwired.index_ne_zero hget) hget hstranger

-- In every run of a machine with its host, a device on the bus of its processor begins without an
-- owner, and at each moment the law holds of it.
theorem ownershipLaw_performAll [Generator] {config : MachineConfig} {built : Machine}
    (h : ofConfig config = .ok built) (events : List Event) {index : UInt8} {first : DeviceTree}
    (hfirst : built.cpu.bus.get? index = some first) :
    first.device.control.owner = 0 ∧
      (built.performAll events).cpu.id = config.processor.id ∧
      ∃ tree, (built.performAll events).cpu.bus.get? index = some tree ∧
        tree.device.id = first.device.id ∧ (built.performAll events).OwnershipLaw index tree := by
  obtain ⟨hid, hne, hfresh⟩ := of_ofConfig_eq_ok h
  have hstart : built.cpu.Wired := ⟨hne, hfresh.free, hfresh.foreign, hfresh.halted⟩
  obtain ⟨hkept, hbus⟩ := built.sameDevice_performAll events
  obtain ⟨tree, htree, hsame⟩ := hbus.exists_after hfirst
  have hwired := hstart.of_pointwise hkept hbus
  exact ⟨hfresh.unclaimed index first hfirst, hkept.trans hid, tree, htree, hsame.id,
    ownershipLaw hwired htree⟩

-- A program that fills the memory, and stores 5, 7 and 9 to slot 2 of a serial line. The first store
-- claims the line, the second hands it over to the id 7, and the third is dropped.
theorem ownershipLaw_performAll_serial :
    let config : MachineConfig :=
      { processor := { ProcessorConfig.standard with addressWidth := 8 }
        devices := [{ index := 16, id := 100, kind := .serial 9600 (.fixed 0), connected := [] }]
        maxCycles := none }
    let program := Program.ofWords
      ([0x4D40, 0x0102, 0x4940, 5, 0x4940, 7, 0x4940, 9] ++ List.replicate 248 0)
    let run := fun steps => Event.load program :: List.replicate steps Event.step
    ∃ built first, ofConfig config = .ok built ∧ built.cpu.bus.get? 16 = some first ∧
      [0, 1, 2, 3, 4].map (fun steps =>
        ((built.performAll (run steps)).cpu.bus.get? 16).map (·.device.control.owner)) =
          [some 0, some 0, some 1, some 7, some 7] ∧
      ∃ tree, (built.performAll (run 3)).cpu.bus.get? 16 = some tree ∧
        tree.device.id = first.device.id ∧ (built.performAll (run 3)).OwnershipLaw 16 tree := by
  intro config program run
  have hruns : ∃ built first, ofConfig config = .ok built ∧ built.cpu.bus.get? 16 = some first ∧
      [0, 1, 2, 3, 4].map (fun steps =>
        ((built.performAll (run steps)).cpu.bus.get? 16).map (·.device.control.owner)) =
          [some 0, some 0, some 1, some 7, some 7] :=
    ⟨_, _, rfl, rfl, by decide +kernel⟩
  obtain ⟨built, first, hbuilt, hfirst, howners⟩ := hruns
  obtain ⟨_, _, tree, htree, hid, hlaw⟩ := ownershipLaw_performAll hbuilt (run 3) hfirst
  exact ⟨built, first, hbuilt, hfirst, howners, tree, htree, hid, hlaw⟩

end Machine

end MicroCisc
