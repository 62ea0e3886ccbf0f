import MicroCisc.Proofs.Config.Build
import MicroCisc.Proofs.Device.Locations

namespace MicroCisc

namespace DeviceConfig

-- A device as its configuration describes it.
structure Mirrors [Generator] (config : DeviceConfig) (device : Device Kind) : Prop where
  id : device.id = config.id
  kind : device.kind = config.kind.initialKind
  memory : Memory.ofWidth config.kind.width = .ok device.memory
  -- What anyone reads in slot 1.
  report : ∀ source access,
    (device.readSlot source 1 access).1 = .ofBytes config.index config.kind.type.code
  unclaimed : device.control.owner = 0
  halted : device.halted = true

variable {κ : Type} {config : DeviceConfig}

theorem mirrors_of_build [Generator] {tree : DeviceTree} (h : config.build = .ok tree) :
    config.Mirrors (tree.placedAt config.index).device := by
  obtain ⟨_, memory, top, hmemory, htop, rfl⟩ := build_eq_ok_iff.1 h
  have hdevice : (top.toTree.placedAt config.index).device =
      { config.device memory with control := { Control.initial with busIndex := config.index } } := by
    have htopDevice : top.toTree.device = config.device memory := BusMaster.device_connectAll htop
    rw [DeviceTree.placedAt, DeviceTree.device_mapDevice, htopDevice]
    rfl
  rw [hdevice]
  constructor
  · rfl
  · rfl
  · exact hmemory
  · intro source access
    have htype : config.kind.initialKind.type = config.kind.type := by
      cases config.kind <;> rfl
    exact congrArg (fun type => Word.ofBytes config.index type.code) htype
  · rfl
  · rfl

theorem get?_connectAll_of_taken [Generator] (configs : List DeviceConfig) {master after : BusMaster κ}
    {index : UInt8} {tree : DeviceTree} (htaken : master.bus.get? index = some tree)
    (hall : master.connectAll (buildAll configs) = .ok after) :
    after.bus.get? index = some tree := by
  refine BusMaster.connectAll_induction (motive := fun m => m.bus.get? index = some tree)
    (fun m m' other new _ hget hconnect => ?_) htaken hall
  obtain ⟨_, hfree, _, rfl⟩ := BusMaster.connect_eq_ok_iff.1 hconnect
  rw [Bus.get?_insert _ _ _ _ hfree]
  split
  · next heq =>
    rw [← heq, hget] at hfree
    cases hfree
  · exact hget

-- Where nothing was, there is now what the first device for that index is built to, if there is one.
theorem get?_connectAll [Generator] (index : UInt8) (configs : List DeviceConfig) {master after : BusMaster κ}
    (hfree : master.bus.get? index = none)
    (hall : master.connectAll (buildAll configs) = .ok after) :
    Option.Rel (fun config tree => ∃ built, config.build = .ok built ∧
      tree = built.placedAt config.index)
      (configs.find? (·.index == index)) (after.bus.get? index) := by
  induction configs generalizing master with
  | nil =>
    cases hall
    rw [hfree]
    exact .none
  | cons config rest ih =>
    obtain ⟨built, next, hbuild, hconnect, hrest⟩ := connectAll_buildAll_cons.1 hall
    by_cases hindex : config.index = index
    · obtain ⟨_, hfree', _, rfl⟩ := BusMaster.connect_eq_ok_iff.1 hconnect
      have hplaced : (Bus.insert config.index (built.placedAt config.index) master.bus).get? index =
          some (built.placedAt config.index) := by
        rw [Bus.get?_insert _ _ _ _ hfree', if_pos hindex.symm]
      rw [get?_connectAll_of_taken rest hplaced hrest]
      simp only [List.find?_cons, hindex, beq_self_eq_true]
      exact .some ⟨built, hbuild, by rw [hindex]⟩
    · have hnext := (get?_eq_none_iff_of_connect hconnect index).2 ⟨Ne.symm hindex, hfree⟩
      simp only [List.find?_cons, beq_false_of_ne hindex]
      exact ih hnext hrest

-- Paths in the tree against paths in the configuration.
theorem mirrors_connectAll [Generator] (path : List UInt8) {configs : List DeviceConfig} :
    ∀ {κ : Type} {master after : BusMaster κ}, master.bus = [] →
      master.connectAll (buildAll configs) = .ok after →
      Option.Rel Mirrors (atOf? configs path) (after.bus.deviceAt? path) := by
  induction path generalizing configs with
  | nil =>
    intro κ master after _ _
    exact .none
  | cons index path ih =>
    intro κ master after hbus hall
    have hget := get?_connectAll index configs (by rw [hbus]; rfl) hall
    rw [atOf?, Bus.deviceAt?_cons]
    generalize configs.find? (·.index == index) = config? at hget
    generalize after.bus.get? index = tree? at hget
    cases hget with
    | none => exact .none
    | @some config tree h =>
      obtain ⟨built, hbuild, rfl⟩ := h
      simp only [Option.bind_some]
      cases path with
      | nil => exact .some (mirrors_of_build hbuild)
      | cons next path =>
        obtain ⟨_, memory, top, _, htop, rfl⟩ := build_eq_ok_iff.1 hbuild
        exact ih rfl htop

/-! ### Indexes -/

-- Devices that are connected bring buses with distinct indexes, and take indexes that are free.
theorem distinctIndexes_connectAll [Generator] (configs : List DeviceConfig) :
    ∀ {κ : Type} {master after : BusMaster κ}, master.bus.DistinctIndexes →
      master.connectAll (buildAll configs) = .ok after → after.bus.DistinctIndexes := by
  induction configs using DeviceConfig.induction with
  | nil =>
    intro κ master after hmaster hall
    cases hall
    exact hmaster
  | cons config rest ihBelow ihBeside =>
    intro κ master after hmaster hall
    obtain ⟨tree, next, hbuild, hconnect, hrest⟩ := connectAll_buildAll_cons.1 hall
    obtain ⟨_, memory, top, _, htop, rfl⟩ := build_eq_ok_iff.1 hbuild
    have htree : (top.toTree.placedAt config.index).DistinctIndexes := by
      have hempty : Bus.DistinctIndexes (BusMaster.bus ⟨config.device memory, []⟩) := trivial
      rw [DeviceTree.distinctIndexes_iff, DeviceTree.placedAt, DeviceTree.bus_mapDevice]
      exact ihBelow hempty htop
    obtain ⟨_, hfree, _, rfl⟩ := BusMaster.connect_eq_ok_iff.1 hconnect
    exact ihBeside (Bus.distinctIndexes_insert hfree htree hmaster) hrest

end DeviceConfig

end MicroCisc
