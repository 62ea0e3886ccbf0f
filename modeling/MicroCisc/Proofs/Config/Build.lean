import MicroCisc.Proofs.Config.Valid
import MicroCisc.Proofs.Device.Ids
import MicroCisc.Proofs.Machine.Build

namespace MicroCisc

theorem Memory.exists_ofWidth_iff {width : UInt8} :
    (∃ memory, Memory.ofWidth width = .ok memory) ↔ width = 0 ∨ 8 ≤ width ∧ width ≤ 16 := by
  unfold ofWidth
  by_cases hzero : width = 0
  · simp [hzero]
  · by_cases hwidth : 8 ≤ width ∧ width ≤ 16 <;> simp [hzero, hwidth]

theorem KindConfig.hasValidWidth_iff {kind : KindConfig} :
    kind.HasValidWidth ↔ ∃ memory, Memory.ofWidth kind.width = .ok memory := by
  rw [Memory.exists_ofWidth_iff]
  cases kind with
  | memory width | processor width => rfl
  | serial baud fill | leds => simp [HasValidWidth, width]
  | terminal => simp [HasValidWidth, width, Terminal.addressWidth]

namespace DeviceConfig

variable {κ : Type} {master after : BusMaster κ} {config : DeviceConfig}
  {configs rest : List DeviceConfig}

theorem connectAll_buildAll_cons [Generator] :
    master.connectAll (buildAll (config :: rest)) = .ok after ↔
      ∃ tree next, config.build = .ok tree ∧ master.connect config.index tree = .ok next ∧
        next.connectAll (buildAll rest) = .ok after := by
  simp only [buildAll, BusMaster.connectAll, List.foldlM_cons, bind_eq_ok_iff]
  constructor
  · rintro ⟨next, ⟨tree, hbuild, hconnect⟩, hrest⟩
    exact ⟨tree, next, hbuild, hconnect, hrest⟩
  · rintro ⟨tree, next, hbuild, hconnect, hrest⟩
    exact ⟨next, ⟨tree, hbuild, hconnect⟩, hrest⟩

theorem perm_ids_connect_append {tree : DeviceTree} {next : BusMaster κ}
    (htree : tree.ids.Perm (config.id :: idsOf config.connected))
    (hconnect : master.connect config.index tree = .ok next) (rest : List DeviceConfig) :
    (next.ids ++ idsOf rest).Perm (master.ids ++ idsOf (config :: rest)) := by
  have hnext : next.ids.Perm (config.id :: idsOf config.connected ++ master.ids) :=
    (BusMaster.perm_ids_connect hconnect).trans (htree.append_right _)
  rw [idsOf_cons, ← List.append_assoc]
  exact (hnext.trans List.perm_append_comm).append_right _

-- The ids of devices that are connected join those that are there.
theorem perm_ids_connectAll [Generator] (configs : List DeviceConfig) :
    ∀ {κ : Type} {master after : BusMaster κ}, master.connectAll (buildAll configs) = .ok after →
      after.ids.Perm (master.ids ++ idsOf configs) := by
  induction configs using DeviceConfig.induction with
  | nil =>
    intro κ master after h
    cases h
    simp [idsOf, allOf]
  | cons config rest ihBelow ihBeside =>
    intro κ master after h
    obtain ⟨tree, next, hbuild, hconnect, hrest⟩ := connectAll_buildAll_cons.1 h
    obtain ⟨_, memory, top, _, htop, rfl⟩ := build_eq_ok_iff.1 hbuild
    have htree : top.toTree.ids.Perm (config.id :: idsOf config.connected) := by
      rw [DeviceTree.ids_toTree]
      exact ihBelow htop
    exact (ihBeside hrest).trans (perm_ids_connect_append htree hconnect rest)

theorem perm_ids_build [Generator] {tree : DeviceTree} (h : config.build = .ok tree) :
    tree.ids.Perm (config.id :: idsOf config.connected) := by
  obtain ⟨_, memory, top, _, htop, rfl⟩ := build_eq_ok_iff.1 h
  rw [DeviceTree.ids_toTree]
  exact perm_ids_connectAll config.connected htop

/-! ### When building succeeds -/

-- Can these devices be built and connected to a master?
structure Fits (configs : List DeviceConfig) (master : BusMaster κ) : Prop where
  sound : ∀ config ∈ allOf configs, config.Sound
  indexes : (configs.map (·.index)).Nodup
  free : ∀ config ∈ configs, master.bus.get? config.index = none
  ids : (master.ids ++ idsOf configs).Nodup

-- One device, given when those below it can be connected.
theorem exists_build_iff [Generator] (hindex : config.index ≠ 0)
    (hbelow : ∀ {κ : Type} (master : BusMaster κ), master.ids.Nodup →
      ((∃ after, master.connectAll (buildAll config.connected) = .ok after) ↔
        Fits config.connected master)) :
    (∃ tree, config.build = .ok tree) ↔
      (∀ device ∈ config.all, device.Sound) ∧ (config.id :: idsOf config.connected).Nodup := by
  have hstart : ∀ memory, BusMaster.ids ⟨config.device memory, []⟩ = [config.id] := fun _ => rfl
  rw [all_eq, List.forall_mem_cons]
  constructor
  · rintro ⟨tree, hbuild⟩
    obtain ⟨hid, memory, top, hmemory, htop, _⟩ := build_eq_ok_iff.1 hbuild
    have hfits := (hbelow ⟨config.device memory, []⟩ (by simp [hstart])).1 ⟨top, htop⟩
    have hwidth := KindConfig.hasValidWidth_iff.2 ⟨memory, hmemory⟩
    exact ⟨⟨⟨hindex, hid, hwidth, hfits.indexes⟩, hfits.sound⟩, hfits.ids⟩
  · rintro ⟨⟨hsound, hall⟩, hids⟩
    obtain ⟨memory, hmemory⟩ := KindConfig.hasValidWidth_iff.1 hsound.width
    have hfits : Fits config.connected ⟨config.device memory, []⟩ :=
      ⟨hall, hsound.connected, fun _ _ => rfl, hids⟩
    obtain ⟨top, htop⟩ := (hbelow _ (by simp [hstart])).2 hfits
    exact ⟨top.toTree, build_eq_ok_iff.2 ⟨hsound.id, memory, top, hmemory, htop, rfl⟩⟩

-- After one device is connected, the others find its index taken and all else as before.
theorem get?_eq_none_iff_of_connect {tree : DeviceTree} {next : BusMaster κ}
    (hconnect : master.connect config.index tree = .ok next) (index : UInt8) :
    next.bus.get? index = none ↔ index ≠ config.index ∧ master.bus.get? index = none := by
  obtain ⟨_, hfree, _, rfl⟩ := BusMaster.connect_eq_ok_iff.1 hconnect
  rw [Bus.get?_insert _ _ _ _ hfree]
  by_cases h : index = config.index <;> simp [h]

-- After a device is connected, it remains to connect the others.
theorem fits_cons_iff_of_connect {tree : DeviceTree} {next : BusMaster κ}
    (htree : tree.ids.Perm (config.id :: idsOf config.connected))
    (hsound : ∀ device ∈ config.all, device.Sound)
    (hconnect : master.connect config.index tree = .ok next) :
    Fits (config :: rest) master ↔ Fits rest next := by
  obtain ⟨_, hfree, _, _⟩ := BusMaster.connect_eq_ok_iff.1 hconnect
  have hbus := get?_eq_none_iff_of_connect hconnect
  have hids := (perm_ids_connect_append htree hconnect rest).nodup_iff
  constructor
  · intro h
    obtain ⟨hnew, hindexes⟩ := List.nodup_cons.1 h.indexes
    refine ⟨fun device hdevice => h.sound device ?_, hindexes, fun other hother => ?_,
      hids.2 h.ids⟩
    · rw [allOf]
      exact List.mem_append_right _ hdevice
    · refine (hbus _).2 ⟨fun hsame => ?_, h.free other (List.mem_cons_of_mem _ hother)⟩
      exact hnew (List.mem_map.2 ⟨other, hother, hsame⟩)
  · intro h
    refine ⟨?_, List.nodup_cons.2 ⟨fun hmem => ?_, h.indexes⟩, ?_, hids.1 h.ids⟩
    · rw [allOf]
      exact List.forall_mem_append.2 ⟨hsound, h.sound⟩
    · obtain ⟨other, hother, hsame⟩ := List.mem_map.1 hmem
      exact ((hbus _).1 (h.free other hother)).1 hsame
    · exact List.forall_mem_cons.2 ⟨hfree, fun other hother =>
        ((hbus _).1 (h.free other hother)).2⟩

-- A device that fits can be connected once it is built.
theorem exists_connect_of_fits {tree : DeviceTree}
    (htree : tree.ids.Perm (config.id :: idsOf config.connected)) (hindex : config.index ≠ 0)
    (hfits : Fits (config :: rest) master) :
    ∃ next, master.connect config.index tree = .ok next := by
  have hids := hfits.ids
  rw [idsOf_cons, ← List.append_assoc] at hids
  obtain ⟨_, _, hnew⟩ := List.nodup_append.1 (List.nodup_append.1 hids).1
  refine ⟨_, BusMaster.connect_eq_ok_iff.2
    ⟨hindex, hfits.free config List.mem_cons_self, fun id hid hhere => ?_, rfl⟩⟩
  exact hnew id hhere id (htree.mem_iff.1 hid) rfl

theorem exists_connectAll_iff [Generator] (configs : List DeviceConfig) :
    ∀ {κ : Type} (master : BusMaster κ), master.ids.Nodup →
      ((∃ after, master.connectAll (buildAll configs) = .ok after) ↔ Fits configs master) := by
  induction configs using DeviceConfig.induction with
  | nil =>
    intro κ master hids
    constructor
    · intro _
      exact ⟨by simp [allOf], .nil, by simp, by simpa [idsOf, allOf] using hids⟩
    · intro _
      exact ⟨master, rfl⟩
  | cons config rest ihBelow ihBeside =>
    intro κ master hids
    simp only [connectAll_buildAll_cons]
    constructor
    · rintro ⟨after, tree, next, hbuild, hconnect, hrest⟩
      obtain ⟨hindex, _, _, _⟩ := BusMaster.connect_eq_ok_iff.1 hconnect
      obtain ⟨hsound, hbrought⟩ := (exists_build_iff hindex ihBelow).1 ⟨tree, hbuild⟩
      have htree := perm_ids_build hbuild
      have hnext := BusMaster.nodup_ids_connect hids (htree.nodup_iff.2 hbrought) hconnect
      exact (fits_cons_iff_of_connect htree hsound hconnect).2
        ((ihBeside next hnext).1 ⟨after, hrest⟩)
    · intro hfits
      have hsound : ∀ device ∈ config.all, device.Sound := fun device hdevice =>
        hfits.sound device (by rw [allOf]; exact List.mem_append_left _ hdevice)
      have hown : config.Sound := hsound config (by rw [all_eq]; exact List.mem_cons_self)
      have hbrought : (config.id :: idsOf config.connected).Nodup := by
        have hids' := (List.nodup_append.1 hfits.ids).2.1
        rw [idsOf_cons] at hids'
        exact (List.nodup_append.1 hids').1
      obtain ⟨tree, hbuild⟩ := (exists_build_iff hown.index ihBelow).2 ⟨hsound, hbrought⟩
      have htree := perm_ids_build hbuild
      obtain ⟨next, hconnect⟩ := exists_connect_of_fits htree hown.index hfits
      have hnext := BusMaster.nodup_ids_connect hids (htree.nodup_iff.2 hbrought) hconnect
      obtain ⟨after, hrest⟩ := (ihBeside next hnext).2
        ((fits_cons_iff_of_connect htree hsound hconnect).1 hfits)
      exact ⟨after, tree, next, hbuild, hconnect, hrest⟩

end DeviceConfig

end MicroCisc
