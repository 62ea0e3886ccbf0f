import MicroCisc.Proofs.Config.Build

namespace MicroCisc

theorem Bus.insert_comm {index index' : UInt8} (hne : index ≠ index') (tree tree' : DeviceTree)
    (bus : Bus) :
    Bus.insert index tree (Bus.insert index' tree' bus) =
      Bus.insert index' tree' (Bus.insert index tree bus) := by
  induction bus with
  | nil => grind [insert]
  | cons first rest ih => grind [insert]

variable {κ : Type} {master next after : BusMaster κ}

theorem BusMaster.connect_comm {index index' : UInt8} {tree tree' : DeviceTree}
    (hconnect : master.connect index tree = .ok next)
    (hconnect' : next.connect index' tree' = .ok after) :
    ∃ other, master.connect index' tree' = .ok other ∧ other.connect index tree = .ok after := by
  have hids := perm_ids_connect hconnect
  obtain ⟨hindex, hfree, hnew, rfl⟩ := connect_eq_ok_iff.1 hconnect
  obtain ⟨hindex', hfree', hnew', rfl⟩ := connect_eq_ok_iff.1 hconnect'
  rw [Bus.get?_insert _ _ _ _ hfree] at hfree'
  have hne : index' ≠ index := by
    rintro rfl
    simp at hfree'
  rw [if_neg hne] at hfree'
  have hapart : ∀ id ∈ tree'.ids, id ∉ tree.ids ∧ id ∉ master.ids := by
    intro id hid
    simpa [not_or] using mt hids.mem_iff.2 (hnew' id hid)
  have hother := connect_eq_ok_iff.2 ⟨hindex', hfree', fun id hid => (hapart id hid).2, rfl⟩
  refine ⟨_, hother, connect_eq_ok_iff.2 ⟨hindex, ?_, fun id hid hhere => ?_, ?_⟩⟩
  · rw [Bus.get?_insert _ _ _ _ hfree', if_neg hne.symm]
    exact hfree
  · rw [(perm_ids_connect hother).mem_iff, List.mem_append] at hhere
    obtain hhere | hhere := hhere
    · exact (hapart id hhere).1 hid
    · exact hnew id hid hhere
  · rw [Bus.insert_comm hne]

namespace DeviceConfig

theorem connectAll_reordered [Generator] {configs configs' : List DeviceConfig}
    (h : Reordered configs configs') :
    ∀ {κ : Type} {master after : BusMaster κ}, master.connectAll (buildAll configs) = .ok after →
      master.connectAll (buildAll configs') = .ok after := by
  induction h with
  | nil => exact fun hall => hall
  | @cons index id kind connected connected' rest rest' _ _ ihBelow ihBeside =>
    intro κ master after hall
    obtain ⟨tree, next, hbuild, hconnect, hrest⟩ := connectAll_buildAll_cons.1 hall
    obtain ⟨hid, memory, top, hmemory, htop, htree⟩ := build_eq_ok_iff.1 hbuild
    have hbuild' : DeviceConfig.build ⟨index, id, kind, connected'⟩ = .ok tree :=
      build_eq_ok_iff.2 ⟨hid, memory, top, hmemory, ihBelow htop, htree⟩
    exact connectAll_buildAll_cons.2 ⟨tree, next, hbuild', hconnect, ihBeside hrest⟩
  | swap first second rest =>
    intro κ master after hall
    obtain ⟨tree, next, hbuild, hconnect, hall'⟩ := connectAll_buildAll_cons.1 hall
    obtain ⟨tree', between, hbuild', hconnect', hrest⟩ := connectAll_buildAll_cons.1 hall'
    obtain ⟨other, hother, hback⟩ := BusMaster.connect_comm hconnect hconnect'
    exact connectAll_buildAll_cons.2 ⟨tree', other, hbuild', hother,
      connectAll_buildAll_cons.2 ⟨tree, between, hbuild, hback, hrest⟩⟩
  | trans _ _ ihLeft ihRight => exact fun hall => ihRight (ihLeft hall)

end DeviceConfig

end MicroCisc
