import MicroCisc.Proofs.Config.Build
import MicroCisc.Proofs.Device.Locations

namespace MicroCisc

namespace Location

variable {location : Location} {entered : List Location}

theorem mem_of_mem_enter {other : Location} (h : other ∈ location.enter entered) :
    other = location ∨ other ∈ entered := by
  induction entered with
  | nil => simpa [enter] using h
  | cons first rest ih =>
    simp only [enter, beq_iff_eq] at h
    split at h
    · exact List.mem_cons.1 h
    · split at h
      · rcases List.mem_cons.1 h with heq | hrest
        · exact .inl heq
        · exact .inr (List.mem_cons_of_mem _ hrest)
      · rcases List.mem_cons.1 h with heq | hlater
        · exact .inr (heq ▸ List.mem_cons_self)
        · exact (ih hlater).imp_right (List.mem_cons_of_mem _)

theorem pairwise_enter (h : entered.Pairwise fun a b => a.id < b.id) (location : Location) :
    (location.enter entered).Pairwise fun a b => a.id < b.id := by
  induction entered with
  | nil => exact List.pairwise_singleton _ _
  | cons first rest ih =>
    obtain ⟨hfirst, hrest⟩ := List.pairwise_cons.1 h
    simp only [enter, beq_iff_eq]
    split
    · next hless =>
      refine List.pairwise_cons.2 ⟨List.forall_mem_cons.2 ⟨hless, fun other hother => ?_⟩, h⟩
      exact UInt16.lt_trans hless (hfirst other hother)
    · next hnot =>
      split
      · next hsame => exact List.pairwise_cons.2 ⟨fun other hother => hsame ▸ hfirst other hother, hrest⟩
      · next hne =>
        have hmore : first.id < location.id :=
          UInt16.lt_of_le_of_ne (UInt16.not_lt.1 hnot) (Ne.symm hne)
        refine List.pairwise_cons.2 ⟨fun other hother => ?_, ih hrest⟩
        rcases mem_of_mem_enter hother with rfl | hlater
        · exact hmore
        · exact hfirst other hlater

-- No entry gives way to one under another id.
theorem perm_enter (hnew : location.id ∉ entered.map (·.id)) :
    (location.enter entered).Perm (location :: entered) := by
  induction entered with
  | nil => exact .refl _
  | cons first rest ih =>
    obtain ⟨hne, hrest⟩ := not_or.1 (mt List.mem_cons.2 hnew)
    simp only [enter, beq_iff_eq, if_neg hne]
    split
    · exact .refl _
    · exact ((ih hrest).cons first).trans (.swap ..)

theorem perm_foldl_enter {locations : List Location}
    (hids : ((entered ++ locations).map (·.id)).Nodup) :
    (locations.foldl (fun entered location => location.enter entered) entered).Perm
      (entered ++ locations) := by
  induction locations generalizing entered with
  | nil => rw [List.append_nil, List.foldl_nil]
  | cons first rest ih =>
    have hmiddle : (entered ++ first :: rest).Perm (first :: entered ++ rest) := List.perm_middle
    have hids' := ((hmiddle.map (·.id)).nodup_iff).1 hids
    have hnew : first.id ∉ entered.map (·.id) := fun hmem => by
      rw [List.cons_append, List.map_cons, List.nodup_cons, List.map_append] at hids'
      exact hids'.1 (List.mem_append_left _ hmem)
    have hfirst := (perm_enter hnew).append_right rest
    exact (ih (((hfirst.map (·.id)).nodup_iff).2 hids')).trans (hfirst.trans hmiddle.symm)

theorem pairwise_foldl_enter (h : entered.Pairwise fun a b => a.id < b.id)
    (locations : List Location) :
    (locations.foldl (fun entered location => location.enter entered) entered).Pairwise
      fun a b => a.id < b.id := by
  induction locations generalizing entered with
  | nil => exact h
  | cons first rest ih => exact ih (pairwise_enter h first)

end Location

/-! ### What a build enters -/

def KindConfig.isSerial : KindConfig → Bool
  | .serial _ _ => true
  | _ => false

def KindConfig.isTerminal : KindConfig → Bool
  | .terminal => true
  | _ => false

-- The locations that are entered for certain kinds of devices.
def entriesOf (wanted : KindConfig → Bool) (entries : List (KindConfig × Location)) :
    List Location :=
  (entries.filter (wanted ·.1)).map (·.2)

theorem entriesOf_append (wanted : KindConfig → Bool)
    (entries later : List (KindConfig × Location)) :
    entriesOf wanted (entries ++ later) = entriesOf wanted entries ++ entriesOf wanted later := by
  rw [entriesOf, List.filter_append, List.map_append]
  rfl

namespace Ports

variable (ports : Ports) (entries : List (KindConfig × Location))

theorem serialLines_enterAll :
    (ports.enterAll entries).serialLines =
      (entriesOf KindConfig.isSerial entries).foldl (fun entered location => location.enter entered)
        ports.serialLines := by
  induction entries generalizing ports with
  | nil => rfl
  | cons entry rest ih =>
    obtain ⟨kind, location⟩ := entry
    rw [enterAll_cons, ih]
    cases kind <;> rfl

theorem terminals_enterAll :
    (ports.enterAll entries).terminals =
      (entriesOf KindConfig.isTerminal entries).foldl
        (fun entered location => location.enter entered) ports.terminals := by
  induction entries generalizing ports with
  | nil => rfl
  | cons entry rest ih =>
    obtain ⟨kind, location⟩ := entry
    rw [enterAll_cons, ih]
    cases kind <;> rfl

end Ports

/-! ### What stands in the tree -/

theorem Bus.perm_locations_insert (wanted : Kind → Bool) (path : List UInt8) (index : UInt8)
    (tree : DeviceTree) (bus : Bus) :
    ((Bus.insert index tree bus).locations wanted path).Perm
      (tree.locations wanted (path ++ [index]) ++ bus.locations wanted path) := by
  induction bus with
  | nil => exact .refl _
  | cons first rest ih =>
    obtain ⟨i, other⟩ := first
    simp only [insert]
    split
    · exact .refl _
    · simp only [locations]
      exact (ih.append_left _).trans (List.perm_append_comm_assoc ..)

-- The devices of certain kinds that a configuration describes are those that stand in the tree.
theorem DeviceConfig.perm_locations_connectAll [Generator] {wanted : Kind → Bool}
    {chosen : KindConfig → Bool} (hchosen : ∀ kind : KindConfig, wanted kind.initialKind = chosen kind)
    (configs : List DeviceConfig) :
    ∀ {κ : Type} {master after : BusMaster κ} (path : List UInt8),
      master.connectAll (buildAll configs) = .ok after →
      (after.bus.locations wanted path).Perm
        (entriesOf chosen (entriesBelow path configs) ++ master.bus.locations wanted path) := by
  induction configs using DeviceConfig.induction with
  | nil =>
    intro κ master after path hall
    cases hall
    exact .refl _
  | cons config rest ihBelow ihBeside =>
    intro κ master after path hall
    obtain ⟨tree, next, hbuild, hconnect, hrest⟩ := connectAll_buildAll_cons.1 hall
    obtain ⟨_, memory, top, _, htop, rfl⟩ := build_eq_ok_iff.1 hbuild
    obtain ⟨_, _, _, rfl⟩ := BusMaster.connect_eq_ok_iff.1 hconnect
    have hdevice := BusMaster.device_connectAll htop
    have hbelow := ihBelow (path ++ [config.index]) htop
    have htree : ((top.toTree.placedAt config.index).locations wanted (path ++ [config.index])).Perm
        (entriesOf chosen (config.entries (path ++ [config.index]))) := by
      obtain ⟨index, id, kind, connected⟩ := config
      obtain ⟨device, bus⟩ := top
      subst hdevice
      rw [BusMaster.toTree, DeviceTree.placedAt, DeviceTree.mapDevice, DeviceTree.locations, entries,
        entriesOf, List.filter_cons]
      simp only [Bus.locations, List.append_nil] at hbelow
      simp only [DeviceConfig.device, hchosen]
      split
      · exact hbelow.cons _
      · exact hbelow
    have hinsert := (Bus.perm_locations_insert wanted path config.index
      (top.toTree.placedAt config.index) master.bus).trans (htree.append_right _)
    rw [entriesBelow, entriesOf_append, List.append_assoc]
    refine (ihBeside path hrest).trans ((hinsert.append_left _).trans ?_)
    exact List.perm_append_comm_assoc ..

namespace Machine

-- Where devices of certain kinds stand, in the order of their ids.
def sortedLocations (wanted : Kind → Bool) (bus : Bus) : List Location :=
  (bus.locations wanted []).mergeSort fun a b => a.id ≤ b.id

variable {wanted : Kind → Bool} {bus : Bus} {location : Location}

theorem mem_sortedLocations (hindexes : bus.DistinctIndexes) :
    location ∈ sortedLocations wanted bus ↔
      ∃ device, bus.deviceAt? location.path = some device ∧ device.id = location.id ∧
        wanted device.kind = true := by
  rw [sortedLocations, List.mem_mergeSort, Bus.mem_locations [] bus hindexes]
  simp

theorem pairwise_sortedLocations (hids : bus.ids.Nodup) :
    (sortedLocations wanted bus).Pairwise fun a b => a.id < b.id := by
  have hperm := List.mergeSort_perm (bus.locations wanted []) fun a b => a.id ≤ b.id
  have hdistinct : (sortedLocations wanted bus).Pairwise fun a b => a.id ≠ b.id := by
    rw [← List.pairwise_map]
    exact (hperm.map (·.id)).nodup_iff.2 (hids.sublist (Bus.ids_locations wanted [] bus))
  have htrans (a b c : Location) (hab : decide (a.id ≤ b.id) = true)
      (hbc : decide (b.id ≤ c.id) = true) : decide (a.id ≤ c.id) = true :=
    decide_eq_true (UInt16.le_trans (of_decide_eq_true hab) (of_decide_eq_true hbc))
  have htotal (a b : Location) : (decide (a.id ≤ b.id) || decide (b.id ≤ a.id)) = true := by
    simpa using UInt16.le_total a.id b.id
  have hsorted := List.pairwise_mergeSort htrans htotal (bus.locations wanted [])
  refine (hsorted.and hdistinct).imp fun h => ?_
  exact UInt16.lt_of_le_of_ne (of_decide_eq_true h.1) h.2

-- What is entered device by device ends in the order of the ids, with nothing lost.
theorem foldl_enter_eq_sortedLocations {locations : List Location} (hids : bus.ids.Nodup)
    (hperm : (bus.locations wanted []).Perm locations) :
    locations.foldl (fun entered location => location.enter entered) [] =
      sortedLocations wanted bus := by
  have hdistinct : (locations.map (·.id)).Nodup :=
    (hperm.map (·.id)).nodup_iff.1 (hids.sublist (Bus.ids_locations wanted [] bus))
  have hentered : (locations.foldl (fun entered location => location.enter entered) []).Perm
      locations := Location.perm_foldl_enter hdistinct
  have hsorted : (sortedLocations wanted bus).Perm (bus.locations wanted []) :=
    List.mergeSort_perm _ _
  have hsame := hentered.trans (hperm.symm.trans hsorted.symm)
  refine List.Perm.eq_of_pairwise (fun a b _ _ hab hba => ?_)
    (Location.pairwise_foldl_enter List.Pairwise.nil locations) (pairwise_sortedLocations hids) hsame
  exact absurd hba (UInt16.lt_asymm hab)

end Machine

-- The ports of a machine that could be built are those of the devices that stand in its tree. No
-- entry has been overwritten.
theorem MachineConfig.ports_eq [Generator] {config : MachineConfig}
    {start master : BusMaster Registers} (hstart : start.bus = [])
    (hall : start.connectAll (DeviceConfig.buildAll config.devices) = .ok master)
    (hids : master.bus.ids.Nodup) :
    config.ports =
      ⟨Machine.sortedLocations Kind.isSerial master.bus,
        Machine.sortedLocations Kind.isTerminal master.bus⟩ := by
  have hserial (kind : KindConfig) : kind.initialKind.isSerial = kind.isSerial := by
    cases kind <;> rfl
  have hterminal (kind : KindConfig) : kind.initialKind.isTerminal = kind.isTerminal := by
    cases kind <;> rfl
  have hlines := DeviceConfig.perm_locations_connectAll hserial config.devices [] hall
  have hdisplays := DeviceConfig.perm_locations_connectAll hterminal config.devices [] hall
  rw [hstart, Bus.locations, List.append_nil] at hlines hdisplays
  have hports : config.ports = ⟨config.ports.serialLines, config.ports.terminals⟩ := rfl
  rw [hports, MachineConfig.ports, Ports.serialLines_enterAll, Ports.terminals_enterAll]
  exact congrArg₂ Ports.mk (Machine.foldl_enter_eq_sortedLocations hids hlines)
    (Machine.foldl_enter_eq_sortedLocations hids hdisplays)

end MicroCisc
