import MicroCisc.Config.Printer
import MicroCisc.Config.Reader
import MicroCisc.Proofs.Json.Reading

namespace MicroCisc

open Json (Clean Plain PlainScalar)

/-! ### Scalars -/

theorem Json.byte?_toNat (value : UInt8) : Json.byte? (.natural value.toNat) = some value := by
  simp [Json.byte?, Json.natural?, UInt8.toNat_lt_size]

theorem Json.word?_toNat (value : Word) : Json.word? (.natural value.toNat) = some value := by
  simp [Json.word?, Json.natural?, UInt16.toNat_lt_size]

theorem Json.natural32?_toNat (value : UInt32) :
    Json.natural32? (.natural value.toNat) = some value := by
  simp [Json.natural32?, Json.natural?, UInt32.toNat_lt_size]

theorem Json.natural64?_toNat (value : UInt64) :
    Json.natural64? (.natural value.toNat) = some value := by
  simp [Json.natural64?, Json.natural?, UInt64.toNat_lt_size]

theorem plain_byte (value : UInt8) : PlainScalar (.natural value.toNat) :=
  .natural (Nat.lt_trans value.toNat_lt_size (by decide))

theorem plain_word (value : Word) : PlainScalar (.natural value.toNat) :=
  .natural (Nat.lt_trans value.toNat_lt_size (by decide))

theorem plain_natural32 (value : UInt32) : PlainScalar (.natural value.toNat) :=
  .natural (Nat.lt_trans value.toNat_lt_size (by decide))

theorem plain_natural64 (value : UInt64) : PlainScalar (.natural value.toNat) :=
  .natural value.toNat_lt_size

/-! ### The kind of a device -/

namespace Fill

theorem ofJson?_toJson (fill : Fill) : ofJson? fill.toJson = some fill := by
  cases fill with
  | fixed byte =>
    show Fill.fixed <$> Json.byte? (.natural byte.toNat) = _
    rw [Json.byte?_toNat]
    rfl
  | seeded seed =>
    show Fill.seeded <$> Json.natural64? (.natural seed.toNat) = _
    rw [Json.natural64?_toNat]
    rfl

theorem plain_toJson (fill : Fill) : Plain fill.toJson := by
  cases fill with
  | fixed byte =>
    refine .object (by simp only [List.forall_mem_cons]; decide) ?_
    simp only [List.forall_mem_cons]
    exact ⟨.scalar (.text (by decide)), .scalar (plain_byte byte), List.forall_mem_nil _⟩
  | seeded seed =>
    refine .object (by simp only [List.forall_mem_cons]; decide) ?_
    simp only [List.forall_mem_cons]
    exact ⟨.scalar (.text (by decide)), .scalar (plain_natural64 seed), List.forall_mem_nil _⟩

end Fill

namespace KindConfig

theorem ofMembers?_toMembers (kind : KindConfig) : ofMembers? kind.toMembers = some kind := by
  cases kind with
  | serial baud fill =>
    show (Json.natural32? (.natural baud.toNat) >>= fun baud =>
      Fill.ofJson? fill.toJson >>= fun fill => some (KindConfig.serial baud fill)) = _
    rw [Json.natural32?_toNat, Fill.ofJson?_toJson]
    rfl
  | terminal => rfl
  | leds => rfl
  | memory width =>
    show KindConfig.memory <$> Json.byte? (.natural width.toNat) = _
    rw [Json.byte?_toNat]
    rfl
  | processor width =>
    show KindConfig.processor <$> Json.byte? (.natural width.toNat) = _
    rw [Json.byte?_toNat]
    rfl

-- The members that tell the kind of a device are none of its others.
theorem names_toMembers (kind : KindConfig) :
    ∀ member ∈ kind.toMembers, Clean member.1 ∧ member.1 ∉ ["index", "id", "connected"] := by
  have hnames : kind.toMembers.map (·.1) ∈
      [["type"], ["type", "baud", "fill"], ["type", "address_width"]] := by
    cases kind <;> simp [toMembers]
  have hall : ∀ names ∈ [["type"], ["type", "baud", "fill"], ["type", "address_width"]],
      ∀ name ∈ names, Clean name ∧ name ∉ ["index", "id", "connected"] := by decide
  exact fun member hmember => hall _ hnames member.1 (List.mem_map_of_mem hmember)

theorem plain_toMembers (kind : KindConfig) : ∀ member ∈ kind.toMembers, Plain member.2 := by
  have htype : ∀ {type}, Clean type → Plain (.text type) := fun htype => .scalar (.text htype)
  cases kind with
  | serial baud fill =>
    simp only [toMembers, List.forall_mem_cons]
    exact ⟨htype (by decide), .scalar (plain_natural32 baud), fill.plain_toJson,
      List.forall_mem_nil _⟩
  | terminal => simpa [toMembers] using htype (by decide)
  | leds => simpa [toMembers] using htype (by decide)
  | memory width =>
    simp only [toMembers, List.forall_mem_cons]
    exact ⟨htype (by decide), .scalar (plain_byte width), List.forall_mem_nil _⟩
  | processor width =>
    simp only [toMembers, List.forall_mem_cons]
    exact ⟨htype (by decide), .scalar (plain_byte width), List.forall_mem_nil _⟩

end KindConfig

/-! ### Devices -/

namespace DeviceConfig

-- The devices on a device's bus are left out if there are none.
def connectedMembers (connected : List DeviceConfig) : List (String × Json) :=
  if connected.isEmpty then [] else [("connected", .list (listToJson connected))]

def members (index : UInt8) (id : Word) (kind : KindConfig) (connected : List DeviceConfig) :
    List (String × Json) :=
  [("index", .natural index.toNat), ("id", .natural id.toNat)] ++
    (kind.toMembers ++ connectedMembers connected)

theorem toJson_eq (index : UInt8) (id : Word) (kind : KindConfig) (connected : List DeviceConfig) :
    toJson ⟨index, id, kind, connected⟩ = .object (members index id kind connected) := by
  rw [members, ← List.append_assoc]
  cases connected with
  | nil => rfl
  | cons config rest => simp only [toJson]; rfl

-- By induction on the tree: all that is written for a device is plain.
mutual

theorem plain_toJson (config : DeviceConfig) : Plain config.toJson := by
  obtain ⟨index, id, kind, connected⟩ := config
  have hlist := plain_listToJson connected
  rw [toJson_eq]
  refine .object ?_ ?_
  · simp only [members, List.forall_mem_append, List.forall_mem_cons]
    refine ⟨⟨by decide, by decide, List.forall_mem_nil _⟩, ?_, ?_⟩
    · exact fun member hmember => (kind.names_toMembers member hmember).1
    · unfold connectedMembers
      split
      · exact List.forall_mem_nil _
      · exact List.forall_mem_singleton.2 (show Clean "connected" by decide)
  · simp only [members, List.forall_mem_append, List.forall_mem_cons]
    refine ⟨⟨.scalar (plain_byte index), .scalar (plain_word id), List.forall_mem_nil _⟩,
      kind.plain_toMembers, ?_⟩
    unfold connectedMembers
    split
    · exact List.forall_mem_nil _
    · exact List.forall_mem_singleton.2 (.list hlist)

theorem plain_listToJson (configs : List DeviceConfig) :
    ∀ item ∈ listToJson configs, Plain item := by
  match configs with
  | [] => exact List.forall_mem_nil _
  | config :: rest => exact List.forall_mem_cons.2 ⟨config.plain_toJson, plain_listToJson rest⟩

end

theorem readMembers_cons {parts next : DeviceParts} {name : String} {value : JsonInput}
    (hname : name ≠ "connected") (hadd : parts.add name value = .ok next)
    (rest : List (Except JsonError String × JsonInput)) :
    readMembers parts ((.ok name, value) :: rest) = readMembers next rest := by
  simp only [readMembers, bind, Except.bind, beq_iff_eq, hname, if_false, hadd]

end DeviceConfig

namespace DeviceParts

theorem add_index (index : UInt8) :
    DeviceParts.empty.add "index" (.scalar (.natural index.toNat)) =
      .ok ⟨some index, none, none, []⟩ := by
  simp only [add, JsonInput.scalarAs, Json.byte?_toNat]
  rfl

theorem add_id (index : UInt8) (id : Word) :
    (⟨some index, none, none, []⟩ : DeviceParts).add "id" (.scalar (.natural id.toNat)) =
      .ok ⟨some index, some id, none, []⟩ := by
  simp only [add, JsonInput.scalarAs, Json.word?_toNat]
  rfl

theorem add_other (parts : DeviceParts) {name : String} (hname : name ∉ ["index", "id", "connected"])
    (value : Json) :
    parts.add name (.ofJson value) =
      .ok { parts with others := (name, value) :: parts.others } := by
  unfold add
  split
  · simp at hname
  · simp at hname
  · rw [JsonInput.keep_ofJson]
    rfl

end DeviceParts

namespace DeviceConfig

-- All members but those with a place of their own are kept, the last one first.
theorem readMembers_others {members : List (String × Json)}
    (hnames : ∀ member ∈ members, member.1 ∉ ["index", "id", "connected"]) (parts : DeviceParts)
    (rest : List (Except JsonError String × JsonInput)) :
    readMembers parts (JsonInput.ofMembers members ++ rest) =
      readMembers { parts with others := members.reverse ++ parts.others } rest := by
  induction members generalizing parts with
  | nil => rfl
  | cons member others ih =>
    obtain ⟨name, value⟩ := member
    obtain ⟨hname, hnames⟩ := List.forall_mem_cons.1 hnames
    have hconnected : name ≠ "connected" := by
      rintro rfl
      simp at hname
    have hadd := parts.add_other hname value
    rw [JsonInput.ofMembers, List.cons_append, readMembers_cons hconnected hadd, ih hnames,
      List.reverse_cons, List.append_assoc]
    rfl

-- A device is read back if those on its bus are.
theorem read_toJson_of_connected (index : UInt8) (id : Word) (kind : KindConfig)
    (connected : List DeviceConfig)
    (h : readItems [] (JsonInput.ofItems (listToJson connected)) = .ok connected) :
    read (.ofJson (toJson ⟨index, id, kind, connected⟩)) = .ok ⟨index, id, kind, connected⟩ := by
  have hnames : ∀ member ∈ kind.toMembers, member.1 ∉ ["index", "id", "connected"] :=
    fun member hmember => (kind.names_toMembers member hmember).2
  have hkind := kind.ofMembers?_toMembers
  have hbelow : readMembers ⟨some index, some id, none, kind.toMembers.reverse ++ []⟩
      (JsonInput.ofMembers (connectedMembers connected)) =
        .ok ⟨some index, some id, if connected.isEmpty then none else some connected,
          kind.toMembers.reverse ++ []⟩ := by
    cases connected with
    | nil => rfl
    | cons config rest =>
      simp [connectedMembers, JsonInput.ofMembers, JsonInput.ofJson, readMembers, readList, h, bind,
        Except.bind, pure, Except.pure]
  have hparts : readMembers .empty (JsonInput.ofMembers (members index id kind connected)) =
      .ok ⟨some index, some id, if connected.isEmpty then none else some connected,
        kind.toMembers.reverse ++ []⟩ := by
    rw [members, JsonInput.ofMembers_append, JsonInput.ofMembers_append]
    show readMembers .empty ((.ok "index", .scalar (.natural index.toNat)) ::
      (.ok "id", .scalar (.natural id.toNat)) :: (JsonInput.ofMembers kind.toMembers ++
        JsonInput.ofMembers (connectedMembers connected))) = _
    rw [readMembers_cons (by decide) (DeviceParts.add_index index),
      readMembers_cons (by decide) (DeviceParts.add_id index id), readMembers_others hnames, hbelow]
  rw [toJson_eq, JsonInput.ofJson, read, hparts]
  cases connected <;> simp [DeviceParts.toConfig?, hkind, bind, Except.bind, pure, Except.pure]

-- By induction on the tree: what is written for a device or a list of devices is read back.
mutual

theorem read_toJson (config : DeviceConfig) : read (.ofJson config.toJson) = .ok config := by
  obtain ⟨index, id, kind, connected⟩ := config
  exact read_toJson_of_connected index id kind connected (readItems_listToJson connected [])

theorem readItems_listToJson (configs found : List DeviceConfig) :
    readItems found (JsonInput.ofItems (listToJson configs)) = .ok (found.reverse ++ configs) := by
  match configs with
  | [] => simp [listToJson, JsonInput.ofItems, readItems, pure, Except.pure]
  | config :: rest =>
    have hrest := readItems_listToJson rest (config :: found)
    rw [listToJson, JsonInput.ofItems, readItems, config.read_toJson]
    simpa [bind, Except.bind] using hrest

end

end DeviceConfig

/-! ### The machine and its processor -/

namespace Field

variable {α σ : Type} {fields : List (Field σ)}

theorem find?_name (hnodup : (fields.map (·.name)).Nodup) {field : Field σ} (hfield : field ∈ fields) :
    fields.find? (·.name == field.name) = some field := by
  induction fields with
  | nil => cases hfield
  | cons first rest ih =>
    rw [List.map_cons, List.nodup_cons] at hnodup
    rcases List.mem_cons.1 hfield with rfl | hrest
    · exact List.find?_cons_of_pos (beq_self_eq_true _)
    · have hne : first.name ≠ field.name :=
        fun heq => hnodup.1 (heq ▸ List.mem_map_of_mem hrest)
      rw [List.find?_cons, beq_false_of_ne hne]
      exact ih hnodup.2 hrest

-- The members that are written for some fields, each with its value.
def members (entries : List (Field σ × Json)) : List (String × Json) :=
  entries.map fun entry => (entry.1.name, entry.2)

-- One field after another takes its value, from a state to another one.
inductive Takes : List (Field σ × Json) → σ → σ → Prop where
  | nil (state : σ) : Takes [] state state
  | cons {field : Field σ} {value : Json} {rest : List (Field σ × Json)} {state next last : σ}
      (hfield : field.read state (.ofJson value) = .ok next) (hrest : Takes rest next last) :
      Takes ((field, value) :: rest) state last

theorem Takes.readMembers_eq {entries : List (Field σ × Json)} {state last : σ}
    (h : Takes entries state last) (hnodup : (fields.map (·.name)).Nodup)
    (hentries : ∀ entry ∈ entries, entry.1 ∈ fields)
    (hnames : (entries.map (·.1.name)).Nodup) (seen : List String)
    (hseen : ∀ entry ∈ entries, entry.1.name ∉ seen) :
    readMembers fields seen (JsonInput.ofMembers (members entries)) state = .ok last := by
  induction h generalizing seen with
  | nil state => rfl
  | @cons field value rest state next last hfield _ ih =>
    obtain ⟨hmem, hentries⟩ := List.forall_mem_cons.1 hentries
    obtain ⟨hnew, hseen⟩ := List.forall_mem_cons.1 hseen
    obtain ⟨hapart, hnames⟩ := List.nodup_cons.1 hnames
    have hfind := find?_name hnodup hmem
    have hrest := ih hentries hnames (field.name :: seen) fun entry hentry =>
      List.not_mem_cons_of_ne_of_not_mem
        (fun heq => hapart (List.mem_map.2 ⟨entry, hentry, heq⟩)) (hseen entry hentry)
    show readMembers fields seen
      ((.ok field.name, .ofJson value) :: JsonInput.ofMembers (members rest)) state = _
    simpa [readMembers, bind, Except.bind, hfind, hnew, hfield] using hrest

-- An object that holds every field in order is read back if each of them is.
theorem Takes.readAll_eq {values : List Json} {state last : σ}
    (h : Takes (fields.zip values) state last) (hvalues : fields.length ≤ values.length)
    (hnodup : (fields.map (·.name)).Nodup) :
    readAll fields state (.ofJson (.object (members (fields.zip values)))) = .ok last := by
  have hfields : ∀ entry ∈ fields.zip values, entry.1 ∈ fields :=
    fun _ hentry => (List.of_mem_zip hentry).1
  have hnames : (fields.zip values).map (·.1.name) = fields.map (·.name) := by
    have hfirst := congrArg (List.map (·.name)) (List.map_fst_zip hvalues)
    rwa [List.map_map] at hfirst
  have hmembers := h.readMembers_eq hnodup hfields (hnames ▸ hnodup) [] (fun _ _ => List.not_mem_nil)
  rw [JsonInput.ofJson, readAll, hmembers]
  rfl

theorem read_ofScalar {value : Json} (hvalue : PlainScalar value) {name : String}
    {decode : Json → Option α} {found : α} (hdecode : decode value = some found)
    {put : σ → α → σ} {state : σ} :
    (ofScalar name decode put).read state (.ofJson value) = .ok (put state found) := by
  simp only [ofScalar, JsonInput.ofJson_of_plainScalar hvalue, JsonInput.scalarAs, hdecode]
  rfl

end Field

namespace ProcessorConfig

theorem readAll_toJson (config state : ProcessorConfig) :
    Field.readAll ProcessorConfig.fields state (.ofJson config.toJson) = .ok config := by
  have htakes : Field.Takes (ProcessorConfig.fields.zip
      [.natural config.id.toNat, .natural config.addressWidth.toNat,
        .natural config.startPc.toNat, .natural config.nanosPerInstruction.toNat,
        .bool config.signed, .bool config.rom]) state config :=
    .cons (Field.read_ofScalar (plain_word config.id) (Json.word?_toNat _)) <|
      .cons (Field.read_ofScalar (plain_byte config.addressWidth) (Json.byte?_toNat _)) <|
      .cons (Field.read_ofScalar (plain_word config.startPc) (Json.word?_toNat _)) <|
      .cons (Field.read_ofScalar (plain_natural64 _) (Json.natural64?_toNat _)) <|
      .cons (Field.read_ofScalar (.bool config.signed) (rfl : Json.bool? _ = _)) <|
      .cons (Field.read_ofScalar (.bool config.rom) (rfl : Json.bool? _ = _)) (.nil config)
  exact htakes.readAll_eq (Nat.le_refl _) (by decide)

theorem plain_toJson (config : ProcessorConfig) : Plain config.toJson := by
  refine .object (by simp only [List.forall_mem_cons]; decide) ?_
  simp only [List.forall_mem_cons]
  exact ⟨.scalar (plain_word _), .scalar (plain_byte _), .scalar (plain_word _),
    .scalar (plain_natural64 _), .scalar (.bool _), .scalar (.bool _), List.forall_mem_nil _⟩

end ProcessorConfig

namespace MachineConfig

def limitToJson : Option UInt64 → Json
  | none => .null
  | some limit => .natural limit.toNat

theorem plain_limitToJson (limit : Option UInt64) : PlainScalar (limitToJson limit) := by
  cases limit with
  | none => exact .null
  | some limit => exact plain_natural64 limit

theorem limit?_limitToJson (limit : Option UInt64) : limit? (limitToJson limit) = some limit := by
  cases limit with
  | none => rfl
  | some limit =>
    show (Json.natural64? (.natural limit.toNat)).map some = _
    rw [Json.natural64?_toNat]
    rfl

theorem plain_toJson (config : MachineConfig) : Plain config.toJson := by
  refine .object (by simp only [List.forall_mem_cons]; decide) ?_
  simp only [List.forall_mem_cons]
  exact ⟨config.processor.plain_toJson, .list (DeviceConfig.plain_listToJson config.devices),
    .scalar (plain_limitToJson config.maxCycles), List.forall_mem_nil _⟩

theorem readAll_toJson (config state : MachineConfig) :
    Field.readAll fields state (.ofJson config.toJson) = .ok config := by
  obtain ⟨processor, devices, limit⟩ := config
  have hprocessor : (do return { state with
      processor := ← Field.readAll ProcessorConfig.fields .standard (.ofJson processor.toJson) } :
      Except JsonError MachineConfig) = .ok { state with processor } := by
    rw [processor.readAll_toJson]
    rfl
  have hdevices : (do return { state with
      processor,
      devices := ← DeviceConfig.readList (.ofJson (.list (DeviceConfig.listToJson devices))) } :
      Except JsonError MachineConfig) = .ok { state with processor, devices } := by
    rw [JsonInput.ofJson, DeviceConfig.readList, DeviceConfig.readItems_listToJson]
    rfl
  have hlimit := limit?_limitToJson limit
  have htakes : Field.Takes (fields.zip
      [processor.toJson, .list (DeviceConfig.listToJson devices), limitToJson limit]) state
      ⟨processor, devices, limit⟩ :=
    .cons hprocessor <| .cons hdevices <|
      .cons (Field.read_ofScalar (plain_limitToJson limit) hlimit)
        (.nil (MachineConfig.mk processor devices limit))
  exact htakes.readAll_eq (Nat.le_refl _) (by decide)

-- What is written of a configuration describes it, in any format that finds what it has written,
-- unless the configuration nests deeper than the format allows.
theorem ofText_text [JsonFormat] {maxDepth : Nat} (hformat : JsonFormat.ReadsBack maxDepth)
    (config : MachineConfig) (hdepth : config.toJson.depth ≤ maxDepth) :
    ofText config.text = .ok config := by
  have hfound := hformat config.toJson config.plain_toJson hdepth
  have hread := config.readAll_toJson .standard
  rw [ofText, text, hfound]
  simp only [hread]
  rfl

theorem ofText_text_nested :
    let config : MachineConfig :=
      { processor := { ProcessorConfig.standard with nanosPerInstruction := 0xFFFFFFFFFFFFFFFF }
        devices :=
          [⟨16, 100, .serial 9600 (.seeded 0xFFFFFFFFFFFFFFFF), []⟩,
           ⟨17, 101, .processor 12, [⟨1, 102, .memory 8, []⟩, ⟨2, 103, .leds, []⟩]⟩]
        maxCycles := some 0 }
    JsonFormat.ReadsBack JsonReader.maxDepth ∧ config.toJson.depth ≤ JsonReader.maxDepth ∧
      ofText config.text = .ok config :=
  ⟨Json.readsBack_pretty, by decide, ofText_text Json.readsBack_pretty _ (by decide)⟩

end MachineConfig

end MicroCisc
