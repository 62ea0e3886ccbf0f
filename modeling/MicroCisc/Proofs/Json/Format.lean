import MicroCisc.Json.Basic

namespace MicroCisc

namespace Json

-- How deep lists and objects nest in a value.
mutual

def depth : Json → Nat
  | .list items => depthOfItems items + 1
  | .object members => depthOfMembers members + 1
  | _ => 0

def depthOfItems : List Json → Nat
  | [] => 0
  | item :: rest => max item.depth (depthOfItems rest)

def depthOfMembers : List (String × Json) → Nat
  | [] => 0
  | (_, value) :: rest => max value.depth (depthOfMembers rest)

end

theorem depth_item_lt {item : Json} {items : List Json} (h : item ∈ items) :
    item.depth < (list items).depth := by
  induction items with
  | nil => cases h
  | cons first rest ih =>
    simp only [depth, depthOfItems] at ih ⊢
    rcases List.mem_cons.1 h with rfl | h
    · omega
    · have hrest := ih h
      omega

theorem depth_member_lt {member : String × Json} {members : List (String × Json)}
    (h : member ∈ members) : member.2.depth < (object members).depth := by
  induction members with
  | nil => cases h
  | cons first rest ih =>
    simp only [depth, depthOfMembers] at ih ⊢
    rcases List.mem_cons.1 h with rfl | h
    · omega
    · have hrest := ih h
      omega

-- A text that is written as it is.
def Clean (text : String) : Prop :=
  ∀ c ∈ text.toList, c ≠ '"' ∧ c ≠ '\\' ∧ ¬ c < ' '

instance (text : String) : Decidable (Clean text) :=
  List.decidableBAll (fun c => c ≠ '"' ∧ c ≠ '\\' ∧ ¬ c < ' ') text.toList

-- A scalar that is written in one way only.
inductive PlainScalar : Json → Prop where
  | null : PlainScalar .null
  | bool (value : Bool) : PlainScalar (.bool value)
  | natural {value : Nat} (hvalue : value < UInt64.size) : PlainScalar (.natural value)
  | text {value : String} (hvalue : Clean value) : PlainScalar (.text value)

-- A value whose numbers are natural and whose texts hold nothing to escape.
inductive Plain : Json → Prop where
  | scalar {value : Json} (h : PlainScalar value) : Plain value
  | list {items : List Json} (hitems : ∀ item ∈ items, Plain item) : Plain (.list items)
  | object {members : List (String × Json)} (hnames : ∀ member ∈ members, Clean member.1)
      (hvalues : ∀ member ∈ members, Plain member.2) : Plain (.object members)

end Json

namespace JsonInput

-- A value as a text without faults holds it.
mutual

def ofJson : Json → JsonInput
  | .list items => .list (ofItems items) (.ok ())
  | .object members => .object (ofMembers members) (.ok ())
  | value => .scalar value

def ofItems : List Json → List JsonInput
  | [] => []
  | item :: rest => ofJson item :: ofItems rest

def ofMembers : List (String × Json) → List (Except JsonError String × JsonInput)
  | [] => []
  | (name, value) :: rest => (.ok name, ofJson value) :: ofMembers rest

end

theorem ofMembers_eq_map (members : List (String × Json)) :
    ofMembers members = members.map fun member => (.ok member.1, ofJson member.2) := by
  induction members with
  | nil => rfl
  | cons member rest ih => rw [ofMembers, List.map_cons, ih]

theorem ofMembers_append (members others : List (String × Json)) :
    ofMembers (members ++ others) = ofMembers members ++ ofMembers others := by
  rw [ofMembers_eq_map, ofMembers_eq_map, ofMembers_eq_map, List.map_append]

theorem ofJson_of_plainScalar {value : Json} (h : Json.PlainScalar value) :
    ofJson value = .scalar value := by
  cases h <;> rfl

-- By induction on the value: it is kept as it is.
mutual

theorem keep_ofJson (value : Json) : (ofJson value).keep = .ok value := by
  match value with
  | .list items =>
    rw [ofJson, keep, keepItems_ofItems]
    rfl
  | .object members =>
    rw [ofJson, keep, keepMembers_ofMembers]
    rfl
  | .null | .bool _ | .natural _ | .decimal .. | .text _ => rfl

theorem keepItems_ofItems (items found : List Json) :
    keepItems found (ofItems items) = .ok (found.reverse ++ items) := by
  match items with
  | [] => simp [ofItems, keepItems, pure, Except.pure]
  | item :: rest =>
    have hrest := keepItems_ofItems rest (item :: found)
    rw [ofItems, keepItems, keep_ofJson item]
    simpa [bind, Except.bind] using hrest

theorem keepMembers_ofMembers (members found : List (String × Json)) :
    keepMembers found (ofMembers members) = .ok (found.reverse ++ members) := by
  match members with
  | [] => simp [ofMembers, keepMembers, pure, Except.pure]
  | (name, value) :: rest =>
    have hrest := keepMembers_ofMembers rest ((name, value) :: found)
    rw [ofMembers, keepMembers, keep_ofJson value]
    simpa [bind, Except.bind] using hrest

end

end JsonInput

-- In such a format, plain values are found in their texts as long as they nest no deeper than this.
def JsonFormat.ReadsBack [JsonFormat] (maxDepth : Nat) : Prop :=
  ∀ value : Json, value.Plain → value.depth ≤ maxDepth →
    JsonFormat.read (JsonFormat.print value) = (.ofJson value, .ok ())

end MicroCisc
