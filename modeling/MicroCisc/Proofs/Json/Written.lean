import MicroCisc.Json.Pretty

namespace MicroCisc.Json

-- The start of a line. A comma ends the line before it, unless that is the one with the bracket.
def lead (margin : List Char) : Bool → List Char
  | true => '\n' :: margin
  | false => ',' :: '\n' :: margin

-- The lines of a block, each with one part.
def lines (margin : List Char) : Bool → List (List Char) → List Char
  | _, [] => []
  | isFirst, part :: rest => lead margin isFirst ++ part ++ lines margin false rest

def inner (margin : List Char) : List Char :=
  margin ++ [' ', ' ']

-- The closing bracket stands on a line of its own, unless there is nothing between the brackets.
def ending (margin : List Char) (parts : List (List Char)) : List Char :=
  if parts.isEmpty then [] else '\n' :: margin

def block (opening closing : Char) (margin : List Char) (parts : List (List Char)) : List Char :=
  opening :: lines (inner margin) true parts ++ ending margin parts ++ [closing]

def quoted (name : String) : List Char :=
  '"' :: name.toList ++ ['"']

mutual

def written (margin : List Char) : Json → List Char
  | .null => ['n', 'u', 'l', 'l']
  | .bool true => ['t', 'r', 'u', 'e']
  | .bool false => ['f', 'a', 'l', 's', 'e']
  | .natural value => Nat.toDigits 10 value
  | .decimal negative significand exponent => (decimalText negative significand exponent).toList
  | .text value => quoted value
  | .list items => block '[' ']' margin (writtenItems (inner margin) items)
  | .object members => block '\x7b' '\x7d' margin (writtenMembers (inner margin) members)

def writtenItems (margin : List Char) : List Json → List (List Char)
  | [] => []
  | item :: rest => item.written margin :: writtenItems margin rest

def writtenMembers (margin : List Char) : List (String × Json) → List (List Char)
  | [] => []
  | (name, value) :: rest =>
      (quoted name ++ ':' :: ' ' :: value.written margin) :: writtenMembers margin rest

end

theorem writtenItems_eq_map (margin : List Char) (items : List Json) :
    writtenItems margin items = items.map (·.written margin) := by
  induction items with
  | nil => rfl
  | cons item rest ih => rw [writtenItems, List.map_cons, ih]

theorem writtenMembers_eq_map (margin : List Char) (members : List (String × Json)) :
    writtenMembers margin members =
      members.map fun member => quoted member.1 ++ ':' :: ' ' :: member.2.written margin := by
  induction members with
  | nil => rfl
  | cons member rest ih => rw [writtenMembers, List.map_cons, ih]

theorem block_append (opening closing : Char) (margin : List Char) (parts : List (List Char))
    (rest : List Char) :
    block opening closing margin parts ++ rest =
      opening :: (lines (inner margin) true parts ++ (ending margin parts ++ closing :: rest)) := by
  simp [block]

theorem length_le_length_lines (margin : List Char) (isFirst : Bool) (parts : List (List Char)) :
    parts.length ≤ (lines margin isFirst parts).length := by
  induction parts generalizing isFirst with
  | nil => exact Nat.zero_le _
  | cons part rest ih =>
    have hrest := ih false
    have hlead : 0 < (lead margin isFirst).length := by
      cases isFirst <;> simp [lead]
    simp only [lines, List.length_append, List.length_cons]
    omega

/-! ### The text is what is written -/

theorem toList_deeper (margin : String) : (deeper margin).toList = inner margin.toList := by
  simp [deeper, inner]

theorem toList_quote (name : String) : (quote name).toList = quoted name := by
  simp [quote, quoted]

mutual

theorem toList_addTo (margin before : String) (value : Json) :
    (value.addTo margin before).toList = before.toList ++ value.written margin.toList := by
  match value with
  | .null => simp [addTo, written]
  | .bool true => simp [addTo, written, toString]
  | .bool false => simp [addTo, written, toString]
  | .natural value => simp [addTo, written, toString, Nat.repr]
  | .decimal .. => simp [addTo, written]
  | .text value => simp [addTo, written, toList_quote]
  | .list [] => simp [addTo, written, writtenItems, block, ending, lines]
  | .list (first :: rest) =>
    simp [addTo, written, writtenItems, block, ending, lines, lead, toList_addItems,
      toList_addTo, toList_deeper]
  | .object [] => simp [addTo, written, writtenMembers, block, ending, lines]
  | .object ((name, first) :: rest) =>
    simp [addTo, written, writtenMembers, block, ending, lines, lead, toList_addMembers,
      toList_addTo, toList_deeper, toList_quote]

theorem toList_addItems (margin before : String) (items : List Json) :
    (addItems margin before items).toList =
      before.toList ++ lines margin.toList false (writtenItems margin.toList items) := by
  match items with
  | [] => simp [addItems, writtenItems, lines]
  | item :: rest => simp [addItems, writtenItems, lines, lead, toList_addItems, toList_addTo]

theorem toList_addMembers (margin before : String) (members : List (String × Json)) :
    (addMembers margin before members).toList =
      before.toList ++ lines margin.toList false (writtenMembers margin.toList members) := by
  match members with
  | [] => simp [addMembers, writtenMembers, lines]
  | (name, value) :: rest =>
    simp [addMembers, writtenMembers, lines, lead, toList_addMembers, toList_addTo, toList_quote]

end

theorem toList_pretty (value : Json) : value.pretty.toList = value.written [] := by
  simp [pretty, toList_addTo]

end MicroCisc.Json
