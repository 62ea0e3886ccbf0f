namespace MicroCisc.Text

-- The code points of Unicode's White_Space property, as ranges with both ends included.
def blankRanges : List (Nat × Nat) :=
  [(0x09, 0x0D), (0x20, 0x20), (0x85, 0x85), (0xA0, 0xA0), (0x1680, 0x1680), (0x2000, 0x200A),
   (0x2028, 0x2029), (0x202F, 0x202F), (0x205F, 0x205F), (0x3000, 0x3000)]

def isBlank (c : Char) : Bool :=
  blankRanges.any fun (first, last) => first ≤ c.toNat && c.toNat ≤ last

variable {α : Type}

-- The pieces of a list between the elements that satisfy `cut`, which belong to no piece. There
-- is one piece more than there are cuts.
def pieces (cut : α → Bool) (items : List α) : List (List α) :=
  items.foldr (fun item found =>
    if cut item then [] :: found
    else match found with
      | [] => [[item]]
      | piece :: rest => (item :: piece) :: rest) [[]]

theorem pieces_ne_nil (cut : α → Bool) (items : List α) : pieces cut items ≠ [] := by
  cases items with
  | nil => simp [pieces]
  | cons item rest =>
    simp only [pieces, List.foldr_cons]
    split
    · simp
    · split <;> simp

theorem pieces_cons (cut : α → Bool) (item : α) (rest : List α) :
    pieces cut (item :: rest) =
      if cut item then [] :: pieces cut rest
      else (pieces cut rest).modifyHead (item :: ·) := by
  have hrest := pieces_ne_nil cut rest
  simp only [pieces, List.foldr_cons] at hrest ⊢
  split
  · rfl
  · split <;> simp_all

def tokens (text : List Char) : List (List Char) :=
  (pieces isBlank text).filter (!·.isEmpty)

def trim (text : List Char) : List Char :=
  ((text.dropWhile isBlank).reverse.dropWhile isBlank).reverse

def endedLine [BEq α] (carriageReturn : α) (line : List α) : List α :=
  if line.getLast? == some carriageReturn then line.dropLast else line

-- The lines of a text: each newline ends one, and what follows the last newline is a line of its
-- own unless it is empty.
def lines [BEq α] (newline carriageReturn : α) (items : List α) : List (List α) :=
  let found := pieces (· == newline) items
  let ended := found.dropLast.map (endedLine carriageReturn)
  match found.getLast? with
  | none | some [] => ended
  | some last => ended ++ [last]

end MicroCisc.Text
