namespace MicroCisc.Numeral

-- The digits of `n`, most significant first and in lower case, at least `width` of them.
def digits (radix width n : Nat) : List Char :=
  (Nat.toDigits radix n).leftpad width '0'

def text (radix width n : Nat) : String :=
  String.ofList (digits radix width n)

def digitValue? (radix : Nat) (c : Char) : Option Nat :=
  let value? :=
    if '0' ≤ c ∧ c ≤ '9' then some (c.toNat - '0'.toNat)
    else if 'a' ≤ c ∧ c ≤ 'f' then some (c.toNat - 'a'.toNat + 10)
    else if 'A' ≤ c ∧ c ≤ 'F' then some (c.toNat - 'A'.toNat + 10)
    else none
  value?.filter (· < radix)

def ofDigits (radix : Nat) (values : List Nat) : Nat :=
  values.foldl (fun total value => radix * total + value) 0

def withoutPlus : List Char → List Char
  | '+' :: rest => rest
  | text => text

def extend? (radix limit : Nat) (total : Nat) (values : List Nat) : Option Nat :=
  values.foldlM (fun total value => some (radix * total + value) |>.filter (· < limit)) total

def read? (radix limit : Nat) (text : List Char) : Option Nat := do
  match withoutPlus text with
  | [] => none
  | digits => extend? radix limit 0 (← digits.mapM (digitValue? radix))

theorem le_ofDigits_foldl {radix : Nat} (hradix : 0 < radix) (values : List Nat) (total : Nat) :
    total ≤ values.foldl (fun total value => radix * total + value) total := by
  induction values generalizing total with
  | nil => exact Nat.le_refl total
  | cons value rest ih =>
    have hstep : total ≤ radix * total := Nat.le_mul_of_pos_left total hradix
    exact Nat.le_trans (Nat.le_trans hstep (Nat.le_add_right _ value)) (ih _)

-- Stopping at the limit is the same as looking at the whole number in the end: digits put behind
-- a number never make it smaller.
theorem extend?_eq {radix limit : Nat} (hradix : 0 < radix) {total : Nat} (htotal : total < limit)
    (values : List Nat) :
    extend? radix limit total values =
      (some (values.foldl (fun total value => radix * total + value) total)).filter
        (· < limit) := by
  induction values generalizing total with
  | nil => simp [extend?, Option.filter, htotal]
  | cons value rest ih =>
    simp only [extend?, List.foldlM_cons, List.foldl_cons] at ih ⊢
    by_cases hnext : radix * total + value < limit
    · simpa [Option.filter, hnext] using ih hnext
    · have hle := le_ofDigits_foldl hradix rest (radix * total + value)
      have hend : ¬ rest.foldl (fun total value => radix * total + value)
          (radix * total + value) < limit := by omega
      simp [Option.filter, hnext, hend]

theorem extend?_zero {radix limit : Nat} (hradix : 0 < radix) (hlimit : 0 < limit)
    (values : List Nat) :
    extend? radix limit 0 values = (some (ofDigits radix values)).filter (· < limit) :=
  extend?_eq hradix hlimit values

end MicroCisc.Numeral
