/-! How far two words are from each other. -/

namespace Consent.Text

variable {α : Type} [DecidableEq α]

/-- The distances from a word that ends in `x` to the longer and longer beginnings of another word,
given the places of that word with the distances from the word without `x`; `left` and `diagonal` are
the distances of the two words to the beginning before. -/
def distanceRow (x : α) (left : Nat) : Nat → List (α × Nat) → List Nat
  | _, [] => []
  | diagonal, (y, up) :: above =>
    let here := if x = y then diagonal else min (min left up) diagonal + 1
    here :: distanceRow x here up above

/-- The distances from a word, given from its end, to every beginning of `t`, the shortest first. -/
def distances (t : List α) : List α → List Nat
  | [] => List.range (t.length + 1)
  | x :: s =>
    match distances t s with
    | [] => []
    | first :: above => (first + 1) :: distanceRow x (first + 1) first (t.zip above)

/-- How many places have to be inserted, deleted or replaced to make one word of the other. -/
def distance (s t : List α) : Nat := ((distances t s.reverse).getLast?).getD 0

end Consent.Text
