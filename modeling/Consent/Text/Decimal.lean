/-! Decimal numerals of whole numbers, written without leading zeros. -/

namespace Consent.Text

def isDigit (c : Char) : Bool := '0' ≤ c && c ≤ '9'

def digitValue (c : Char) : Nat := c.toNat - 48

def digitChar (d : Nat) : Char := Char.ofNat (d + 48)

/-- The decimal digits of a number, most significant first. -/
def digits (n : Nat) : List Char :=
  if n < 10 then [digitChar n] else digits (n / 10) ++ [digitChar (n % 10)]

def valueOf (s : List Char) : Nat :=
  s.foldl (fun n c => 10 * n + digitValue c) 0

def decimal : Int → String
  | .ofNat n => .ofList (digits n)
  | .negSucc n => .ofList ('-' :: digits (n + 1))

/-- `digits` filled with zeros on the left up to `width`. -/
def paddedDigits (width n : Nat) : List Char :=
  let ds := digits n
  List.replicate (width - ds.length) '0' ++ ds

theorem digitValue_digitChar {d : Nat} (h : d < 10) : digitValue (digitChar d) = d := by
  have : d = 0 ∨ d = 1 ∨ d = 2 ∨ d = 3 ∨ d = 4 ∨ d = 5 ∨ d = 6 ∨ d = 7 ∨ d = 8 ∨ d = 9 := by omega
  rcases this with rfl | rfl | rfl | rfl | rfl | rfl | rfl | rfl | rfl | rfl <;> rfl

theorem valueOf_digits (n : Nat) : valueOf (digits n) = n := by
  induction n using Nat.strongRecOn with
  | ind n ih =>
    unfold digits
    split
    · rename_i h
      simp [valueOf, digitValue_digitChar h]
    · have hlt : n / 10 < n := by omega
      have hd : n % 10 < 10 := by omega
      have := ih _ hlt
      unfold valueOf at this ⊢
      rw [List.foldl_append, this]
      simp only [List.foldl_cons, List.foldl_nil, digitValue_digitChar hd]
      omega

end Consent.Text
