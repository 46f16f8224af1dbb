/-!
# Numerals

Digits of natural numbers in a given base, written and read with the most significant digit
first.
-/

namespace PosterOverlay.Text

/-- The character of a digit below sixteen, with lower-case letters above nine. -/
def digitChar (digit : Nat) : Char :=
  Char.ofNat (if digit < 10 then 48 + digit else 87 + digit)

/-- The value of a digit in any base up to sixteen. -/
def digitValue? (c : Char) : Option Nat :=
  let code := c.toNat
  if 48 ≤ code ∧ code ≤ 57 then some (code - 48)
  else if 97 ≤ code ∧ code ≤ 102 then some (code - 87)
  else if 65 ≤ code ∧ code ≤ 70 then some (code - 55)
  else none

/-- The decimal digits of a number, without leading zeros. -/
def decimalDigits (n : Nat) : List Char :=
  if n < 10 then [digitChar n] else decimalDigits (n / 10) ++ [digitChar (n % 10)]
termination_by n

/-- What is true of the ten digits is true of every character of a number in decimal. -/
theorem forall_mem_decimalDigits {property : Char → Prop}
    (h : ∀ digit < 10, property (digitChar digit)) (n : Nat) :
    ∀ c ∈ decimalDigits n, property c := by
  fun_induction decimalDigits n with
  | case1 n hn => simpa using h n hn
  | case2 n _ ih =>
    have hlast : n % 10 < 10 := Nat.mod_lt n (by decide)
    exact List.forall_mem_append.mpr ⟨ih, by simpa using h _ hlast⟩

/-- A number in decimal, without leading zeros. -/
def decimal (n : Nat) : String :=
  String.ofList (decimalDigits n)

/-- An integer in decimal, with a minus sign when it is negative. -/
def integerChars (i : Int) : List Char :=
  if i < 0 then '-' :: decimalDigits i.natAbs else decimalDigits i.natAbs

/-- An integer in decimal, with a minus sign when it is negative. -/
def integer (i : Int) : String :=
  String.ofList (integerChars i)

/-- The number that the decimal digits name; other characters count as zero. -/
def ofDecimalDigits (digits : List Char) : Nat :=
  digits.foldl (fun n c => 10 * n + (digitValue? c).getD 0) 0

/-- The number that the digits name in the base; none when there are no digits or when one of
them does not belong to the base. -/
def ofDigits? (base : Nat) (digits : List Char) : Option Nat :=
  if digits.isEmpty then none
  else digits.foldlM (fun n c => (digitValue? c).bind fun d =>
    if d < base then some (base * n + d) else none) 0

/-- The last `width` hexadecimal digits of a number. -/
def hexadecimal : Nat → Nat → List Char
  | 0, _ => []
  | width + 1, n => hexadecimal width (n / 16) ++ [digitChar (n % 16)]

end PosterOverlay.Text
