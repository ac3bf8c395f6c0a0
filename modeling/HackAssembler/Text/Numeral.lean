import HackAssembler.Text.Basic

/-! Positional numerals: signed and zero filled for words and columns, unsigned for operands. -/
namespace HackAssembler.Numeral

/-- The numeral of `v`, with zeros between the sign and the digits up to `width` characters in all. -/
def zeroFilled (base width : Nat) (v : Int) : Text :=
  if v < 0 then '-' :: (Nat.toDigits base v.natAbs).leftpad (width - 1) '0'
  else (Nat.toDigits base v.natAbs).leftpad width '0'

/-- The shortest decimal numeral. -/
def decimal (v : Int) : Text := zeroFilled 10 0 v

/-- No number is read from more decimal digits than this, or written with more. -/
abbrev maxDigits : Nat := 4300

/-- Whether a number can be written in decimal; its sign does not count. -/
def isWritable (v : Int) : Bool := (Nat.toDigits 10 v.natAbs).length ≤ maxDigits

/-- A literal is one or more of the ASCII digits; a sign makes it a name. -/
def isLiteral (t : Text) : Bool := !t.isEmpty && t.all Char.isDigit

/-- The number that a row of digits writes; leading zeros do not change it. -/
def value (base : Nat) (digits : Text) : Nat := Nat.ofDigitChars base digits 0

@[simp] theorem isLiteral_nil : isLiteral [] = false := rfl

theorem isLiteral_iff (t : Text) : isLiteral t = true ↔ t ≠ [] ∧ ∀ c ∈ t, c.isDigit = true := by
  simp [isLiteral]

@[simp] theorem value_nil (base : Nat) : value base [] = 0 := rfl

theorem value_toDigits {base : Nat} (h : 1 < base) (h' : base ≤ 10) (n : Nat) :
    value base (Nat.toDigits base n) = n :=
  Nat.ofDigitChars_toDigits h h'

theorem zeroFilled_of_nonneg {v : Int} (h : 0 ≤ v) (base width : Nat) :
    zeroFilled base width v = (Nat.toDigits base v.toNat).leftpad width '0' := by
  rw [zeroFilled, if_neg (by omega), show v.natAbs = v.toNat by omega]

theorem zeroFilled_of_neg {v : Int} (h : v < 0) (base width : Nat) :
    zeroFilled base width v = '-' :: (Nat.toDigits base v.natAbs).leftpad (width - 1) '0' := by
  rw [zeroFilled, if_pos h]

end HackAssembler.Numeral
