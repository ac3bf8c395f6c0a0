import HackAssembler.Text.Basic

/-! White space: the characters that carry no meaning in source text, and the ways of dropping them. -/
namespace HackAssembler.Text

/-- Spaces, tabs, line breaks and information separators. Zero-width characters are not among them. -/
def isBlank (c : Char) : Bool :=
  let n := c.toNat
  (0x09 ≤ n && n ≤ 0x0D) || (0x1C ≤ n && n ≤ 0x20) || n == 0x85 || n == 0xA0 || n == 0x1680 ||
    (0x2000 ≤ n && n ≤ 0x200A) || n == 0x2028 || n == 0x2029 || n == 0x202F || n == 0x205F ||
    n == 0x3000

/-- The text without its white space, wherever that stands. -/
def dropBlanks (t : Text) : Text := t.filter (!isBlank ·)

def trimLeft (t : Text) : Text := t.dropWhile isBlank

def trimRight (t : Text) : Text := (t.reverse.dropWhile isBlank).reverse

def trim (t : Text) : Text := trimRight (trimLeft t)

theorem isBlank_eq_false_of_isDigit {c : Char} (h : c.isDigit = true) : isBlank c = false := by
  simp only [Char.isDigit, Bool.and_eq_true, decide_eq_true_eq] at h
  have hlow : 48 ≤ c.toNat := h.1
  have hhigh : c.toNat ≤ 57 := h.2
  simp only [isBlank, Bool.or_eq_false_iff, Bool.and_eq_false_iff, decide_eq_false_iff_not,
    beq_eq_false_iff_ne]
  omega

@[simp] theorem dropBlanks_nil : dropBlanks [] = [] := rfl

@[simp] theorem mem_dropBlanks {c : Char} {t : Text} :
    c ∈ dropBlanks t ↔ c ∈ t ∧ isBlank c = false := by
  simp [dropBlanks]

@[simp] theorem dropBlanks_append (s t : Text) :
    dropBlanks (s ++ t) = dropBlanks s ++ dropBlanks t := by
  simp [dropBlanks]

@[simp] theorem dropBlanks_dropBlanks (t : Text) : dropBlanks (dropBlanks t) = dropBlanks t := by
  simp [dropBlanks]

end HackAssembler.Text
