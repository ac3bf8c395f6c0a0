import HackAssembler.Text.Basic

/-! Physical lines: where text breaks, and the reading of foreign line ends. -/
namespace HackAssembler.Text

/-- The characters that end a line. A carriage return followed by a line feed ends only one. -/
def isBreak (c : Char) : Bool :=
  let n := c.toNat
  (0x0A ≤ n && n ≤ 0x0D) || (0x1C ≤ n && n ≤ 0x1E) || n == 0x85 || n == 0x2028 || n == 0x2029

/-- One step from the right: `c` stands in front of the lines already found and of the character `next`. -/
private def addToLines (c : Char) (next : Option Char) (found : List Text) : List Text :=
  if isBreak c then
    if c = '\r' ∧ next = some '\n' then found else [] :: found
  else
    match found with
    | [] => [[c]]
    | line :: rest => (c :: line) :: rest

/-- The lines of a text without their breaks. A final break opens no further line. -/
def lines (t : Text) : List Text := foldrPeek addToLines [] t

/-- One step from the right of `unifyBreaks`. -/
private def addUnified (c : Char) (next : Option Char) (found : Text) : Text :=
  if c = '\r' then
    if next = some '\n' then found else '\n' :: found
  else c :: found

/-- Every carriage return, with the line feed that may follow it, read as one line feed. -/
def unifyBreaks (t : Text) : Text := foldrPeek addUnified [] t

@[simp] theorem lines_nil : lines [] = [] := rfl

theorem lines_cons_break {c : Char} (hc : isBreak c = true) {t : Text}
    (h : ¬(c = '\r' ∧ t.head? = some '\n')) : lines (c :: t) = [] :: lines t := by
  simp only [lines, foldrPeek_cons, addToLines, hc, if_true, if_neg h]

@[simp] theorem lines_crlf (t : Text) : lines ('\r' :: '\n' :: t) = lines ('\n' :: t) := by
  have hc : isBreak '\r' = true := by decide
  have hstep : lines ('\r' :: '\n' :: t) = addToLines '\r' (some '\n') (lines ('\n' :: t)) :=
    foldrPeek_cons ..
  simp [hstep, addToLines, hc]

theorem lines_cons {c : Char} (hc : isBreak c = false) (t : Text) :
    lines (c :: t) = (match lines t with
      | [] => [[c]]
      | line :: rest => (c :: line) :: rest) := by
  simp only [lines, foldrPeek_cons, addToLines, hc, Bool.false_eq_true, if_false]

@[simp] theorem unifyBreaks_nil : unifyBreaks [] = [] := rfl

@[simp] theorem unifyBreaks_crlf (t : Text) :
    unifyBreaks ('\r' :: '\n' :: t) = unifyBreaks ('\n' :: t) := by
  simp [unifyBreaks, addUnified]

theorem unifyBreaks_cr {t : Text} (h : t.head? ≠ some '\n') :
    unifyBreaks ('\r' :: t) = '\n' :: unifyBreaks t := by
  simp [unifyBreaks, addUnified, h]

theorem unifyBreaks_cons {c : Char} (hc : c ≠ '\r') (t : Text) :
    unifyBreaks (c :: t) = c :: unifyBreaks t := by
  simp [unifyBreaks, addUnified, hc]

/-- Text that has no carriage return is read as it stands. -/
theorem unifyBreaks_eq_self {t : Text} (h : '\r' ∉ t) : unifyBreaks t = t := by
  induction t with
  | nil => rfl
  | cons c t ih =>
    rw [unifyBreaks_cons (fun hc => h (hc ▸ List.mem_cons_self)),
      ih fun ht => h (List.mem_cons_of_mem c ht)]

end HackAssembler.Text
