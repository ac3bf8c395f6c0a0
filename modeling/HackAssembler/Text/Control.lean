import HackAssembler.Text.Basic

/-! Control sequences for terminals, and text without them. -/
namespace HackAssembler.Text

abbrev escape : Char := '\x1b'

/-- The characters between the bracket that opens a sequence and the letter that ends it. -/
def isParameter (c : Char) : Bool := c.isDigit || c = ';' || c = '?'

/-- What is left behind the parameters of a sequence and its final letter. -/
def afterParameters? : Text → Option Text
  | [] => none
  | c :: t => if c.isAlpha then some t else if isParameter c then afterParameters? t else none

/-- What is left behind the bracket and all that belongs to its sequence. -/
def afterBracket? : Text → Option Text
  | [] => none
  | c :: t => if c = '[' then afterParameters? t else none

/-- What is left behind a control sequence that opens the text. -/
def afterControl? : Text → Option Text
  | [] => none
  | c :: t => if c = escape then afterBracket? t else none

/-- A text without control sequences, and the same for what stands behind the sequence that it may continue. -/
private structure Uncontrolled where
  text : Text := []
  behindParameters : Option Text := none
  behindBracket : Option Text := none

/-- One step from the right. -/
private def addUncontrolled (c : Char) (rest : Uncontrolled) : Uncontrolled where
  text :=
    match if c = escape then rest.behindBracket else none with
    | some behind => behind
    | none => c :: rest.text
  behindParameters :=
    if c.isAlpha then some rest.text else if isParameter c then rest.behindParameters else none
  behindBracket := if c = '[' then rest.behindParameters else none

/-- The text without its control sequences. What their removal brings together forms no new one. -/
def dropControls (t : Text) : Text := (t.foldr addUncontrolled {}).text

private theorem foldr_addUncontrolled (t : Text) :
    t.foldr addUncontrolled {} =
      ⟨dropControls t, (afterParameters? t).map dropControls, (afterBracket? t).map dropControls⟩ := by
  induction t with
  | nil => rfl
  | cons c t ih =>
    have hparameters : (t.foldr addUncontrolled {}).behindParameters =
        (afterParameters? t).map dropControls := by rw [ih]
    simp only [dropControls, List.foldr_cons, addUncontrolled, afterParameters?, afterBracket?,
      hparameters, Uncontrolled.mk.injEq, true_and]
    constructor
    · split
      · rfl
      · split <;> rfl
    · split <;> rfl

@[simp] theorem dropControls_nil : dropControls [] = [] := rfl

theorem dropControls_cons (c : Char) (t : Text) :
    dropControls (c :: t) =
      match afterControl? (c :: t) with
      | some rest => dropControls rest
      | none => c :: dropControls t := by
  rw [dropControls, List.foldr_cons, foldr_addUncontrolled]
  simp only [addUncontrolled, afterControl?]
  by_cases hc : c = escape
  · simp only [hc, if_true]
    cases afterBracket? t <;> rfl
  · simp only [hc, if_false]

/-- Only an escape character can open a sequence. -/
theorem dropControls_eq_self {t : Text} (h : escape ∉ t) : dropControls t = t := by
  induction t with
  | nil => rfl
  | cons c t ih =>
    have hc : c ≠ escape := fun hc => h (hc ▸ List.mem_cons_self)
    have ht : escape ∉ t := fun ht => h (List.mem_cons_of_mem c ht)
    simp only [dropControls_cons, afterControl?, if_neg hc, ih ht]

end HackAssembler.Text
