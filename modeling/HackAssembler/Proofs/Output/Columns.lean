import HackAssembler.Output.Listing
import HackAssembler.Proofs.Instruction.Splitting
import HackAssembler.Proofs.Text.Lines
import HackAssembler.Proofs.Text.Numerals

/-! Output read back: the lines of a text that line feeds end, and the cells of a line that stand in columns. A cell
without spaces is found again whatever the width of its column is. -/
namespace HackAssembler

theorem Numeral.isUnbroken_decimal (v : Int) : Text.IsUnbroken (decimal v) :=
  Text.isUnbroken_of_not_blank fun _ => isBlank_eq_false_of_mem_zeroFilled (by decide) (by decide)

namespace Output

/-! ### Lines -/

theorem lines_terminated {found : List Text} (h : ∀ t ∈ found, Text.IsUnbroken t) :
    Text.lines (terminated found) = found := by
  induction found with
  | nil => rfl
  | cons t rest ih =>
    rw [terminated_cons, Text.lines_append_feed (h t List.mem_cons_self),
      ih fun next hnext => h next (List.mem_cons_of_mem t hnext)]

theorem return_not_mem_terminated {found : List Text} (h : ∀ t ∈ found, Text.IsUnbroken t) :
    '\r' ∉ terminated found := by
  intro hmem
  obtain ⟨t, ht, hreturn⟩ := List.mem_flatMap.1 hmem
  rcases List.mem_append.1 hreturn with hreturn | hreturn
  · exact absurd (h t ht _ hreturn) (by decide)
  · exact absurd (List.mem_singleton.1 hreturn) (by decide)

/-! ### Cells -/

theorem twoSpaces_eq : Text.ofString "  " = [' ', ' '] := Text.ofString_eq "  "

/-- The cell at the front of a text, behind the spaces that fill its column, and what stands behind the two spaces
that come after the column. -/
def readCell {α : Type} (read : Text → Option α) (t : Text) : Option (α × Text) :=
  let cell := t.dropWhile (· = ' ')
  (read (Text.before ' ' cell)).map fun a => (a, (Text.after ' ' cell).drop 1)

theorem readCell_leftpad {α : Type} {read : Text → Option α} {cell : Text} {a : α} (hread : read cell = some a)
    (hne : cell ≠ []) (hspace : ' ' ∉ cell) (width : Nat) (rest : Text) :
    readCell read (cell.leftpad width ' ' ++ ' ' :: ' ' :: rest) = some (a, rest) := by
  have hfill : ∀ c ∈ List.replicate (width - cell.length) ' ', decide (c = ' ') = true :=
    fun c hc => decide_eq_true (List.eq_of_mem_replicate hc)
  have hcell : (cell.leftpad width ' ' ++ ' ' :: ' ' :: rest).dropWhile (· = ' ') = cell ++ ' ' :: ' ' :: rest := by
    obtain ⟨c, tail, rfl⟩ := List.exists_cons_of_ne_nil hne
    have hc : c ≠ ' ' := fun hc => hspace (hc ▸ List.mem_cons_self)
    rw [List.leftpad, List.append_assoc, List.dropWhile_append_of_pos hfill, List.cons_append,
      List.dropWhile_cons_of_neg (by simpa using hc)]
  rw [readCell, hcell, Text.before_append_cons hspace, Text.after_append_cons hspace, hread]
  rfl

theorem space_not_mem_decimal (v : Int) : ' ' ∉ Numeral.decimal v := by
  intro h
  have hblank : Text.isBlank ' ' = false :=
    Numeral.isBlank_eq_false_of_mem_zeroFilled (by decide) (by decide) h
  cases hblank

theorem readCell_numberColumn (width : Nat) (v : Int) (rest : Text) :
    readCell (Numeral.read? 10) (Listing.numberColumn width v ++ ' ' :: ' ' :: rest) = some (v, rest) :=
  readCell_leftpad (Numeral.read?_zeroFilled (by decide) (by decide) 0 v) (Numeral.zeroFilled_ne_nil 10 0 v)
    (space_not_mem_decimal v) width rest

end Output

end HackAssembler
