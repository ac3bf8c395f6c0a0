import HackAssembler.Instruction.Line
import HackAssembler.Output.Symbols
import HackAssembler.Source

/-! The listing: every source line beside its address and its word, and the symbols below. -/
namespace HackAssembler.Output

namespace Listing

/-- A number at the right of a column. -/
def numberColumn (width : Nat) (v : Int) : Text := (Numeral.decimal v).leftpad width ' '

/-- One row. A line that becomes no word has neither address nor word. -/
def row (code : Option (Nat × Text)) (source : SourceLine) : Text :=
  let (address, word) : Text × Text :=
    match code with
    | none => ([], [])
    | some (address, word) => (Numeral.decimal address, word)
  address.leftpad 5 ' ' ++ "  " ++ word.rightpad 16 ' ' ++ "  " ++ numberColumn 4 source.line ++
    "  " ++ source.written

private def rowLoop : Nat → List Text → List SourceLine → List Text → List Text
  | _, _, [], rows => rows.reverse
  | address, words, source :: rest, rows =>
    if Line.isLabel source.text then rowLoop address words rest (row none source :: rows)
    else
      rowLoop (address + 1) words.tail rest
        (row (some (address, words.head?.getD [])) source :: rows)

/-- The rows of source lines whose first instruction has the given address and the first of `words`. -/
def rows (address : Nat) (words : List Text) (lines : List SourceLine) : List Text :=
  rowLoop address words lines []

/-- One row of the symbol section. -/
def symbolRow (s : Symbol) : Text :=
  s.name.rightpad 20 ' ' ++ " = " ++ numberColumn 5 s.address ++ "  " ++ s.kind.name

def heading : List Text :=
  ["Hack Assembler Listing", List.replicate 60 '=', [], "  ROM  Word              Line  Source",
    List.replicate 60 '-']

def symbolHeading : List Text := [[], "Symbol Table", List.replicate 30 '-']

private theorem rowLoop_eq (address : Nat) (words : List Text) (lines : List SourceLine)
    (done : List Text) :
    rowLoop address words lines done = done.reverse ++ rowLoop address words lines [] := by
  induction lines generalizing address words done with
  | nil => simp [rowLoop]
  | cons source rest ih =>
    simp only [rowLoop]
    split
    · rw [ih _ _ (_ :: done), ih _ _ [_]]
      simp
    · rw [ih _ _ (_ :: done), ih _ _ [_]]
      simp

@[simp] theorem rows_nil (address : Nat) (words : List Text) : rows address words [] = [] := rfl

theorem rows_cons_label {source : SourceLine} (h : Line.isLabel source.text = true) (address : Nat)
    (words : List Text) (rest : List SourceLine) :
    rows address words (source :: rest) = row none source :: rows address words rest := by
  simp only [rows, rowLoop, h, if_true]
  exact rowLoop_eq ..

theorem rows_cons_instruction {source : SourceLine} (h : Line.isLabel source.text = false)
    (address : Nat) (words : List Text) (rest : List SourceLine) :
    rows address words (source :: rest) =
      row (some (address, words.head?.getD [])) source :: rows (address + 1) words.tail rest := by
  simp only [rows, rowLoop, h, Bool.false_eq_true, if_false]
  exact rowLoop_eq ..

end Listing

/-- The lines of a listing. -/
def listingLines (words : List Text) (lines : List SourceLine) (symbols : List Symbol) : List Text :=
  Listing.heading ++ Listing.rows 0 words lines ++ Listing.symbolHeading ++
    symbols.map Listing.symbolRow

/-- The listing, with no line feed behind its last line. -/
def listing (words : List Text) (lines : List SourceLine) (symbols : List Symbol) : Text :=
  List.intercalate ['\n'] (listingLines words lines symbols)

end HackAssembler.Output
