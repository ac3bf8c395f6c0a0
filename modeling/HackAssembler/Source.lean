import HackAssembler.Text.Blank
import HackAssembler.Text.Lines

/-! Source text reduced to the lines that mean something, each with the place it came from. -/
namespace HackAssembler

/-- A line of source: what remains of it, its number, and how it was written. Lines are numbered from one on, and a
line that was numbered otherwise keeps its number. -/
structure SourceLine where
  text : Text
  line : Int
  written : Text
  deriving DecidableEq, Repr

namespace Source

/-- One step from the right of `code`. -/
private def addToCode (c : Char) (next : Option Char) (rest : Text) : Text :=
  if c = '/' ∧ next = some '/' then [] else c :: rest

/-- The part of a line in front of its comment, which two slashes open. -/
def code (line : Text) : Text := Text.foldrPeek addToCode [] line

/-- A line without comment and white space. -/
def cleanLine (line : Text) : Text := Text.dropBlanks (code line)

/-- The physical line `raw` behind `index` others. Lines with nothing but white space and comment vanish. -/
def sourceLine? (raw : Text) (index : Nat) : Option SourceLine :=
  let text := cleanLine raw
  if text.isEmpty then none else some ⟨text, index + 1, Text.trimRight raw⟩

def clean (source : Text) : List SourceLine :=
  (Text.lines source).zipIdx.filterMap fun (raw, index) => sourceLine? raw index

/-- Lines that are clean already, numbered as they come. -/
def ofLines (lines : List Text) : List SourceLine :=
  lines.zipIdx.map fun (text, index) => ⟨text, index + 1, text⟩

@[simp] theorem code_nil : code [] = [] := rfl

@[simp] theorem code_comment (t : Text) : code ('/' :: '/' :: t) = [] := by
  simp [code, addToCode]

theorem code_cons {c : Char} {t : Text} (h : ¬(c = '/' ∧ t.head? = some '/')) :
    code (c :: t) = c :: code t := by
  simp [code, addToCode, h]

@[simp] theorem clean_nil : clean [] = [] := rfl

end Source

end HackAssembler
