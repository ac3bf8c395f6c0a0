import HackAssembler.Source
import HackAssembler.Text.Numeral

/-! What the assembler finds wrong with a program, and how it points at the place. -/
namespace HackAssembler

/-- A position in a source file. A diagnostic is shown with whatever numbers it was given. -/
structure Location where
  file : Text
  line : Int
  column : Int := 1
  deriving DecidableEq, Repr

def Location.text (l : Location) : Text :=
  l.file ++ ":" ++ Numeral.decimal l.line ++ ":" ++ Numeral.decimal l.column

/-- What is wrong. -/
inductive Cause where
  | general (description : Text) (hint : Option Text)
  /-- A field of a compute instruction holds none of the mnemonics that are valid there. -/
  | unknownMnemonic (field mnemonic instruction : Text) (valid : List Text)
  /-- A label is declared although its name has an address. -/
  | duplicateSymbol (symbol : Text) (address : Option Int)
  /-- An address that does not fit an address instruction. -/
  | addressRange (value : Int) (instruction : Text)
  deriving DecidableEq, Repr

/-- A fault, the number of the line or instruction it was found in, and its place in the source. -/
structure Diagnostic where
  cause : Cause
  index : Option Int := none
  location : Option Location := none
  sourceLine : Option Text := none
  deriving DecidableEq, Repr

namespace Diagnostic

def description (d : Diagnostic) : Text :=
  match d.cause with
  | .general description _ => description
  | .unknownMnemonic field mnemonic instruction _ =>
    "unknown " ++ field ++ " mnemonic '" ++ mnemonic ++ "' in '" ++ instruction ++ "'" ++
      (match d.index with
      | none => []
      | some index => " at ROM address " ++ Numeral.decimal index)
  | .duplicateSymbol symbol _ => "duplicate symbol '" ++ symbol ++ "'"
  | .addressRange value instruction =>
    "address " ++ Numeral.decimal value ++ " in '" ++ instruction ++ "' is out of range (0-32767)"

def hint (d : Diagnostic) : Option Text :=
  match d.cause with
  | .general _ hint => hint
  | .unknownMnemonic field _ _ valid =>
    if valid.isEmpty then none
    else some ("valid " ++ field ++ " mnemonics: " ++ List.intercalate ", " valid)
  | .duplicateSymbol symbol address =>
    address.map fun a => "'" ++ symbol ++ "' is already bound to address " ++ Numeral.decimal a
  | .addressRange _ _ => none

/-- The lines that quote the source, with a caret below the column if there is one. -/
private def excerpt (location : Location) (sourceLine : Text) : List Text :=
  ("    " ++ sourceLine) ::
    if 0 < location.column then [List.replicate (3 + location.column.toNat) ' ' ++ ['^']] else []

/-- The whole report: place and description, the source if its place is known, and a hint that says something. -/
def message (d : Diagnostic) : Text :=
  let place : Text :=
    match d.location with
    | none => []
    | some location => location.text ++ ": "
  let quoted :=
    match d.location, d.sourceLine with
    | some location, some sourceLine => excerpt location sourceLine
    | _, _ => []
  let advice :=
    match d.hint with
    | none | some [] => []
    | some hint => ["hint: " ++ hint]
  List.intercalate ['\n'] ((place ++ "error: " ++ d.description) :: (quoted ++ advice))

/-- Points a diagnostic at a place. -/
def withSource (d : Diagnostic) (location : Location) (sourceLine : Text) : Diagnostic :=
  { d with location := some location, sourceLine := some sourceLine }

/-- Points a diagnostic at the line that its index names. One without an index, or with one that names no line,
stays as it is. -/
def locate (d : Diagnostic) (file : Text) (lines : List SourceLine) : Diagnostic :=
  match d.index with
  | none => d
  | some index =>
    if index < 0 then d
    else
      match lines[index.toNat]? with
      | none => d
      | some line => d.withSource ⟨file, line.line, 1⟩ line.written

@[simp] theorem withSource_cause (d : Diagnostic) (l : Location) (t : Text) :
    (d.withSource l t).cause = d.cause := rfl

@[simp] theorem withSource_index (d : Diagnostic) (l : Location) (t : Text) :
    (d.withSource l t).index = d.index := rfl

@[simp] theorem locate_cause (d : Diagnostic) (file : Text) (lines : List SourceLine) :
    (d.locate file lines).cause = d.cause := by
  unfold locate
  split
  · rfl
  · split
    · rfl
    · split <;> rfl

@[simp] theorem locate_index (d : Diagnostic) (file : Text) (lines : List SourceLine) :
    (d.locate file lines).index = d.index := by
  unfold locate
  split
  · rfl
  · split
    · rfl
    · split <;> rfl

end Diagnostic

end HackAssembler
