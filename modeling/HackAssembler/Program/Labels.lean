import HackAssembler.Diagnostic
import HackAssembler.Instruction.Line
import HackAssembler.Symbol.Table

/-! Labels: each gets the address of the instruction behind its declaration, and the declarations take no room. -/
namespace HackAssembler.Labels

/-- The lines that are not declarations. The position of a line among them is its address. -/
def instructions (lines : List Text) : List Text := lines.filter (!Line.isLabel ·)

/-- Binds the labels of `lines`, which stand behind `index` other lines and `address` other instructions. A name
that is bound already keeps its address; with `strict` labels its declaration is an error. -/
def bindFrom (strict : Bool) : List Text → (index address : Nat) → SymbolTable →
    Except Diagnostic SymbolTable
  | [], _, _, table => .ok table
  | line :: rest, index, address, table =>
    if Line.isLabel line then
      match table.lookup (Line.labelName line) with
      | none =>
        bindFrom strict rest (index + 1) address
          (table.bind ⟨Line.labelName line, address, .label⟩).2
      | some bound =>
        if strict then
          .error { cause := .duplicateSymbol bound.name bound.address, index := some index }
        else bindFrom strict rest (index + 1) address table
    else bindFrom strict rest (index + 1) (address + 1) table

/-- The table that the labels of a program leave. -/
def bind (strict : Bool) (lines : List Text) : Except Diagnostic SymbolTable :=
  bindFrom strict lines 0 0 .initial

theorem instructions_append (first next : List Text) :
    instructions (first ++ next) = instructions first ++ instructions next := by
  simp [instructions]

theorem instructions_cons_of_isLabel {line : Text} (h : Line.isLabel line = true) (rest : List Text) :
    instructions (line :: rest) = instructions rest := by
  simp [instructions, h]

theorem instructions_cons {line : Text} (h : Line.isLabel line = false) (rest : List Text) :
    instructions (line :: rest) = line :: instructions rest := by
  simp [instructions, h]

end HackAssembler.Labels
