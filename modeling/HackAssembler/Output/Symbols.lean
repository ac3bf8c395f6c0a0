import HackAssembler.Output.Words
import HackAssembler.Symbol.Table

/-! The symbols of a program, listed for readers in the order of their addresses. -/
namespace HackAssembler

namespace SymbolTable

/-- The symbols by address and name, those that every program has only on request. -/
def sorted (t : SymbolTable) (withPredefined : Bool) : List Symbol :=
  (if withPredefined then t.symbols else t.own).mergeSort Symbol.le

theorem mem_sorted_iff {t : SymbolTable} {withPredefined : Bool} {s : Symbol} :
    s ∈ t.sorted withPredefined ↔ s ∈ t.symbols ∧ (withPredefined = true ∨ s.kind ≠ .predefined) := by
  rw [sorted, List.mem_mergeSort]
  cases withPredefined <;> simp [own]

end SymbolTable

namespace Output

/-- Name, address and kind, with single spaces between them. -/
def symbolLine (s : Symbol) : Text :=
  s.name ++ " " ++ Numeral.decimal s.address ++ " " ++ s.kind.name

/-- The symbol file: two lines of heading, then a line for each symbol. -/
def symbols (symbols : List Symbol) : Text :=
  terminated ("# Symbol table" :: "# Generated by hackasm" :: symbols.map symbolLine)

end Output

end HackAssembler
