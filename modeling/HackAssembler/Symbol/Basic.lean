import HackAssembler.Text.Numeral

/-! Symbols, and those that every program has from the start. -/
namespace HackAssembler

/-- Where the address of a symbol came from. -/
inductive SymbolKind where
  | predefined
  | label
  | variable
  deriving DecidableEq, Repr

def SymbolKind.name : SymbolKind → Text
  | .predefined => "predefined"
  | .label => "label"
  | .variable => "variable"

/-- A name and its address, in instruction memory for a label and in data memory for any other. -/
structure Symbol where
  name : Text
  address : Int
  kind : SymbolKind
  deriving DecidableEq, Repr

namespace Symbol

/-- Rising addresses, and names in code-point order where addresses are equal. -/
def le (s t : Symbol) : Bool :=
  s.address < t.address || (s.address = t.address && (compare s.name t.name).isLE)

/-- The sixteen working registers. -/
def registers : List Symbol :=
  (List.range 16).map fun n => ⟨'R' :: Nat.toDigits 10 n, n, .predefined⟩

/-- The registers, the pointers of the virtual machine, and the two memory-mapped devices. -/
def predefined : List Symbol :=
  registers ++
    [⟨['S', 'P'], 0, .predefined⟩, ⟨['L', 'C', 'L'], 1, .predefined⟩,
      ⟨['A', 'R', 'G'], 2, .predefined⟩, ⟨['T', 'H', 'I', 'S'], 3, .predefined⟩,
      ⟨['T', 'H', 'A', 'T'], 4, .predefined⟩,
      ⟨['S', 'C', 'R', 'E', 'E', 'N'], 0x4000, .predefined⟩,
      ⟨['K', 'B', 'D'], 0x6000, .predefined⟩]

/-- The first data address that a variable can get. -/
abbrev variableBase : Int := 16

theorem kind_of_mem_predefined {s : Symbol} (h : s ∈ predefined) : s.kind = .predefined := by
  have key : ∀ s ∈ predefined, s.kind = .predefined := by decide
  exact key s h

end Symbol

end HackAssembler
