import HackAssembler.Instruction.FieldValue

/-! Destinations: which of the two registers and the memory cell take the result. -/
namespace HackAssembler

/-- The mnemonic of a field that is left out. -/
abbrev omitted : Text := ['n', 'u', 'l', 'l']

/-- A set of destinations. -/
structure Dest where
  a : Bool
  d : Bool
  m : Bool
  deriving DecidableEq, Repr

namespace Dest

/-- The letters of the members, always in the order address register, memory cell, data register. -/
def mnemonic (dest : Dest) : Text :=
  if dest = ⟨false, false, false⟩ then omitted
  else (if dest.a then ['A'] else []) ++ (if dest.m then ['M'] else []) ++ (if dest.d then ['D'] else [])

def bits (dest : Dest) : Text := [bit dest.a, bit dest.d, bit dest.m]

/-- Every set, counted up by its bits. -/
def all : List Dest :=
  [⟨false, false, false⟩, ⟨false, false, true⟩, ⟨false, true, false⟩, ⟨false, true, true⟩,
    ⟨true, false, false⟩, ⟨true, false, true⟩, ⟨true, true, false⟩, ⟨true, true, true⟩]

private theorem mem_all : ∀ dest : Dest, dest ∈ all
  | ⟨a, d, m⟩ => by cases a <;> cases d <;> cases m <;> decide

private theorem mnemonic_injective_on_all :
    ∀ b ∈ all, ∀ c ∈ all, b.mnemonic = c.mnemonic → b = c := by
  decide

instance : FieldValue Dest where
  mnemonic := mnemonic
  bits := bits
  all := all
  mem_all := mem_all
  mnemonic_injective := mnemonic_injective_on_all _ (mem_all _) _ (mem_all _)

end Dest

end HackAssembler
