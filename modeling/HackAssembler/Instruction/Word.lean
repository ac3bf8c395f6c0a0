import HackAssembler.Diagnostic
import HackAssembler.Instruction.Comp
import HackAssembler.Instruction.Fields
import HackAssembler.Instruction.Jump

/-! Machine words as rows of binary digits, and the compute instructions among them. -/
namespace HackAssembler

namespace Word

abbrev width : Nat := 16

/-- The digits behind the leading zero of an address word. -/
abbrev addressWidth : Nat := 15

abbrev maxAddress : Int := 32767

/-- The digits that open a compute word. -/
abbrev computeOpening : Text := ['1', '1', '1']

/-- The word that loads an address. Only the addresses from 0 to `maxAddress` give a word that opens with a
zero. -/
def ofAddress (value : Int) : Text := Numeral.zeroFilled 2 width value

end Word

/-- A compute instruction whose fields all have a meaning. -/
structure Compute where
  dest : Dest
  comp : Comp
  jump : Jump
  deriving DecidableEq, Repr

namespace Compute

def word (c : Compute) : Text :=
  Word.computeOpening ++ Comp.operandBit c.comp.mnemonic :: FieldValue.bits c.comp ++
    FieldValue.bits c.dest ++ FieldValue.bits c.jump

/-- Looks a mnemonic up among the values of a field. -/
def readField (α : Type) [FieldValue α] (field : Field) (line : Text) (index : Option Int) :
    Except Diagnostic α :=
  let mnemonic := (Fields.split line).get field
  match FieldValue.ofMnemonic? (α := α) mnemonic with
  | some v => .ok v
  | none =>
    .error {
      cause := .unknownMnemonic field.name mnemonic line
        ((FieldValue.all (α := α)).map FieldValue.mnemonic)
      index }

/-- The computation is looked up first, then the destination, then the jump: the first that fails is reported. -/
def read (line : Text) (index : Option Int) : Except Diagnostic Compute := do
  let comp ← readField Comp .comp line index
  let dest ← readField Dest .dest line index
  let jump ← readField Jump .jump line index
  return ⟨dest, comp, jump⟩

end Compute

end HackAssembler
