import HackAssembler.Instruction.FieldValue

/-! The computations of the arithmetic unit: how each is written and which control bits select it. -/
namespace HackAssembler

/-- The second input of the arithmetic unit. -/
inductive Operand where
  /-- The address register. -/
  | register
  /-- The memory cell that the address register points at. -/
  | memory
  deriving DecidableEq, Repr

/-- The letter of the memory cell. A computation whose text holds it reads memory. -/
abbrev memoryLetter : Char := 'M'

def Operand.letter : Operand → Char
  | .register => 'A'
  | .memory => memoryLetter

/-- The control bits: zero or negate either input, add or intersect, negate the output. -/
structure Control where
  zx : Bool
  nx : Bool
  zy : Bool
  ny : Bool
  f : Bool
  no : Bool
  deriving DecidableEq, Repr

def Control.bits (c : Control) : Text := [bit c.zx, bit c.nx, bit c.zy, bit c.ny, bit c.f, bit c.no]

/-- The computations that have a mnemonic, on the data register and an operand. -/
inductive Comp where
  | zero
  | one
  | minusOne
  | data
  | operand (s : Operand)
  | notData
  | notOperand (s : Operand)
  | minusData
  | minusOperand (s : Operand)
  | dataPlusOne
  | operandPlusOne (s : Operand)
  | dataMinusOne
  | operandMinusOne (s : Operand)
  | dataPlusOperand (s : Operand)
  | dataMinusOperand (s : Operand)
  | operandMinusData (s : Operand)
  | dataAndOperand (s : Operand)
  | dataOrOperand (s : Operand)
  deriving DecidableEq, Repr

namespace Comp

def mnemonic : Comp → Text
  | .zero => ['0']
  | .one => ['1']
  | .minusOne => ['-', '1']
  | .data => ['D']
  | .operand s => [s.letter]
  | .notData => ['!', 'D']
  | .notOperand s => ['!', s.letter]
  | .minusData => ['-', 'D']
  | .minusOperand s => ['-', s.letter]
  | .dataPlusOne => ['D', '+', '1']
  | .operandPlusOne s => [s.letter, '+', '1']
  | .dataMinusOne => ['D', '-', '1']
  | .operandMinusOne s => [s.letter, '-', '1']
  | .dataPlusOperand s => ['D', '+', s.letter]
  | .dataMinusOperand s => ['D', '-', s.letter]
  | .operandMinusData s => [s.letter, '-', 'D']
  | .dataAndOperand s => ['D', '&', s.letter]
  | .dataOrOperand s => ['D', '|', s.letter]

/-- The control bits do not depend on where the operand comes from. -/
def control : Comp → Control
  | .zero => ⟨true, false, true, false, true, false⟩
  | .one => ⟨true, true, true, true, true, true⟩
  | .minusOne => ⟨true, true, true, false, true, false⟩
  | .data => ⟨false, false, true, true, false, false⟩
  | .operand _ => ⟨true, true, false, false, false, false⟩
  | .notData => ⟨false, false, true, true, false, true⟩
  | .notOperand _ => ⟨true, true, false, false, false, true⟩
  | .minusData => ⟨false, false, true, true, true, true⟩
  | .minusOperand _ => ⟨true, true, false, false, true, true⟩
  | .dataPlusOne => ⟨false, true, true, true, true, true⟩
  | .operandPlusOne _ => ⟨true, true, false, true, true, true⟩
  | .dataMinusOne => ⟨false, false, true, true, true, false⟩
  | .operandMinusOne _ => ⟨true, true, false, false, true, false⟩
  | .dataPlusOperand _ => ⟨false, false, false, false, true, false⟩
  | .dataMinusOperand _ => ⟨false, true, false, false, true, true⟩
  | .operandMinusData _ => ⟨false, false, false, true, true, true⟩
  | .dataAndOperand _ => ⟨false, false, false, false, false, false⟩
  | .dataOrOperand _ => ⟨false, true, false, true, false, true⟩

/-- Every computation, those on the address register first. -/
def all : List Comp :=
  [.zero, .one, .minusOne, .data, .operand .register, .notData, .notOperand .register, .minusData,
    .minusOperand .register, .dataPlusOne, .operandPlusOne .register, .dataMinusOne,
    .operandMinusOne .register, .dataPlusOperand .register, .dataMinusOperand .register,
    .operandMinusData .register, .dataAndOperand .register, .dataOrOperand .register,
    .operand .memory, .notOperand .memory, .minusOperand .memory, .operandPlusOne .memory,
    .operandMinusOne .memory, .dataPlusOperand .memory, .dataMinusOperand .memory,
    .operandMinusData .memory, .dataAndOperand .memory, .dataOrOperand .memory]

/-- Does the text of a computation mention the memory cell? -/
def mentionsMemory (mnemonic : Text) : Bool := mnemonic.contains memoryLetter

/-- The bit that chooses between register and memory operand. -/
def operandBit (mnemonic : Text) : Char := bit (mentionsMemory mnemonic)

private theorem mem_all (c : Comp) : c ∈ all := by
  cases c with
  | operand s | notOperand s | minusOperand s | operandPlusOne s | operandMinusOne s
  | dataPlusOperand s | dataMinusOperand s | operandMinusData s | dataAndOperand s
  | dataOrOperand s => cases s <;> decide
  | _ => decide

private theorem mnemonic_injective_on_all :
    ∀ b ∈ all, ∀ c ∈ all, b.mnemonic = c.mnemonic → b = c := by
  decide

instance : FieldValue Comp where
  mnemonic := mnemonic
  bits c := c.control.bits
  all := all
  mem_all := mem_all
  mnemonic_injective := mnemonic_injective_on_all _ (mem_all _) _ (mem_all _)

end Comp

end HackAssembler
