import Mathlib.Data.BitVec
import Mathlib.Tactic.Ring
import HackAssembler.Instruction.Word

/-! The processor: how the bits of a compute word choose what the arithmetic unit computes, where the result goes and
when it makes the program jump. -/
namespace HackAssembler.Machine

/-- What a register or a memory cell holds. It wraps around and is signed in two's complement. -/
abbrev Value := BitVec Word.width

/-- What a compute instruction reads: the data register, the address register, and the memory cell that this points
at. -/
structure Inputs where
  d : Value
  a : Value
  m : Value

/-- Each input is zeroed, then inverted, then both are added or intersected, and the result is inverted. -/
def alu (c : Control) (x y : Value) : Value :=
  let x := if c.zx then 0 else x
  let x := if c.nx then ~~~x else x
  let y := if c.zy then 0 else y
  let y := if c.ny then ~~~y else y
  let out := if c.f then x + y else x &&& y
  if c.no then ~~~out else out

/-! ### The bits of a word -/

/-- Bits 15 to 13 are set. -/
def isCompute (w : Value) : Bool := w.getLsbD 15 && w.getLsbD 14 && w.getLsbD 13

/-- Bit 12: the second input comes from memory. -/
def readsMemory (w : Value) : Bool := w.getLsbD 12

/-- Bits 11 to 6. -/
def control (w : Value) : Control :=
  ⟨w.getLsbD 11, w.getLsbD 10, w.getLsbD 9, w.getLsbD 8, w.getLsbD 7, w.getLsbD 6⟩

/-- Bits 5 to 3. -/
def destinations (w : Value) : Dest := ⟨w.getLsbD 5, w.getLsbD 4, w.getLsbD 3⟩

/-- Bits 2 to 0: jump if the result is below, at or above zero. -/
def jumps (w out : Value) : Bool :=
  (w.getLsbD 2 && decide (out.toInt < 0)) || (w.getLsbD 1 && decide (out.toInt = 0)) ||
    (w.getLsbD 0 && decide (0 < out.toInt))

def output (w : Value) (inputs : Inputs) : Value :=
  alu (control w) inputs.d (if readsMemory w then inputs.m else inputs.a)

/-! ### What the unit computes -/

/-- The value of a computation on the data register `x` and an operand `y`. -/
def eval (x y : Value) : Comp → Value
  | .zero => 0
  | .one => 1
  | .minusOne => -1
  | .data => x
  | .operand _ => y
  | .notData => ~~~x
  | .notOperand _ => ~~~y
  | .minusData => -x
  | .minusOperand _ => -y
  | .dataPlusOne => x + 1
  | .operandPlusOne _ => y + 1
  | .dataMinusOne => x - 1
  | .operandMinusOne _ => y - 1
  | .dataPlusOperand _ => x + y
  | .dataMinusOperand _ => x - y
  | .operandMinusData _ => y - x
  | .dataAndOperand _ => x &&& y
  | .dataOrOperand _ => x ||| y

/-- Inverting one summand and the sum subtracts. -/
theorem not_add_of_not (x y : Value) : ~~~(~~~x + y) = x - y := by
  rw [BitVec.not_eq_neg_add, BitVec.not_eq_neg_add]
  ring

theorem not_zero_eq : ~~~(0 : Value) = -1 := by
  decide

theorem alu_control (x y : Value) (c : Comp) : alu c.control x y = eval x y c := by
  -- A zeroed and inverted input is minus one, and inverting a summand and the sum turns the sum into a difference.
  cases c with
  | zero => exact BitVec.add_zero 0
  | one =>
    change ~~~(~~~(0 : Value) + ~~~0) = 1
    decide
  | minusOne =>
    change ~~~(0 : Value) + 0 = -1
    decide
  | data => simp [alu, Comp.control, eval]
  | operand => simp [alu, Comp.control, eval]
  | notData => simp [alu, Comp.control, eval]
  | notOperand => simp [alu, Comp.control, eval]
  | minusData =>
    change ~~~(x + ~~~0) = -x
    rw [add_comm, not_add_of_not, zero_sub]
  | minusOperand =>
    change ~~~(~~~0 + y) = -y
    rw [not_add_of_not, zero_sub]
  | dataPlusOne =>
    change ~~~(~~~x + ~~~0) = x + 1
    rw [not_add_of_not, not_zero_eq, sub_neg_eq_add]
  | operandPlusOne =>
    change ~~~(~~~0 + ~~~y) = y + 1
    rw [add_comm, not_add_of_not, not_zero_eq, sub_neg_eq_add]
  | dataMinusOne =>
    change x + ~~~0 = x - 1
    rw [not_zero_eq, sub_eq_add_neg]
  | operandMinusOne =>
    change ~~~0 + y = y - 1
    rw [not_zero_eq, add_comm, sub_eq_add_neg]
  | dataPlusOperand => rfl
  | dataMinusOperand => exact not_add_of_not x y
  | operandMinusData =>
    change ~~~(x + ~~~y) = y - x
    rw [add_comm, not_add_of_not]
  | dataAndOperand => rfl
  | dataOrOperand =>
    change ~~~(~~~x &&& ~~~y) = x ||| y
    rw [BitVec.not_and, BitVec.not_not, BitVec.not_not]

end HackAssembler.Machine
