import HackAssembler.Proofs.Instruction.Reading
import HackAssembler.Proofs.Machine.Processor
import HackAssembler.Proofs.Word.Shape

/-! Compute words do what their source says: the processor computes the value of the written expression, stores it
where the destination says, and jumps on the written condition. -/
namespace HackAssembler.Machine

/-! ### Mnemonics as they are read -/

/-- A constant, a register, or the memory cell. -/
def atom? (inputs : Inputs) : Char → Option Value
  | '0' => some 0
  | '1' => some 1
  | 'D' => some inputs.d
  | 'A' => some inputs.a
  | 'M' => some inputs.m
  | _ => none

def prefixed? (operator : Char) (x : Value) : Option Value :=
  match operator with
  | '-' => some (-x)
  | '!' => some (~~~x)
  | _ => none

def combined? (operator : Char) (x y : Value) : Option Value :=
  match operator with
  | '+' => some (x + y)
  | '-' => some (x - y)
  | '&' => some (x &&& y)
  | '|' => some (x ||| y)
  | _ => none

/-- The value of a text that is read as an expression: an atom, one behind an operator, or two around one. -/
def expression? (inputs : Inputs) : Text → Option Value
  | [x] => atom? inputs x
  | [operator, x] => do prefixed? operator (← atom? inputs x)
  | [x, operator, y] => do combined? operator (← atom? inputs x) (← atom? inputs y)
  | _ => none

/-- What a text that is read as a condition says of a signed number. -/
def condition? (out : Int) : Text → Option Bool
  | ['n', 'u', 'l', 'l'] => some false
  | ['J', 'G', 'T'] => some (0 < out)
  | ['J', 'E', 'Q'] => some (out = 0)
  | ['J', 'G', 'E'] => some (0 ≤ out)
  | ['J', 'L', 'T'] => some (out < 0)
  | ['J', 'N', 'E'] => some (out ≠ 0)
  | ['J', 'L', 'E'] => some (out ≤ 0)
  | ['J', 'M', 'P'] => some true
  | _ => none

theorem expression?_mnemonic (inputs : Inputs) (c : Comp) :
    expression? inputs c.mnemonic =
      some (eval inputs.d (if Comp.mentionsMemory c.mnemonic then inputs.m else inputs.a) c) := by
  cases c with
  | operand s | notOperand s | minusOperand s | operandPlusOne s | operandMinusOne s
  | dataPlusOperand s | dataMinusOperand s | operandMinusData s | dataAndOperand s
  | dataOrOperand s => cases s <;> rfl
  | _ => rfl

theorem destinations_of_mnemonic : ∀ dest : Dest,
    dest = ⟨dest.mnemonic.contains 'A', dest.mnemonic.contains 'D', dest.mnemonic.contains 'M'⟩ :=
  FieldValue.forall_of_mem_all (by decide)

/-- The three bits of a jump are the signs that its condition allows. -/
theorem condition?_mnemonic (jump : Jump) :
    ∃ below zero above : Bool, jump.bits = [bit below, bit zero, bit above] ∧
      ∀ out : Int, condition? out jump.mnemonic =
        some ((below && decide (out < 0)) || (zero && decide (out = 0)) || (above && decide (0 < out))) := by
  cases jump with
  | never => exact ⟨false, false, false, rfl, fun out => rfl⟩
  | positive => exact ⟨false, false, true, rfl, fun out => rfl⟩
  | zero => exact ⟨false, true, false, rfl, fun out => congrArg some (by grind)⟩
  | nonnegative => exact ⟨false, true, true, rfl, fun out => congrArg some (by grind)⟩
  | negative => exact ⟨true, false, false, rfl, fun out => congrArg some (by grind)⟩
  | nonzero => exact ⟨true, false, true, rfl, fun out => congrArg some (by grind)⟩
  | nonpositive => exact ⟨true, true, false, rfl, fun out => congrArg some (by grind)⟩
  | always => exact ⟨true, true, true, rfl, fun out => congrArg some (by grind)⟩

/-! ### The word of an instruction -/

section Word
variable {c : Compute} {w : Value} (h : c.word = Word.ofBits w)
include h

theorem isCompute_of_word : isCompute w = true := by
  have h15 : w.getLsbD 15 = true := Word.getLsbD_of_digit h (by decide) rfl
  have h14 : w.getLsbD 14 = true := Word.getLsbD_of_digit h (by decide) rfl
  have h13 : w.getLsbD 13 = true := Word.getLsbD_of_digit h (by decide) rfl
  rw [isCompute, h15, h14, h13]
  rfl

theorem readsMemory_of_word : readsMemory w = Comp.mentionsMemory c.comp.mnemonic :=
  Word.getLsbD_of_digit h (by decide) rfl

theorem control_of_word : control w = c.comp.control := by
  have hzx : w.getLsbD 11 = c.comp.control.zx := Word.getLsbD_of_digit h (by decide) rfl
  have hnx : w.getLsbD 10 = c.comp.control.nx := Word.getLsbD_of_digit h (by decide) rfl
  have hzy : w.getLsbD 9 = c.comp.control.zy := Word.getLsbD_of_digit h (by decide) rfl
  have hny : w.getLsbD 8 = c.comp.control.ny := Word.getLsbD_of_digit h (by decide) rfl
  have hf : w.getLsbD 7 = c.comp.control.f := Word.getLsbD_of_digit h (by decide) rfl
  have hno : w.getLsbD 6 = c.comp.control.no := Word.getLsbD_of_digit h (by decide) rfl
  rw [control, hzx, hnx, hzy, hny, hf, hno]

theorem destinations_of_word : destinations w = c.dest := by
  have ha : w.getLsbD 5 = c.dest.a := Word.getLsbD_of_digit h (by decide) rfl
  have hd : w.getLsbD 4 = c.dest.d := Word.getLsbD_of_digit h (by decide) rfl
  have hm : w.getLsbD 3 = c.dest.m := Word.getLsbD_of_digit h (by decide) rfl
  rw [destinations, ha, hd, hm]

theorem output_of_word (inputs : Inputs) :
    expression? inputs c.comp.mnemonic = some (output w inputs) := by
  rw [expression?_mnemonic, output, control_of_word h, readsMemory_of_word h, alu_control]

theorem jumps_of_word (out : Value) : condition? out.toInt c.jump.mnemonic = some (jumps w out) := by
  obtain ⟨below, zero, above, hbits, hcondition⟩ := condition?_mnemonic c.jump
  have hword : c.word = Word.computeOpening ++ Comp.operandBit c.comp.mnemonic :: FieldValue.bits c.comp ++
      FieldValue.bits c.dest ++ [bit below, bit zero, bit above] := by
    rw [← hbits]
    rfl
  rw [hword] at h
  have h2 : w.getLsbD 2 = below := Word.getLsbD_of_digit h (by decide) rfl
  have h1 : w.getLsbD 1 = zero := Word.getLsbD_of_digit h (by decide) rfl
  have h0 : w.getLsbD 0 = above := Word.getLsbD_of_digit h (by decide) rfl
  rw [hcondition, jumps, h2, h1, h0]

end Word

/-- Every compute word is the text of sixteen bits that make the processor do what the line says: its result is the
value of the written expression for all inputs, it is stored exactly where the destination names a place, and the
jump is taken exactly on the results that satisfy the written condition. -/
theorem meaning_of_compute {line word : Text} {index : Option Int}
    (h : Encoding.compute line index = .ok word) :
    ∃ w : Value, word = Word.ofBits w ∧ isCompute w = true ∧
      (∀ inputs, expression? inputs (Fields.split line).comp = some (output w inputs)) ∧
      destinations w =
        ⟨(Fields.split line).dest.contains 'A', (Fields.split line).dest.contains 'D',
          (Fields.split line).dest.contains 'M'⟩ ∧
      (∀ out, condition? out.toInt (Fields.split line).jump = some (jumps w out)) ∧
      (Fields.assignMark ∉ line → destinations w = ⟨false, false, false⟩) ∧
      (Fields.jumpMark ∉ line → ∀ out, jumps w out = false) := by
  obtain ⟨c, hfields, rfl⟩ := Encoding.compute_eq_ok_iff.1 h
  obtain ⟨w, hw⟩ := Word.exists_ofBits c.length_word (Word.isBinary_of_isCompute c.isCompute_word)
  have hdest : destinations w = _ := (destinations_of_word hw).trans (destinations_of_mnemonic c.dest)
  have hjump := jumps_of_word hw
  refine ⟨w, hw, isCompute_of_word hw, ?_, ?_, ?_, ?_, ?_⟩
  · intro inputs
    rw [hfields]
    exact output_of_word hw inputs
  · rw [hfields]
    exact hdest
  · intro out
    rw [hfields]
    exact hjump out
  -- A field that is left out is read as `omitted`, which names no register and allows no sign.
  · intro hmark
    have homitted : (Fields.split line).dest = omitted := if_neg hmark
    rw [hfields] at homitted
    rw [hdest, show c.dest.mnemonic = omitted from homitted]
    decide
  · intro hmark out
    have homitted : (Fields.split line).jump = omitted := if_neg hmark
    rw [hfields] at homitted
    have hnever := hjump out
    rw [show c.jump.mnemonic = omitted from homitted] at hnever
    exact (Option.some.inj hnever).symm

/-- All destinations, a difference and a jump on one line. -/
def decrementAndLoop : Text := ['A', 'M', 'D', '=', 'M', '-', 'D', ';', 'J', 'L', 'E']

theorem meaning_of_decrementAndLoop :
    ∃ w : Value, Encoding.compute decrementAndLoop none = .ok (Word.ofBits w) ∧
      (∀ inputs, output w inputs = inputs.m - inputs.d) ∧ destinations w = ⟨true, true, true⟩ ∧
      ∀ out, jumps w out = decide (out.toInt ≤ 0) := by
  have hword : Encoding.compute decrementAndLoop none =
      .ok (Compute.word ⟨⟨true, true, true⟩, .operandMinusData .memory, .nonpositive⟩) := by
    rw [Encoding.compute_eq_ok_iff]
    exact ⟨⟨⟨true, true, true⟩, .operandMinusData .memory, .nonpositive⟩, by decide, rfl⟩
  obtain ⟨w, hw, -, houtput, hdest, hjump, -, -⟩ := meaning_of_compute hword
  refine ⟨w, ?_, ?_, ?_, ?_⟩
  · rw [hword, hw]
  · intro inputs
    exact (Option.some.inj (houtput inputs)).symm
  · exact hdest
  · intro out
    exact (Option.some.inj (hjump out)).symm

end HackAssembler.Machine
