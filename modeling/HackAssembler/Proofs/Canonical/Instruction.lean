import HackAssembler.Proofs.Instruction.Grammar
import HackAssembler.Proofs.Word.Shape

/-! Canonical instructions: one line for each machine word, which is encoded to this word and can be read back from
it. -/
namespace HackAssembler

/-! ### Fields by their bits -/

def FieldValue.ofBits? {α : Type} [FieldValue α] (t : Text) : Option α := all.find? (bits · = t)

theorem Dest.bits_injective : Function.Injective (FieldValue.bits (α := Dest)) :=
  FieldValue.injective_of_all (by decide)

theorem Jump.bits_injective : Function.Injective (FieldValue.bits (α := Jump)) :=
  FieldValue.injective_of_all (by decide)

namespace Comp

/-- The operand bit and the control bits. Neither tells a computation apart alone. -/
def code (c : Comp) : Text := operandBit c.mnemonic :: FieldValue.bits c

def ofCode? (t : Text) : Option Comp := all.find? (code · = t)

theorem code_injective : Function.Injective code :=
  FieldValue.injective_of_all (by decide)

end Comp

/-! ### Lines of fields -/

namespace Compute

theorem word_eq (c : Compute) :
    c.word = '1' :: '1' :: '1' :: (c.comp.code ++ (FieldValue.bits c.dest ++ FieldValue.bits c.jump)) := by
  simp [word, Comp.code]

/-- The computation, behind its destination unless this is `omitted`. -/
def assignment (c : Compute) : Text :=
  if c.dest.mnemonic = omitted then c.comp.mnemonic
  else c.dest.mnemonic ++ Fields.assignMark :: c.comp.mnemonic

/-- The assignment, in front of its jump unless this is `omitted`. -/
def line (c : Compute) : Text :=
  if c.jump.mnemonic = omitted then c.assignment
  else c.assignment ++ Fields.jumpMark :: c.jump.mnemonic

/-- The spelling in which nothing is written that means `omitted`. -/
def spelling (c : Compute) : Spelling where
  dest := if c.dest.mnemonic = omitted then none else some c.dest
  comp := c.comp
  jump := if c.jump.mnemonic = omitted then none else some c.jump

theorem text_spelling (c : Compute) : c.spelling.text = c.line := by
  unfold Spelling.text Spelling.assignment line assignment spelling
  by_cases hjump : c.jump.mnemonic = omitted <;> by_cases hdest : c.dest.mnemonic = omitted <;>
    simp only [hjump, hdest, if_true, if_false]

/-- Leaving out what would be added again changes nothing. -/
private theorem getD_omitted {α : Type} {p : Prop} [Decidable p] {value default : α} (h : p → default = value) :
    (if p then none else some value).getD default = value := by
  by_cases hp : p
  · rw [if_pos hp, Option.getD_none, h hp]
  · rw [if_neg hp, Option.getD_some]

theorem compute_spelling (c : Compute) : c.spelling.compute = c := by
  have hdest : c.spelling.compute.dest = c.dest :=
    getD_omitted fun homitted => FieldValue.mnemonic_injective homitted.symm
  have hjump : c.spelling.compute.jump = c.jump :=
    getD_omitted fun homitted => FieldValue.mnemonic_injective homitted.symm
  exact congr (congrArg (Compute.mk · c.comp) hdest) hjump

theorem split_line (c : Compute) : Fields.split c.line = c.fields := by
  rw [← c.text_spelling, Spelling.split_text, c.compute_spelling]

theorem isAddress_line (c : Compute) : Line.isAddress c.line = false := by
  rw [← c.text_spelling, Spelling.isAddress_text]

theorem isLabel_line (c : Compute) : Line.isLabel c.line = false := by
  rw [← c.text_spelling, Spelling.isLabel_text]

end Compute

/-! ### Instructions -/

inductive Instruction where
  | address (n : Fin (2 ^ Word.addressWidth))
  | compute (c : Compute)
  deriving DecidableEq, Repr

namespace Instruction

/-- The shortest numeral, or the fields that are not `omitted`. -/
def line : Instruction → Text
  | .address n => Line.address (Nat.toDigits 10 n)
  | .compute c => c.line

def word : Instruction → Text
  | .address n => Word.ofAddress n
  | .compute c => c.word

/-- Reads a word back: the number behind a leading zero, or the fields behind the opening of a compute word. -/
def ofWord? : Text → Option Instruction
  | '0' :: digits =>
    if digits.length = Word.addressWidth ∧ Word.IsBinary digits then
      some (.address (Fin.ofNat _ (Numeral.value 2 digits)))
    else none
  | '1' :: '1' :: '1' :: rest => do
    let comp ← Comp.ofCode? (rest.take 7)
    let dest ← FieldValue.ofBits? ((rest.drop 7).take 3)
    let jump ← FieldValue.ofBits? ((rest.drop 7).drop 3)
    return .compute ⟨dest, comp, jump⟩
  | _ => none

theorem ofWord?_ofAddress (n : Fin (2 ^ Word.addressWidth)) :
    ofWord? (Word.ofAddress n) = some (.address n) := by
  obtain ⟨digits, hlength, hbinary, hword⟩ := Word.isAddress_iff.2 ⟨n, n.isLt, rfl⟩
  rw [hword, ofWord?, if_pos ⟨hlength, hbinary⟩, Word.value_of_ofAddress hword, Fin.ofNat_val_eq_self]

theorem ofWord?_compute_word (c : Compute) : ofWord? c.word = some (.compute c) := by
  have hcomp : Comp.ofCode? c.comp.code = some c.comp :=
    (FieldValue.find?_eq_some_iff Comp.code_injective).2 rfl
  have hdest : FieldValue.ofBits? (FieldValue.bits c.dest) = some c.dest :=
    (FieldValue.find?_eq_some_iff Dest.bits_injective).2 rfl
  have hjump : FieldValue.ofBits? (FieldValue.bits c.jump) = some c.jump :=
    (FieldValue.find?_eq_some_iff Jump.bits_injective).2 rfl
  have hcodeLength : c.comp.code.length = 7 := rfl
  have hdestLength : (FieldValue.bits c.dest).length = 3 := rfl
  rw [c.word_eq, ofWord?, List.take_left' hcodeLength, List.drop_left' hcodeLength, List.take_left' hdestLength,
    List.drop_left' hdestLength, hcomp, hdest, hjump]
  rfl

/-- Words are read back to the instruction that has them, and nothing else is read. -/
theorem ofWord?_eq_some_iff {word : Text} {i : Instruction} : ofWord? word = some i ↔ i.word = word := by
  constructor
  · intro h
    unfold ofWord? at h
    split at h
    · next digits =>
      by_cases hdigits : digits.length = Word.addressWidth ∧ Word.IsBinary digits
      · rw [if_pos hdigits] at h
        obtain rfl := Option.some.inj h
        obtain ⟨n, hn, hword⟩ := Word.isAddress_iff.1 ⟨digits, hdigits.1, hdigits.2, rfl⟩
        rw [Word.value_of_ofAddress hword.symm, hword, Instruction.word, Fin.val_ofNat, Nat.mod_eq_of_lt hn]
      · rw [if_neg hdigits] at h
        cases h
    · next rest =>
      simp only [Option.bind_eq_bind, Option.bind_eq_some_iff] at h
      obtain ⟨comp, hcomp, dest, hdest, jump, hjump, hi⟩ := h
      obtain rfl := Option.some.inj hi
      have hcode : comp.code = rest.take 7 := (FieldValue.find?_eq_some_iff Comp.code_injective).1 hcomp
      have hdestBits := (FieldValue.find?_eq_some_iff Dest.bits_injective).1 hdest
      have hjumpBits := (FieldValue.find?_eq_some_iff Jump.bits_injective).1 hjump
      rw [Instruction.word, Compute.word_eq, hcode, hdestBits, hjumpBits, List.take_append_drop,
        List.take_append_drop]
    · cases h
  · rintro rfl
    cases i with
    | address n => exact ofWord?_ofAddress n
    | compute c => exact ofWord?_compute_word c

theorem isMachineWord_iff {word : Text} : Word.IsMachineWord word ↔ ∃ i : Instruction, i.word = word := by
  rw [Word.IsMachineWord, Word.isAddress_iff, Word.isCompute_iff]
  constructor
  · rintro (⟨n, hn, rfl⟩ | ⟨c, rfl⟩)
    · exact ⟨.address ⟨n, hn⟩, rfl⟩
    · exact ⟨.compute c, rfl⟩
  · rintro ⟨i, rfl⟩
    cases i with
    | address n => exact .inl ⟨n, n.isLt, rfl⟩
    | compute c => exact .inr ⟨c, rfl⟩

theorem isLabel_line (i : Instruction) : Line.isLabel i.line = false := by
  cases i with
  | address n => exact Line.not_isLabel_of_isAddress (Line.isAddress_address _)
  | compute c => exact c.isLabel_line

/-- The line of an instruction is encoded to its word, whatever is bound. -/
theorem encode_line (i : Instruction) (c : Context) (index : Option Int) :
    Encoding.instruction c i.line index = .ok i.word := by
  cases i with
  | address n =>
    have hkind : Line.kind (Line.address (Nat.toDigits 10 n)) = .address :=
      Line.kind_eq_address_iff.2 (Line.isAddress_address _)
    have hliteral : Numeral.isLiteral (Nat.toDigits 10 n) = true :=
      (Numeral.isLiteral_iff _).2
        ⟨Nat.toDigits_ne_nil, fun _ => Nat.isDigit_of_mem_toDigits (by decide) (by decide)⟩
    have hlength : (Nat.toDigits 10 n).length ≤ 5 :=
      (Nat.length_toDigits_le_iff (by decide) (by decide)).2 (Nat.lt_trans n.isLt (by decide))
    have hshort : ¬Failure.maxLiteralDigits < (Nat.toDigits 10 n).length :=
      Nat.not_lt.2 (Nat.le_trans hlength (by decide))
    have hvalue : Numeral.value 10 (Nat.toDigits 10 n) = n :=
      Numeral.value_toDigits (by decide) (by decide) n
    have hrange : ¬Word.maxAddress < ((n : Nat) : Int) :=
      Int.not_lt.2 (Int.ofNat_le.2 (Nat.le_of_lt_succ n.isLt))
    rw [Encoding.instruction, line, if_pos hkind, Encoding.address, Line.operand_address,
      Context.resolve_of_isLiteral hliteral, Context.addressOf, if_pos hliteral, if_neg hshort, hvalue]
    simp only [Encoding.addressWord, if_neg hrange]
    rfl
  | compute c =>
    have hkind : ¬Line.kind c.line = .address := by
      rw [Line.kind_eq_address_iff, c.isAddress_line]
      exact Bool.false_ne_true
    rw [Encoding.instruction, line, if_neg hkind, Encoding.compute_eq_ok_iff]
    exact ⟨c, c.split_line, rfl⟩

end Instruction

end HackAssembler
