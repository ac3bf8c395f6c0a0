import Mathlib.Logic.Embedding.Basic
import HackAssembler.Program.Assembly
import HackAssembler.Proofs.Program.Meaning

/-! Renamings of the names that a program gives their meaning, and what they do to lines, symbols and faults. -/
namespace HackAssembler

/-- The number of the line or instruction that a failure is about. -/
def Failure.index? : Failure → Option Int
  | .diagnostic d => d.index
  | _ => none

abbrev FreeName := {name : Text // IsFree name}

/-- New names for the free names, different ones for different ones. -/
abbrev Renaming := FreeName ↪ FreeName

namespace Renaming
variable (σ : Renaming)

/-! ### Names -/

/-- Numbers and predefined names stay. -/
def name (n : Text) : Text := if h : IsFree n then σ ⟨n, h⟩ else n

theorem name_of_free {n : Text} (h : IsFree n) : σ.name n = σ ⟨n, h⟩ := dif_pos h

theorem name_of_not_free {n : Text} (h : ¬IsFree n) : σ.name n = n := dif_neg h

theorem isFree_name {n : Text} (h : IsFree n) : IsFree (σ.name n) := by
  rw [σ.name_of_free h]
  exact (σ ⟨n, h⟩).property

theorem name_of_literal {n : Text} (h : Numeral.isLiteral n = true) : σ.name n = n := by
  apply σ.name_of_not_free
  intro hfree
  rw [hfree.1] at h
  cases h

theorem name_of_predefined {n : Text} (h : Program.predefined? n ≠ none) : σ.name n = n := by
  apply σ.name_of_not_free
  intro hfree
  exact h hfree.2

@[simp] theorem isLiteral_name (n : Text) : Numeral.isLiteral (σ.name n) = Numeral.isLiteral n := by
  by_cases h : IsFree n
  · have hname := σ.isFree_name h
    rw [hname.1, h.1]
  · rw [σ.name_of_not_free h]

theorem name_injective : Function.Injective σ.name := by
  intro m n h
  by_cases hm : IsFree m
  · have hfree := σ.isFree_name hm
    by_cases hn : IsFree n
    · rw [σ.name_of_free hm, σ.name_of_free hn] at h
      have hsame := σ.injective (Subtype.ext h)
      exact congrArg Subtype.val hsame
    · rw [h, σ.name_of_not_free hn] at hfree
      exact absurd hfree hn
  · rw [σ.name_of_not_free hm] at h
    by_cases hn : IsFree n
    · have hfree := σ.isFree_name hn
      rw [← h] at hfree
      exact absurd hfree hm
    · rwa [σ.name_of_not_free hn] at h

/-! ### Lines -/

/-- Declarations and address instructions take the new name, and any other line stays. -/
def line (l : Text) : Text :=
  match Line.kind l with
  | .label => Line.label (σ.name (Line.labelName l))
  | .address => Line.address (σ.name (Line.operand l))
  | .compute => l

theorem line_label (n : Text) : σ.line (Line.label n) = Line.label (σ.name n) := by
  have hkind : Line.kind (Line.label n) = .label := by simp [Line.kind]
  simp only [line, hkind, Line.labelName_label]

theorem line_address (n : Text) : σ.line (Line.address n) = Line.address (σ.name n) := by
  have hkind : Line.kind (Line.address n) = .address :=
    Line.kind_eq_address_iff.2 (Line.isAddress_address n)
  simp only [line, hkind, Line.operand_address]

theorem line_of_compute {l : Text} (hlabel : Line.isLabel l = false)
    (haddress : Line.isAddress l = false) : σ.line l = l := by
  have hkind : Line.kind l = .compute := by simp [Line.kind, hlabel, haddress]
  simp only [line, hkind]

/-- A line is a declaration, an address instruction, or one that no renaming touches. -/
theorem line_cases (l : Text) :
    (∃ n, l = Line.label n ∧ σ.line l = Line.label (σ.name n)) ∨
      (∃ n, l = Line.address n ∧ σ.line l = Line.address (σ.name n)) ∨
      (Line.isLabel l = false ∧ Line.isAddress l = false ∧ σ.line l = l) := by
  cases hlabel : Line.isLabel l with
  | true =>
    have hl := Line.isLabel_iff.1 hlabel
    refine .inl ⟨Line.labelName l, hl, ?_⟩
    rw [hl, line_label, Line.labelName_label]
  | false =>
    cases haddress : Line.isAddress l with
    | true =>
      have hl := Line.isAddress_iff.1 haddress
      refine .inr (.inl ⟨Line.operand l, hl, ?_⟩)
      rw [hl, line_address, Line.operand_address]
    | false => exact .inr (.inr ⟨rfl, rfl, σ.line_of_compute hlabel haddress⟩)

@[simp] theorem isLabel_line (l : Text) : Line.isLabel (σ.line l) = Line.isLabel l := by
  rcases σ.line_cases l with ⟨n, rfl, hline⟩ | ⟨n, rfl, hline⟩ | ⟨-, -, hline⟩
  · rw [hline, Line.isLabel_label, Line.isLabel_label]
  · have hnot : ∀ m, Line.isLabel (Line.address m) = false :=
      fun m => Line.not_isLabel_of_isAddress (Line.isAddress_address m)
    rw [hline, hnot, hnot]
  · rw [hline]

def sourceLine (l : SourceLine) : SourceLine := ⟨σ.line l.text, l.line, σ.line l.written⟩

theorem instructions_map (lines : List Text) :
    Labels.instructions (lines.map σ.line) = (Labels.instructions lines).map σ.line := by
  rw [Labels.instructions, Labels.instructions, List.filter_map]
  congr 1
  apply List.filter_congr
  intro l _
  simp

theorem instructionLines_map (lines : List SourceLine) :
    Assembly.instructionLines (lines.map σ.sourceLine) =
      (Assembly.instructionLines lines).map σ.sourceLine := by
  rw [Assembly.instructionLines, Assembly.instructionLines, List.filter_map]
  congr 1
  apply List.filter_congr
  intro l _
  simp [sourceLine]

theorem texts_map (lines : List SourceLine) :
    Program.texts (lines.map σ.sourceLine) = (Program.texts lines).map σ.line := by
  rw [Program.texts, Program.texts, List.map_map, List.map_map]
  rfl

theorem ofLines_map (lines : List Text) :
    Source.ofLines (lines.map σ.line) = (Source.ofLines lines).map σ.sourceLine := by
  apply List.ext_getElem?
  intro i
  simp only [Source.ofLines, List.getElem?_map, List.getElem?_zipIdx]
  cases lines[i]? <;> rfl

/-! ### Symbols and faults -/

def symbol (s : Symbol) : Symbol := { s with name := σ.name s.name }

/-- The cause of a fault in the words of the renamed program. What is wrong with a compute instruction does not
change. -/
def cause : Cause → Cause
  | .duplicateSymbol n address => .duplicateSymbol (σ.name n) address
  | .addressRange value l => .addressRange value (σ.line l)
  | .unknownMnemonic field mnemonic l valid => .unknownMnemonic field mnemonic l valid
  | .general description hint => .general description hint

def diagnostic (d : Diagnostic) : Diagnostic :=
  { d with cause := σ.cause d.cause, sourceLine := d.sourceLine.map σ.line }

def failure : Failure → Failure
  | .diagnostic d => .diagnostic (σ.diagnostic d)
  | f => f

/-- A renaming does not change what kind of fault it is. -/
theorem families_failure (f : Failure) : (σ.failure f).families = f.families := by
  cases f with
  | diagnostic d =>
    obtain ⟨cause, index, location, sourceLine⟩ := d
    cases cause <;> rfl
  | setting | general | file | undecodable | literalTooLong | numberTooLong | unbound | suffix | unexpected => rfl

theorem index?_failure (f : Failure) : (σ.failure f).index? = f.index? := by
  cases f <;> rfl

theorem locate_diagnostic (d : Diagnostic) (file : Text) (lines : List SourceLine) :
    (σ.diagnostic d).locate file (lines.map σ.sourceLine) = σ.diagnostic (d.locate file lines) := by
  obtain ⟨cause, index, location, sourceLine⟩ := d
  cases index with
  | none => rfl
  | some i =>
    by_cases hi : i < 0
    · simp [Diagnostic.locate, diagnostic, hi]
    · simp only [Diagnostic.locate, diagnostic, hi, if_false, List.getElem?_map]
      cases lines[i.toNat]? <;> rfl

theorem locate_failure (f : Failure) (file : Text) (lines : List SourceLine) :
    (σ.failure f).locate file (lines.map σ.sourceLine) = σ.failure (f.locate file lines) := by
  cases f with
  | diagnostic d => exact congrArg Failure.diagnostic (σ.locate_diagnostic d file lines)
  | setting | general | file | undecodable | literalTooLong | numberTooLong | unbound | suffix | unexpected => rfl

end Renaming

end HackAssembler
