import Mathlib.Data.List.Basic
import HackAssembler.Proofs.Instruction.Joining

/-! The grammar of compute instructions. A line is encoded exactly if it is a computation with, perhaps, a destination
and its mark in front and a jump mark and its condition behind; else the first field that is unknown is reported. -/
namespace HackAssembler

namespace Fields

/-- The field that is reported is the first, in the order of look-up, that holds none of its mnemonics. -/
theorem unknown?_eq_some_iff {fields : Fields} {field : Field} :
    fields.unknown? = some field ↔
      fields.get field ∉ field.mnemonics ∧
        ∃ front back, [Field.comp, .dest, .jump] = front ++ field :: back ∧
          ∀ earlier ∈ front, fields.get earlier ∈ earlier.mnemonics := by
  rw [unknown?, List.find?_eq_some_iff_append]
  simp

end Fields

/-- No white space, no lower-case letters but those of `omitted`, and nothing that opens a line of another kind. -/
def IsTidy (t : Text) : Prop :=
  ∀ c ∈ t, Text.isBlank c = false ∧ (c.isLower = true → c ∈ omitted) ∧ c ≠ Line.labelOpen ∧ c ≠ Line.addressMark

instance (t : Text) : Decidable (IsTidy t) := List.decidableBAll _ t

theorem Comp.isTidy_mnemonic : ∀ c : Comp, IsTidy c.mnemonic :=
  FieldValue.forall_of_mem_all (by decide)

theorem Dest.isTidy_mnemonic : ∀ dest : Dest, IsTidy dest.mnemonic :=
  FieldValue.forall_of_mem_all (by decide)

theorem Jump.isTidy_mnemonic : ∀ jump : Jump, IsTidy jump.mnemonic :=
  FieldValue.forall_of_mem_all (by decide)

theorem Compute.fields_injective : Function.Injective Compute.fields := by
  rintro ⟨dest, comp, jump⟩ ⟨dest', comp', jump'⟩ h
  obtain rfl : dest = dest' := FieldValue.mnemonic_injective (congrArg Fields.dest h)
  obtain rfl : comp = comp' := FieldValue.mnemonic_injective (congrArg Fields.comp h)
  obtain rfl : jump = jump' := FieldValue.mnemonic_injective (congrArg Fields.jump h)
  rfl

/-- A compute instruction as it is written. A destination or a jump that is not there is left out with its mark; one
that is there may still be the mnemonic `omitted`. -/
structure Spelling where
  dest : Option Dest
  comp : Comp
  jump : Option Jump
  deriving DecidableEq, Repr

namespace Spelling

/-- The destination with its mark, in front of the computation. -/
def assignment (s : Spelling) : Text :=
  match s.dest with
  | none => s.comp.mnemonic
  | some dest => dest.mnemonic ++ Fields.assignMark :: s.comp.mnemonic

/-- The assignment, and the jump behind its mark. -/
def text (s : Spelling) : Text :=
  match s.jump with
  | none => s.assignment
  | some jump => s.assignment ++ Fields.jumpMark :: jump.mnemonic

/-- What the instruction does. Without a destination nothing is stored, and without a jump none is made. -/
def compute (s : Spelling) : Compute where
  dest := s.dest.getD ⟨false, false, false⟩
  comp := s.comp
  jump := s.jump.getD .never

variable (s : Spelling)

theorem mark_not_mem_assignment {mark : Char} (h : mark ∈ Line.structureMarks)
    (hassign : mark ≠ Fields.assignMark) : mark ∉ s.assignment := by
  have hcomp := s.comp.isUnmarked_mnemonic.not_mem h
  unfold assignment
  cases s.dest with
  | none => exact hcomp
  | some dest =>
    simp only [List.mem_append, List.mem_cons, not_or]
    exact ⟨dest.isUnmarked_mnemonic.not_mem h, hassign, hcomp⟩

theorem split_assignment :
    Fields.split s.assignment = ⟨s.compute.dest.mnemonic, s.comp.mnemonic, omitted⟩ := by
  have hassign : Fields.assignMark ∈ Line.structureMarks := by decide
  have hjump : Fields.jumpMark ∈ Line.structureMarks := by decide
  have hcomp := s.comp.isUnmarked_mnemonic
  unfold assignment compute
  cases s.dest with
  | none => exact Fields.split_of_not_mem (hcomp.not_mem hassign) (hcomp.not_mem hjump)
  | some dest =>
    have hdest := dest.isUnmarked_mnemonic
    exact Fields.split_append_assign (hdest.not_mem hassign) (hdest.not_mem hjump) (hcomp.not_mem hjump)

/-- A spelling is cut into the fields of what it does. -/
theorem split_text : Fields.split s.text = s.compute.fields := by
  have hassignment := s.split_assignment
  unfold text
  cases hjump : s.jump with
  | none =>
    have hnever : s.compute.jump = .never := by simp [compute, hjump]
    rw [hassignment, Compute.fields, hnever]
    rfl
  | some jump =>
    have hfront : Fields.jumpMark ∉ s.assignment := s.mark_not_mem_assignment (by decide) (by decide)
    have hback : Fields.assignMark ∉ jump.mnemonic := jump.isUnmarked_mnemonic.not_mem (by decide)
    have hsame : s.compute.jump = jump := by simp [compute, hjump]
    rw [Fields.split_append_jump hfront fun h => absurd h hback, hassignment, Compute.fields, hsame]
    rfl

/-! ### Marks -/

/-- Whatever stands behind a jump mark is the jump. -/
theorem jump_of_text {front back : Text} (h : s.text = front ++ Fields.jumpMark :: back) :
    ∃ jump, s.jump = some jump ∧ jump.mnemonic = back := by
  have hfront : Fields.jumpMark ∉ s.assignment := s.mark_not_mem_assignment (by decide) (by decide)
  unfold text at h
  cases hjump : s.jump with
  | none =>
    rw [hjump] at h
    simp only at h
    rw [h] at hfront
    simp at hfront
  | some jump =>
    have hback : Fields.jumpMark ∉ jump.mnemonic := jump.isUnmarked_mnemonic.not_mem (by decide)
    rw [hjump] at h
    exact ⟨jump, rfl, ((List.append_cons_inj_of_notMem hfront hback).1 h).2.2⟩

/-- Whatever stands in front of an assignment mark is the destination. -/
theorem dest_of_text {front back : Text} (h : s.text = front ++ Fields.assignMark :: back) :
    ∃ dest, s.dest = some dest ∧ dest.mnemonic = front := by
  have hassign : Fields.assignMark ∈ Line.structureMarks := by decide
  have hcomp : Fields.assignMark ∉ s.comp.mnemonic := s.comp.isUnmarked_mnemonic.not_mem hassign
  -- Behind the computation no assignment mark can stand.
  obtain ⟨tail, htail, htext⟩ : ∃ tail, Fields.assignMark ∉ tail ∧ s.text = s.assignment ++ tail := by
    unfold text
    cases s.jump with
    | none => exact ⟨[], List.not_mem_nil, (List.append_nil _).symm⟩
    | some jump =>
      refine ⟨Fields.jumpMark :: jump.mnemonic, ?_, rfl⟩
      simp only [List.mem_cons, not_or]
      exact ⟨by decide, jump.isUnmarked_mnemonic.not_mem hassign⟩
  rw [htext] at h
  unfold assignment at h
  cases hdest : s.dest with
  | none =>
    rw [hdest] at h
    have hmem : Fields.assignMark ∈ s.comp.mnemonic ++ tail := by
      rw [h]
      simp
    exact absurd hmem (by simp [hcomp, htail])
  | some dest =>
    have hfront : Fields.assignMark ∉ dest.mnemonic := dest.isUnmarked_mnemonic.not_mem hassign
    have hback : Fields.assignMark ∉ s.comp.mnemonic ++ tail := by simp [hcomp, htail]
    rw [hdest] at h
    simp only [List.append_assoc, List.cons_append] at h
    exact ⟨dest, rfl, ((List.append_cons_inj_of_notMem hfront hback).1 h).1⟩

theorem assignMark_mem_text_iff : Fields.assignMark ∈ s.text ↔ s.dest.isSome = true := by
  constructor
  · intro h
    obtain ⟨front, back, htext⟩ := List.append_of_mem h
    obtain ⟨dest, hdest, -⟩ := s.dest_of_text htext
    rw [hdest, Option.isSome_some]
  · intro h
    obtain ⟨dest, hdest⟩ := Option.isSome_iff_exists.1 h
    have hassignment : Fields.assignMark ∈ s.assignment := by simp [assignment, hdest]
    unfold text
    cases s.jump with
    | none => exact hassignment
    | some jump => exact List.mem_append_left _ hassignment

theorem jumpMark_mem_text_iff : Fields.jumpMark ∈ s.text ↔ s.jump.isSome = true := by
  constructor
  · intro h
    obtain ⟨front, back, htext⟩ := List.append_of_mem h
    obtain ⟨jump, hjump, -⟩ := s.jump_of_text htext
    rw [hjump, Option.isSome_some]
  · intro h
    obtain ⟨jump, hjump⟩ := Option.isSome_iff_exists.1 h
    simp [text, hjump]

private theorem eq_of_isSome_of_getD {α : Type} {first next : Option α} {default : α}
    (h : first.isSome = next.isSome) (h' : first.getD default = next.getD default) : first = next := by
  cases first with
  | none => exact (Option.not_isSome_iff_eq_none.1 (ne_true_of_eq_false h.symm)).symm
  | some value =>
    obtain ⟨value', rfl⟩ := Option.isSome_iff_exists.1 h.symm
    exact congrArg some h'

/-- Lines are spelt in one way: the marks tell which parts are there, and the fields what they are. -/
theorem text_injective : Function.Injective text := by
  intro s t h
  have hfields : s.compute.fields = t.compute.fields := by rw [← s.split_text, ← t.split_text, h]
  have hcompute : s.compute = t.compute := Compute.fields_injective hfields
  have hdest : s.dest.isSome = t.dest.isSome := by
    rw [Bool.eq_iff_iff, ← assignMark_mem_text_iff, ← assignMark_mem_text_iff, h]
  have hjump : s.jump.isSome = t.jump.isSome := by
    rw [Bool.eq_iff_iff, ← jumpMark_mem_text_iff, ← jumpMark_mem_text_iff, h]
  obtain ⟨dest, comp, jump⟩ := s
  obtain ⟨dest', comp', jump'⟩ := t
  obtain ⟨hstored, rfl, htaken⟩ := Compute.mk.inj hcompute
  obtain rfl := eq_of_isSome_of_getD hdest hstored
  obtain rfl := eq_of_isSome_of_getD hjump htaken
  rfl

/-- A line whose fields are those of an instruction is a spelling of it. -/
theorem exists_of_split {line : Text} {c : Compute} (h : Fields.split line = c.fields) :
    ∃ s : Spelling, s.text = line := by
  have hfields : Fields.split line = ⟨c.dest.mnemonic, c.comp.mnemonic, c.jump.mnemonic⟩ := h
  have hcomp : (Fields.split line).comp ≠ [] := by
    rw [hfields]
    exact c.comp.mnemonic_ne_nil
  have hjoin := Fields.join_split (not_imp_comm.1 Fields.comp_of_not_inOrder hcomp)
  rw [hfields, Fields.join] at hjoin
  by_cases hassign : Fields.assignMark ∈ line
  · by_cases hmark : Fields.jumpMark ∈ line
    · exact ⟨⟨some c.dest, c.comp, some c.jump⟩, by simpa [text, assignment, hassign, hmark] using hjoin⟩
    · exact ⟨⟨some c.dest, c.comp, none⟩, by simpa [text, assignment, hassign, hmark] using hjoin⟩
  · by_cases hmark : Fields.jumpMark ∈ line
    · exact ⟨⟨none, c.comp, some c.jump⟩, by simpa [text, assignment, hassign, hmark] using hjoin⟩
    · exact ⟨⟨none, c.comp, none⟩, by simpa [text, assignment, hassign, hmark] using hjoin⟩

/-! ### Characters -/

/-- What holds of the marks and of every mnemonic holds of a whole line. -/
theorem forall_mem_text {p : Char → Prop} (hassign : p Fields.assignMark) (hmark : p Fields.jumpMark)
    (hcomp : ∀ comp : Comp, ∀ c ∈ comp.mnemonic, p c) (hdest : ∀ dest : Dest, ∀ c ∈ dest.mnemonic, p c)
    (hjump : ∀ jump : Jump, ∀ c ∈ jump.mnemonic, p c) : ∀ c ∈ s.text, p c := by
  have hassignment : ∀ c ∈ s.assignment, p c := by
    unfold assignment
    cases s.dest with
    | none => exact hcomp s.comp
    | some dest => exact List.forall_mem_append.2 ⟨hdest dest, List.forall_mem_cons.2 ⟨hassign, hcomp s.comp⟩⟩
  unfold text
  cases s.jump with
  | none => exact hassignment
  | some jump => exact List.forall_mem_append.2 ⟨hassignment, List.forall_mem_cons.2 ⟨hmark, hjump jump⟩⟩

theorem isTidy_text : IsTidy s.text :=
  s.forall_mem_text (by decide) (by decide) Comp.isTidy_mnemonic Dest.isTidy_mnemonic Jump.isTidy_mnemonic

theorem isLabel_text : Line.isLabel s.text = false := by
  have hhead : ¬s.text.head? = some Line.labelOpen :=
    fun h => (s.isTidy_text _ (List.mem_of_mem_head? h)).2.2.1 rfl
  rw [Line.isLabel, decide_eq_false hhead, Bool.false_and]

theorem isAddress_text : Line.isAddress s.text = false := by
  rw [Line.isAddress, decide_eq_false_iff_not]
  exact fun h => (s.isTidy_text _ (List.mem_of_mem_head? h)).2.2.2 rfl

end Spelling

namespace Encoding

variable {line : Text} {index : Option Int}

theorem compute_text (s : Spelling) (index : Option Int) : compute s.text index = .ok s.compute.word :=
  compute_eq_ok_iff.2 ⟨s.compute, s.split_text, rfl⟩

theorem exists_spelling_iff : (∃ word, compute line index = .ok word) ↔ ∃ s : Spelling, s.text = line := by
  constructor
  · rintro ⟨word, hword⟩
    obtain ⟨c, hsplit, -⟩ := compute_eq_ok_iff.1 hword
    exact Spelling.exists_of_split hsplit
  · rintro ⟨s, rfl⟩
    exact ⟨_, compute_text s index⟩

theorem exists_unknown_of_error {f : Failure} (h : compute line index = .error f) :
    ∃ field, (Fields.split line).unknown? = some field ∧
      f = .diagnostic {
        cause := .unknownMnemonic field.name ((Fields.split line).get field) line field.mnemonics
        index } := by
  cases hunknown : (Fields.split line).unknown? with
  | none =>
    obtain ⟨word, -, hword⟩ := compute_of_known hunknown index
    rw [h] at hword
    cases hword
  | some field =>
    have hfault := compute_of_unknown hunknown index
    rw [h] at hfault
    exact ⟨field, rfl, Except.error.inj hfault⟩

/-- Exactly the lines of the grammar are encoded, each of them has one spelling, and its word is that of the spelling.
In such a line nothing but a jump stands behind a jump mark, nothing but a destination in front of an assignment mark,
and there is neither white space nor a lower-case letter outside `omitted`. Any other line is refused for the first
field that is unknown, behind fields that are known. -/
theorem compute_accepts_exactly_spellings (line : Text) (index : Option Int) :
    ((∃ word, compute line index = .ok word) ↔ ∃ s : Spelling, s.text = line) ∧
    (∀ s : Spelling, s.text = line →
      compute line index = .ok s.compute.word ∧ ∀ t : Spelling, t.text = line → t = s) ∧
    (∀ word, compute line index = .ok word →
      (∀ front back, line = front ++ Fields.jumpMark :: back → ∃ jump : Jump, jump.mnemonic = back) ∧
      (∀ front back, line = front ++ Fields.assignMark :: back → ∃ dest : Dest, dest.mnemonic = front) ∧
      (∀ c ∈ line, Text.isBlank c = false ∧ (c.isLower = true → c ∈ omitted)) ∧
      Line.isLabel line = false) ∧
    (∀ f, compute line index = .error f → ∃ field : Field,
      f = .diagnostic {
        cause := .unknownMnemonic field.name ((Fields.split line).get field) line field.mnemonics
        index } ∧
      (Fields.split line).get field ∉ field.mnemonics ∧
      ∃ front back, [Field.comp, .dest, .jump] = front ++ field :: back ∧
        ∀ earlier ∈ front, (Fields.split line).get earlier ∈ earlier.mnemonics) := by
  refine ⟨exists_spelling_iff, ?_, ?_, ?_⟩
  · rintro s rfl
    exact ⟨compute_text s index, fun t ht => Spelling.text_injective ht⟩
  · intro word hword
    obtain ⟨s, rfl⟩ := exists_spelling_iff.1 ⟨word, hword⟩
    refine ⟨fun front back hline => ?_, fun front back hline => ?_, fun c hc => ?_, s.isLabel_text⟩
    · obtain ⟨jump, -, hback⟩ := s.jump_of_text hline
      exact ⟨jump, hback⟩
    · obtain ⟨dest, -, hfront⟩ := s.dest_of_text hline
      exact ⟨dest, hfront⟩
    · obtain ⟨hblank, hlower, -⟩ := s.isTidy_text c hc
      exact ⟨hblank, hlower⟩
  · intro f hf
    obtain ⟨field, hunknown, hfault⟩ := exists_unknown_of_error hf
    obtain ⟨hfield, hknown⟩ := Fields.unknown?_eq_some_iff.1 hunknown
    exact ⟨field, hfault, hfield, hknown⟩

/-- Every part is written, the destination as `omitted`. -/
def fullSpelling : Spelling := ⟨some ⟨false, false, false⟩, .operandMinusOne .memory, some .nonzero⟩

/-- The marks in the wrong order. -/
def swappedMarks : Text := ['0', ';', 'J', 'M', 'P', '=', 'D']

theorem compute_accepts_fullSpelling :
    fullSpelling.text = ['n', 'u', 'l', 'l', '=', 'M', '-', '1', ';', 'J', 'N', 'E'] ∧
    compute fullSpelling.text none =
      .ok ['1', '1', '1', '1', '1', '1', '0', '0', '1', '0', '0', '0', '0', '1', '0', '1'] ∧
    (∀ t : Spelling, t.text = fullSpelling.text → t = fullSpelling) ∧
    (¬∃ s : Spelling, s.text = swappedMarks) ∧
    compute swappedMarks (some 3) = .error (.diagnostic {
      cause := .unknownMnemonic Field.comp.name [] swappedMarks Field.comp.mnemonics
      index := some 3 }) := by
  obtain ⟨hword, hunique⟩ := (compute_accepts_exactly_spellings fullSpelling.text none).2.1 fullSpelling rfl
  obtain ⟨haccepts, -, -, hrefuses⟩ := compute_accepts_exactly_spellings swappedMarks (some 3)
  have hrefused : (compute swappedMarks (some 3)).isOk = false := by decide +kernel
  refine ⟨rfl, hword, hunique, ?_⟩
  cases hrun : compute swappedMarks (some 3) with
  | ok word =>
    rw [hrun] at hrefused
    cases hrefused
  | error f =>
    rw [hrun] at haccepts hrefuses
    refine ⟨fun h => ?_, ?_⟩
    · obtain ⟨word, hword⟩ := haccepts.2 h
      cases hword
    · obtain ⟨field, rfl, hfield, front, back, horder, hknown⟩ := hrefuses f rfl
      have hcomp : (Fields.split swappedMarks).get .comp = [] := by decide
      have hempty : [] ∉ Field.comp.mnemonics := by decide
      cases front with
      | nil =>
        obtain ⟨rfl, -⟩ := List.cons.inj horder
        rw [hcomp]
      | cons first rest =>
        obtain ⟨rfl, -⟩ := List.cons.inj horder
        have hfirst := hknown .comp List.mem_cons_self
        rw [hcomp] at hfirst
        exact absurd hfirst hempty

end Encoding

end HackAssembler
