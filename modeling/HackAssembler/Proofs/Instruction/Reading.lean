import HackAssembler.Program.Encoding

/-! The reading of compute instructions: the word that the three fields spell, or the first field that holds no
mnemonic of its own. -/
namespace HackAssembler

/-- What a field may hold, in the order in which it is offered to a reader. -/
def Field.mnemonics : Field → List Text
  | .comp => (FieldValue.all (α := Comp)).map FieldValue.mnemonic
  | .dest => (FieldValue.all (α := Dest)).map FieldValue.mnemonic
  | .jump => (FieldValue.all (α := Jump)).map FieldValue.mnemonic

namespace FieldValue
variable {α : Type} [FieldValue α]

theorem contains_mnemonics (t : Text) :
    ((all (α := α)).map mnemonic).contains t = (ofMnemonic? (α := α) t).isSome := by
  rw [Bool.eq_iff_iff, List.contains_iff_mem, List.mem_map, Option.isSome_iff_exists]
  constructor
  · rintro ⟨v, -, hv⟩
    exact ⟨v, ofMnemonic?_eq_some_iff.2 hv⟩
  · rintro ⟨v, hv⟩
    exact ⟨v, mem_all v, ofMnemonic?_eq_some_iff.1 hv⟩

end FieldValue

namespace Fields

/-- The first field, in the order of look-up, that holds none of its mnemonics. -/
def unknown? (fields : Fields) : Option Field :=
  [Field.comp, .dest, .jump].find? fun field => !field.mnemonics.contains (fields.get field)

/-- The opening, the operand bit, and the bits of the three mnemonics. -/
def word? (fields : Fields) : Option Text := do
  let comp ← FieldValue.ofMnemonic? (α := Comp) fields.comp
  let dest ← FieldValue.ofMnemonic? (α := Dest) fields.dest
  let jump ← FieldValue.ofMnemonic? (α := Jump) fields.jump
  return Word.computeOpening ++ Comp.operandBit fields.comp :: FieldValue.bits comp ++
    FieldValue.bits dest ++ FieldValue.bits jump

theorem unknown?_isSome_iff (fields : Fields) :
    fields.unknown?.isSome = true ↔ ∃ field : Field, fields.get field ∉ field.mnemonics := by
  rw [unknown?, List.find?_isSome]
  constructor
  · rintro ⟨field, -, h⟩
    exact ⟨field, by simpa using h⟩
  · rintro ⟨field, h⟩
    exact ⟨field, by cases field <;> decide, by simpa using h⟩

end Fields

namespace Compute

/-- What is written for the fields of an instruction. -/
def fields (c : Compute) : Fields where
  dest := FieldValue.mnemonic c.dest
  comp := FieldValue.mnemonic c.comp
  jump := FieldValue.mnemonic c.jump

theorem readField_eq_ok_iff {α : Type} [FieldValue α] {field : Field} {line : Text} {index : Option Int}
    {v : α} :
    readField α field line index = .ok v ↔ (Fields.split line).get field = FieldValue.mnemonic v := by
  rw [eq_comm (b := FieldValue.mnemonic v), ← FieldValue.ofMnemonic?_eq_some_iff, readField]
  cases FieldValue.ofMnemonic? (α := α) ((Fields.split line).get field) <;> simp

theorem read_eq_ok_iff {line : Text} {index : Option Int} {c : Compute} :
    read line index = .ok c ↔ Fields.split line = c.fields := by
  constructor
  · intro h
    cases hcomp : readField Comp .comp line index with
    | error d => simp [read, hcomp, bind, Except.bind] at h
    | ok comp =>
      cases hdest : readField Dest .dest line index with
      | error d => simp [read, hcomp, hdest, bind, Except.bind] at h
      | ok dest =>
        cases hjump : readField Jump .jump line index with
        | error d => simp [read, hcomp, hdest, hjump, bind, Except.bind] at h
        | ok jump =>
          simp only [read, hcomp, hdest, hjump] at h
          obtain rfl := Except.ok.inj h
          rw [readField_eq_ok_iff] at hcomp hdest hjump
          simp only [fields, ← hcomp, ← hdest, ← hjump]
          rfl
  · intro h
    have hcomp : readField Comp .comp line index = .ok c.comp := by
      rw [readField_eq_ok_iff, h]
      rfl
    have hdest : readField Dest .dest line index = .ok c.dest := by
      rw [readField_eq_ok_iff, h]
      rfl
    have hjump : readField Jump .jump line index = .ok c.jump := by
      rw [readField_eq_ok_iff, h]
      rfl
    simp only [read, hcomp, hdest, hjump]
    rfl

end Compute

theorem Fields.word?_eq_some_iff {fields : Fields} {word : Text} :
    fields.word? = some word ↔ ∃ c : Compute, fields = c.fields ∧ word = c.word := by
  constructor
  · intro h
    simp only [word?, Option.bind_eq_bind, Option.bind_eq_some_iff,
      FieldValue.ofMnemonic?_eq_some_iff] at h
    obtain ⟨comp, hcomp, dest, hdest, jump, hjump, hword⟩ := h
    refine ⟨⟨dest, comp, jump⟩, ?_, ?_⟩
    · rw [Compute.fields, hdest, hcomp, hjump]
    · rw [← hcomp] at hword
      exact (Option.some.inj hword).symm
  · rintro ⟨c, rfl, rfl⟩
    simp only [word?, Compute.fields, FieldValue.ofMnemonic?_mnemonic]
    rfl

namespace Encoding

theorem compute_eq_ok_iff {line word : Text} {index : Option Int} :
    compute line index = .ok word ↔ ∃ c : Compute, Fields.split line = c.fields ∧ word = c.word := by
  have hread : ∀ c, Compute.read line index = .ok c ↔ Fields.split line = c.fields :=
    fun _ => Compute.read_eq_ok_iff
  simp only [← hread]
  unfold compute
  cases Compute.read line index <;> simp [eq_comm]

/-- A compute instruction is refused for the first field that is unknown. -/
theorem compute_of_unknown {line : Text} {field : Field} (h : (Fields.split line).unknown? = some field)
    (index : Option Int) :
    compute line index = .error (.diagnostic {
      cause := .unknownMnemonic field.name ((Fields.split line).get field) line field.mnemonics
      index }) := by
  simp only [Fields.unknown?, List.find?_cons, Field.mnemonics, FieldValue.contains_mnemonics,
    Fields.get] at h
  unfold compute Compute.read Compute.readField
  simp only [Fields.get]
  cases hcomp : FieldValue.ofMnemonic? (α := Comp) (Fields.split line).comp with
  | none =>
    simp only [hcomp, Option.isSome_none, Bool.not_false, Option.some.injEq] at h
    subst h
    rfl
  | some comp =>
    cases hdest : FieldValue.ofMnemonic? (α := Dest) (Fields.split line).dest with
    | none =>
      simp only [hcomp, hdest, Option.isSome_some, Option.isSome_none, Bool.not_true, Bool.not_false,
        Option.some.injEq] at h
      subst h
      rfl
    | some dest =>
      cases hjump : FieldValue.ofMnemonic? (α := Jump) (Fields.split line).jump with
      | none =>
        simp only [hcomp, hdest, hjump, Option.isSome_some, Option.isSome_none, Bool.not_true,
          Bool.not_false, Option.some.injEq] at h
        subst h
        rfl
      | some jump => simp [hcomp, hdest, hjump] at h

/-- A compute instruction without an unknown field is encoded by its fields. -/
theorem compute_of_known {line : Text} (h : (Fields.split line).unknown? = none) (index : Option Int) :
    ∃ word, (Fields.split line).word? = some word ∧ compute line index = .ok word := by
  have hknown : ∀ field : Field, field.mnemonics.contains ((Fields.split line).get field) = true := by
    intro field
    have hfield := List.find?_eq_none.1 h field (by cases field <;> decide)
    simpa using hfield
  have hc := hknown .comp
  have hd := hknown .dest
  have hj := hknown .jump
  simp only [Field.mnemonics, FieldValue.contains_mnemonics, Fields.get, Option.isSome_iff_exists,
    FieldValue.ofMnemonic?_eq_some_iff] at hc hd hj
  obtain ⟨comp, hcomp⟩ := hc
  obtain ⟨dest, hdest⟩ := hd
  obtain ⟨jump, hjump⟩ := hj
  have hfields : Fields.split line = Compute.fields ⟨dest, comp, jump⟩ := by
    rw [Compute.fields, hdest, hcomp, hjump]
  exact ⟨_, Fields.word?_eq_some_iff.2 ⟨_, hfields, rfl⟩, compute_eq_ok_iff.2 ⟨_, hfields, rfl⟩⟩

end Encoding

end HackAssembler
