import HackAssembler.Proofs.Instruction.Reading
import HackAssembler.Proofs.Occurrence

/-! Fields written and split again: a line that is put together from fields without marks is cut into the same
fields. -/
namespace HackAssembler

namespace Text

theorem before_append_cons {c : Char} {s : Text} (h : c ∉ s) (t : Text) : before c (s ++ c :: t) = s :=
  List.takeWhile_ne_append_cons h t

theorem after_append_cons {c : Char} {s : Text} (h : c ∉ s) (t : Text) : after c (s ++ c :: t) = t := by
  have hcut := before_append_after (List.mem_append_right s (List.mem_cons_self (a := c) (l := t)))
  rw [before_append_cons h] at hcut
  exact (List.cons.inj (List.append_cancel_left hcut)).2

theorem before_append_of_mem {c : Char} {s : Text} (h : c ∈ s) (t : Text) :
    before c (s ++ t) = before c s := by
  obtain ⟨front, back, rfl, hfront⟩ := List.eq_append_cons_of_mem h
  rw [List.append_assoc, List.cons_append, before_append_cons hfront, before_append_cons hfront]

end Text

namespace Fields

theorem split_of_not_mem {comp : Text} (hassign : assignMark ∉ comp) (hjump : jumpMark ∉ comp) :
    split comp = ⟨omitted, comp, omitted⟩ := by
  have hbody := Text.before_eq_self hjump
  simp only [split, hbody, if_neg hassign, if_neg hjump]

theorem split_append_assign {dest comp : Text} (hdest : assignMark ∉ dest) (hjump : jumpMark ∉ dest)
    (hcomp : jumpMark ∉ comp) : split (dest ++ assignMark :: comp) = ⟨dest, comp, omitted⟩ := by
  have hmem : assignMark ∈ dest ++ assignMark :: comp := by simp
  have hnone : jumpMark ∉ dest ++ assignMark :: comp := by
    simp only [List.mem_append, List.mem_cons, not_or]
    exact ⟨hjump, by decide, hcomp⟩
  have hbody := Text.before_eq_self hnone
  simp only [split, hbody, if_pos hmem, if_neg hnone, Text.before_append_cons hdest,
    Text.after_append_cons hdest]

/-- A jump behind a line changes its jump field alone, also if it holds an assignment mark, as long as the line has one
of its own. -/
theorem split_append_jump {front jump : Text} (hfront : jumpMark ∉ front)
    (hjump : assignMark ∈ jump → assignMark ∈ front) :
    split (front ++ jumpMark :: jump) = { split front with jump } := by
  have hmem : jumpMark ∈ front ++ jumpMark :: jump := by simp
  have hiff : assignMark ∈ front ++ jumpMark :: jump ↔ assignMark ∈ front := by
    simp only [List.mem_append, List.mem_cons, or_iff_left_iff_imp]
    rintro (hmark | hmark)
    · exact absurd hmark (by decide)
    · exact hjump hmark
  have hbody := Text.before_eq_self hfront
  simp only [split, hiff, if_pos hmem, Text.before_append_cons hfront, Text.after_append_cons hfront, hbody]
  by_cases hassign : assignMark ∈ front
  · simp only [if_pos hassign, Text.before_append_of_mem hassign]
  · simp only [if_neg hassign]

end Fields

/-! ### Mnemonics -/

namespace Line

/-- The characters that give a line its structure. -/
def structureMarks : List Char := [Fields.assignMark, Fields.jumpMark, addressMark, labelOpen]

def IsUnmarked (t : Text) : Prop := ∀ c ∈ t, c ∉ structureMarks

instance (t : Text) : Decidable (IsUnmarked t) := List.decidableBAll _ t

theorem IsUnmarked.not_mem {t : Text} (h : IsUnmarked t) {mark : Char} (hmark : mark ∈ structureMarks) :
    mark ∉ t :=
  fun hmem => h mark hmem hmark

end Line

theorem Comp.isUnmarked_mnemonic : ∀ c : Comp, Line.IsUnmarked c.mnemonic :=
  FieldValue.forall_of_mem_all (by decide)

theorem Dest.isUnmarked_mnemonic : ∀ dest : Dest, Line.IsUnmarked dest.mnemonic :=
  FieldValue.forall_of_mem_all (by decide)

theorem Jump.isUnmarked_mnemonic : ∀ jump : Jump, Line.IsUnmarked jump.mnemonic :=
  FieldValue.forall_of_mem_all (by decide)

end HackAssembler
