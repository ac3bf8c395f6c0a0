import Mathlib.Data.List.Basic
import HackAssembler.Proofs.Instruction.Splitting

/-! Compute instructions cut into their fields and joined again. Joining gives a line back exactly if its marks are in
order; a line that is joined from fields is cut into the same fields, whatever marks stand in its last field; and a line
whose marks are in the wrong order is refused, since nothing is left between them for the computation. -/
namespace HackAssembler

theorem Comp.mnemonic_ne_nil : ∀ c : Comp, c.mnemonic ≠ [] :=
  FieldValue.forall_of_mem_all (by decide)

namespace Text

private theorem findIdx_eq_idxOf (c : Char) (t : Text) : t.findIdx (fun d => !decide (d ≠ c)) = t.idxOf c := by
  have hsame : (fun d => !decide (d ≠ c)) = (· == c) := by
    funext d
    rw [decide_not, Bool.not_not, beq_eq_decide]
  rw [List.idxOf, hsame]

theorem before_eq_take (c : Char) (t : Text) : before c t = t.take (t.idxOf c) := by
  rw [before, List.takeWhile_eq_take_findIdx_not, findIdx_eq_idxOf]

theorem after_eq_drop (c : Char) (t : Text) : after c t = t.drop (t.idxOf c + 1) := by
  rw [after, List.dropWhile_eq_drop_findIdx_not, findIdx_eq_idxOf, List.drop_drop]

theorem mem_before_iff {c d : Char} {t : Text} (h : c ∈ t) : c ∈ before d t ↔ t.idxOf c < t.idxOf d := by
  rw [before_eq_take, List.mem_take_iff_idxOf_lt h]

end Text

namespace Fields

variable {line : Text}

/-! ### Slices -/

/-- Without an assignment mark the computation begins with the line. -/
theorem comp_of_not_mem (h : assignMark ∉ line) : (split line).comp = Text.before jumpMark line := by
  have hbody : assignMark ∉ Text.before jumpMark line := fun hmem => h (List.takeWhile_subset _ hmem)
  simp only [split, if_neg hbody, if_neg h]

/-- The fields are slices of the line between the places of its first marks. A mark that is not there counts as standing
behind the end. The slice of the computation may end in front of its beginning: then it is empty. -/
theorem split_eq_slices (line : Text) :
    split line = {
      dest := if assignMark ∈ line then line.take (line.idxOf assignMark) else omitted
      comp := line.extract (if assignMark ∈ line then line.idxOf assignMark + 1 else 0) (line.idxOf jumpMark)
      jump := if jumpMark ∈ line then line.drop (line.idxOf jumpMark + 1) else omitted } := by
  have hcomp : (split line).comp =
      line.extract (if assignMark ∈ line then line.idxOf assignMark + 1 else 0) (line.idxOf jumpMark) := by
    by_cases hbody : assignMark ∈ Text.before jumpMark line
    · have hline : assignMark ∈ line := List.takeWhile_subset _ hbody
      have hfield : (split line).comp = Text.after assignMark (Text.before jumpMark line) := if_pos hbody
      have hindex : (Text.before jumpMark line).idxOf assignMark = line.idxOf assignMark := by
        rw [Text.before_eq_take] at hbody ⊢
        rw [← List.idxOf_append_of_mem hbody, List.take_append_drop]
      rw [if_pos hline, hfield, Text.after_eq_drop, hindex, Text.before_eq_take, List.drop_take]
    · by_cases hline : assignMark ∈ line
      · have hfield : (split line).comp = [] := by simp only [split, if_neg hbody, if_pos hline]
        have hcross : line.idxOf jumpMark ≤ line.idxOf assignMark + 1 := by
          rw [Text.mem_before_iff hline] at hbody
          omega
        rw [if_pos hline, hfield, List.extract, Nat.sub_eq_zero_of_le hcross, List.take_zero]
      · rw [if_neg hline, comp_of_not_mem hline, Text.before_eq_take]
        rfl
  rw [← hcomp, ← Text.before_eq_take, ← Text.after_eq_drop]
  rfl

/-! ### The order of the marks -/

/-- No jump mark stands in front of the first assignment mark. -/
def InOrder (line : Text) : Prop :=
  assignMark ∈ line → jumpMark ∈ line → line.idxOf assignMark < line.idxOf jumpMark

instance (line : Text) : Decidable (InOrder line) :=
  inferInstanceAs (Decidable (assignMark ∈ line → jumpMark ∈ line → line.idxOf assignMark < line.idxOf jumpMark))

theorem not_inOrder_iff :
    ¬InOrder line ↔ assignMark ∈ line ∧ jumpMark ∈ line ∧ line.idxOf jumpMark < line.idxOf assignMark := by
  simp only [InOrder, Classical.not_imp, Nat.not_lt]
  refine and_congr_right fun hassign => and_congr_right fun _ => ?_
  have hne : line.idxOf assignMark ≠ line.idxOf jumpMark := by
    rw [Ne, List.idxOf_inj hassign]
    decide
  omega

/-- In order, the assignment mark is among what is cut off at the jump mark. -/
theorem mem_before_of_inOrder (h : InOrder line) (hassign : assignMark ∈ line) :
    assignMark ∈ Text.before jumpMark line := by
  rw [Text.mem_before_iff hassign]
  by_cases hjump : jumpMark ∈ line
  · exact h hassign hjump
  · rw [List.idxOf_eq_length hjump]
    exact List.idxOf_lt_length_of_mem hassign

/-- If the jump mark comes first, the slice of the computation ends before it begins. -/
theorem comp_of_not_inOrder (h : ¬InOrder line) : (split line).comp = [] := by
  obtain ⟨hassign, -, hcross⟩ := not_inOrder_iff.1 h
  have hstop : line.idxOf jumpMark - (line.idxOf assignMark + 1) = 0 := by omega
  rw [split_eq_slices]
  simp only [if_pos hassign, List.extract, hstop, List.take_zero]

/-! ### Joining -/

/-- The fields as one line. A destination and a jump are written, each with its mark, only where they are asked for. -/
def join (fields : Fields) (assigns jumps : Bool) : Text :=
  (if assigns then fields.dest ++ [assignMark] else []) ++ fields.comp ++
    (if jumps then jumpMark :: fields.jump else [])

/-- What is cut off at the jump mark is the jump. -/
theorem before_jump_append (line : Text) :
    Text.before jumpMark line ++ (if jumpMark ∈ line then jumpMark :: (split line).jump else []) = line := by
  by_cases hjump : jumpMark ∈ line
  · have hfield : (split line).jump = Text.after jumpMark line := if_pos hjump
    rw [if_pos hjump, hfield, Text.before_append_after hjump]
  · rw [if_neg hjump, List.append_nil, Text.before_eq_self hjump]

/-- In front of the jump mark stand the destination and the computation, unless the marks are in the wrong order. -/
theorem dest_append_comp (h : InOrder line) :
    (if assignMark ∈ line then (split line).dest ++ [assignMark] else []) ++ (split line).comp =
      Text.before jumpMark line := by
  by_cases hline : assignMark ∈ line
  · have hbody : assignMark ∈ Text.before jumpMark line := mem_before_of_inOrder h hline
    have hdest : (split line).dest = Text.before assignMark (Text.before jumpMark line) := by
      have hfield : (split line).dest = Text.before assignMark line := if_pos hline
      rw [hfield, ← Text.before_append_of_mem hbody, before_jump_append]
    have hcomp : (split line).comp = Text.after assignMark (Text.before jumpMark line) := if_pos hbody
    rw [if_pos hline, hdest, hcomp, List.append_assoc]
    exact Text.before_append_after hbody
  · rw [if_neg hline, comp_of_not_mem hline, List.nil_append]

theorem join_split (h : InOrder line) : (split line).join (assignMark ∈ line) (jumpMark ∈ line) = line := by
  simp only [join, decide_eq_true_eq]
  rw [dest_append_comp h, before_jump_append]

/-- With the marks in the wrong order, what stands from the jump mark to the assignment mark is in the destination and
in the jump, so that the joined line is longer. -/
theorem join_split_iff : (split line).join (assignMark ∈ line) (jumpMark ∈ line) = line ↔ InOrder line := by
  refine ⟨fun hjoin => ?_, join_split⟩
  by_contra h
  obtain ⟨hassign, hjump, hcross⟩ := not_inOrder_iff.1 h
  have hend : line.idxOf assignMark < line.length := List.idxOf_lt_length_of_mem hassign
  have hlength := congrArg List.length hjoin
  rw [join, comp_of_not_inOrder h, split_eq_slices] at hlength
  simp only [hassign, hjump, decide_true, if_true, List.length_append, List.length_take, List.length_cons,
    List.length_nil, List.length_drop] at hlength
  omega

/-! ### Refusal -/

theorem unknown?_of_comp_nil {fields : Fields} (h : fields.comp = []) : fields.unknown? = some .comp := by
  have hcomp : [] ∉ Field.comp.mnemonics := by
    intro hmem
    obtain ⟨c, -, hc⟩ := List.mem_map.1 hmem
    exact c.mnemonic_ne_nil hc
  rw [unknown?, List.find?_cons_of_pos]
  simpa [get, h] using hcomp

/-- No computation is written as nothing. -/
theorem compute_of_not_inOrder (h : ¬InOrder line) (index : Option Int) :
    Encoding.compute line index = .error (.diagnostic {
      cause := .unknownMnemonic Field.comp.name [] line Field.comp.mnemonics
      index }) := by
  have hcomp := comp_of_not_inOrder h
  have hrefused := Encoding.compute_of_unknown (unknown?_of_comp_nil hcomp) index
  rwa [get, hcomp] at hrefused

/-- Joining undoes splitting for the lines whose marks are in order, and for no others; all lines that are encoded are
among them. Splitting undoes joining for fields whose marks cannot be taken for those of the line. Where the jump mark
comes first, the computation is empty and the line is refused for it. -/
theorem split_inverts_join :
    (∀ line : Text, (split line).join (assignMark ∈ line) (jumpMark ∈ line) = line ↔ InOrder line) ∧
    (∀ (line : Text) (index : Option Int) (word : Text), Encoding.compute line index = .ok word →
      (split line).join (assignMark ∈ line) (jumpMark ∈ line) = line) ∧
    (∀ dest comp jump : Text, assignMark ∉ dest → jumpMark ∉ dest → jumpMark ∉ comp →
      split (dest ++ assignMark :: comp ++ jumpMark :: jump) = ⟨dest, comp, jump⟩ ∧
      split (dest ++ assignMark :: comp) = ⟨dest, comp, omitted⟩) ∧
    (∀ comp jump : Text, assignMark ∉ comp → jumpMark ∉ comp → assignMark ∉ jump →
      split (comp ++ jumpMark :: jump) = ⟨omitted, comp, jump⟩) ∧
    ∀ (line : Text) (index : Option Int), assignMark ∈ line → jumpMark ∈ line →
      line.idxOf jumpMark < line.idxOf assignMark →
      (split line).comp = [] ∧
      Encoding.compute line index = .error (.diagnostic {
        cause := .unknownMnemonic ['c', 'o', 'm', 'p'] [] line Field.comp.mnemonics
        index }) := by
  refine ⟨fun _ => join_split_iff, ?_, ?_, ?_, ?_⟩
  · intro line index word hword
    apply join_split
    by_contra h
    rw [compute_of_not_inOrder h] at hword
    cases hword
  · intro dest comp jump hassign hjump hcomp
    have hassignment := split_append_assign hassign hjump hcomp
    have hfront : jumpMark ∉ dest ++ assignMark :: comp := by
      simp only [List.mem_append, List.mem_cons, not_or]
      exact ⟨hjump, by decide, hcomp⟩
    -- An assignment mark in the jump does no harm, since the one of the line is in front of it.
    have hmark : assignMark ∈ jump → assignMark ∈ dest ++ assignMark :: comp := fun _ => by simp
    refine ⟨?_, hassignment⟩
    rw [split_append_jump hfront hmark, hassignment]
  · intro comp jump hassign hjump hmark
    rw [split_append_jump hjump fun h => absurd h hmark, split_of_not_mem hassign hjump]
  · intro line index hassign hjump hcross
    have h : ¬InOrder line := not_inOrder_iff.2 ⟨hassign, hjump, hcross⟩
    exact ⟨comp_of_not_inOrder h, compute_of_not_inOrder h index⟩

/-- A jump that holds both marks. -/
def markedJump : Text := ['J', ';', '=', 'J']

/-- Nothing but the two marks, the jump mark first. -/
def crossedMarks : Text := [jumpMark, assignMark]

theorem split_inverts_join_of_markedJump :
    (assignMark ∉ ['A'] ∧ jumpMark ∉ ['A'] ∧ jumpMark ∉ ['D', '=', 'M']) ∧
    split (['A'] ++ assignMark :: ['D', '=', 'M'] ++ jumpMark :: markedJump) =
      ⟨['A'], ['D', '=', 'M'], markedJump⟩ ∧
    split ['0', ';', 'J', ';', 'J'] = ⟨omitted, ['0'], ['J', ';', 'J']⟩ ∧
    Encoding.compute ['D', '=', 'M'] none = .ok (Compute.word ⟨⟨false, true, false⟩, .operand .memory, .never⟩) ∧
    (split ['D', '=', 'M']).join true false = ['D', '=', 'M'] ∧
    (split crossedMarks).join true true ≠ crossedMarks ∧
    Encoding.compute crossedMarks (some 3) = .error (.diagnostic {
      cause := .unknownMnemonic ['c', 'o', 'm', 'p'] [] crossedMarks Field.comp.mnemonics
      index := some 3 }) := by
  obtain ⟨hiff, haccepted, hboth, hjump, hcrossed⟩ := split_inverts_join
  have hword : Encoding.compute ['D', '=', 'M'] none =
      .ok (Compute.word ⟨⟨false, true, false⟩, .operand .memory, .never⟩) := by decide +kernel
  have hmarks : assignMark ∉ ['A'] ∧ jumpMark ∉ ['A'] ∧ jumpMark ∉ ['D', '=', 'M'] := by decide
  refine ⟨hmarks, (hboth ['A'] ['D', '=', 'M'] markedJump hmarks.1 hmarks.2.1 hmarks.2.2).1,
    hjump ['0'] ['J', ';', 'J'] (by decide) (by decide) (by decide), hword, haccepted _ _ _ hword, ?_, ?_⟩
  · intro hjoin
    have horder : InOrder crossedMarks := (hiff crossedMarks).1 hjoin
    exact absurd horder (by decide)
  · exact (hcrossed crossedMarks (some 3) (by decide) (by decide) (by decide)).2

end Fields

end HackAssembler
