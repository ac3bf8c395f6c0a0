import Mathlib.Order.Bounds.Basic
import HackAssembler.Proofs.Program.Outcome

/-! Assembly from source lines to words: what comes out of a run that succeeds, and which fault ends one that does
not. -/
namespace HackAssembler.Assembly
open Program

/-- If no declaration is refused, a run comes to what its instructions come to one by one. -/
theorem ofSourceLines_of_not_refused {strict : Bool} {lines : List SourceLine}
    (hrefused : ¬IsRefused strict (texts lines)) (file : Text) :
    ∃ table, ofSourceLines strict file lines =
      match collect (outcomes (texts lines)) with
      | .error f => .error (f.locate file (instructionLines lines))
      | .ok words => .ok ⟨words, table, lines⟩ := by
  obtain ⟨labels, hbind⟩ := exists_bind_iff.2 hrefused
  have hprogram := program_eq_collect (Labels.symbols_of_bind hbind)
  refine ⟨(Encoding.program labels (Labels.instructions (texts lines))).2.table, ?_⟩
  unfold ofSourceLines
  simp only [hbind]
  rw [← hprogram]
  rcases Encoding.program labels (Labels.instructions (texts lines)) with ⟨_ | _, _⟩ <;> rfl

/-- A run ends in one of three ways, and the lines alone decide in which. -/
theorem ofSourceLines_cases (strict : Bool) (file : Text) (lines : List SourceLine) :
    (∃ i name, strict = true ∧ IsLeast {i | RedeclaredAt (texts lines) i} i ∧
      (texts lines)[i]? = some (Line.label name) ∧
      ofSourceLines strict file lines = .error (.diagnostic (Diagnostic.locate {
        cause := .duplicateSymbol name (some (address (texts lines) name))
        index := some i } file lines))) ∨
    (¬IsRefused strict (texts lines) ∧
      ∃ f, collect (outcomes (texts lines)) = .error f ∧
        ofSourceLines strict file lines = .error (f.locate file (instructionLines lines))) ∨
    (¬IsRefused strict (texts lines) ∧
      ∃ words table, collect (outcomes (texts lines)) = .ok words ∧
        ofSourceLines strict file lines = .ok ⟨words, table, lines⟩) := by
  by_cases hrefused : IsRefused strict (texts lines)
  · obtain ⟨rfl, hredeclared⟩ := hrefused
    obtain ⟨i, hleast⟩ := exists_isLeast hredeclared
    obtain ⟨name, hname, hbind⟩ := Labels.bind_strict_of_redeclared hleast
    refine .inl ⟨i, name, rfl, hleast, hname, ?_⟩
    unfold ofSourceLines
    simp only [hbind]
  · obtain ⟨table, hrun⟩ := ofSourceLines_of_not_refused hrefused file
    cases hcollect : collect (outcomes (texts lines)) with
    | error f =>
      rw [hcollect] at hrun
      exact .inr (.inl ⟨hrefused, f, rfl, hrun⟩)
    | ok words =>
      rw [hcollect] at hrun
      exact .inr (.inr ⟨hrefused, words, table, rfl, hrun⟩)

/-- A program that assembles becomes the words that it means, one for each instruction. -/
theorem words_of_ofSource {strict : Bool} {file source : Text} {a : Assembly}
    (h : ofSource strict file source = .ok a) :
    a.words.map some =
      (Labels.instructions (texts (Source.clean source))).map (word? (texts (Source.clean source))) := by
  rw [ofSource] at h
  rcases ofSourceLines_cases strict file (Source.clean source) with
    ⟨i, name, -, -, -, hrun⟩ | ⟨-, f, -, hrun⟩ | ⟨-, words, table, hcollect, hrun⟩
  · rw [hrun] at h
    cases h
  · rw [hrun] at h
    cases h
  · rw [hrun] at h
    obtain rfl := Except.ok.inj h
    exact words_of_collect hcollect

/-- A label that is declared behind its use and once more later, one with a predefined name, one that looks like
a number, the same variable twice, and the empty name. -/
def competingNames : Text :=
  List.intercalate ['\n'] [Line.address ['v'], Line.address ['L'], Line.label ['L'],
    Line.label ['R', '2'], Line.label ['7'], Line.address [], Line.label ['L'], Line.address ['7'],
    Line.address ['R', '2'], Line.address ['v'], ['D', '=', 'M']]

theorem words_of_competingNames :
    ∃ a, ofSource false [] competingNames = .ok a ∧
      a.words = [16, 2, 17, 7, 2, 16, 0b1111110000010000].map fun n => Word.ofBits (BitVec.ofNat 16 n) := by
  have hok : (ofSource false [] competingNames).isOk = true := by decide +kernel
  cases hrun : ofSource false [] competingNames with
  | error f =>
    rw [hrun] at hok
    cases hok
  | ok a =>
    refine ⟨a, rfl, (List.map_inj_right fun _ _ => Option.some.inj).1 ?_⟩
    rw [words_of_ofSource hrun]
    decide +kernel

section Faults
variable {strict : Bool} {file : Text} {lines : List SourceLine}

private theorem not_tooLongAt (h : ∀ l ∈ lines, isTooLong l.text = false) (i : Nat) :
    ¬TooLongAt (texts lines) i := by
  intro htooLong
  obtain ⟨line, hline, hlong⟩ := htooLong
  have hmem : line ∈ texts lines := (List.mem_filter.1 (List.mem_of_getElem? hline)).1
  obtain ⟨l, hl, rfl⟩ := List.mem_map.1 hmem
  rw [h l hl] at hlong
  cases hlong

/-- The first declaration that strict labels refuse is reported with the address that its name has. -/
theorem error_of_redeclared {i : Nat} (hstrict : strict = true)
    (hleast : IsLeast {i | RedeclaredAt (texts lines) i} i) :
    ∃ d name, ofSourceLines strict file lines = .error (.diagnostic d) ∧
      d.cause = .duplicateSymbol name (some (address (texts lines) name)) ∧
      d.index = some (i : Int) ∧ (texts lines)[i]? = some (Line.label name) := by
  have hrefused : IsRefused strict (texts lines) := ⟨hstrict, i, hleast.1⟩
  rcases ofSourceLines_cases strict file lines with
    ⟨j, name, -, hfirst, hname, hrun⟩ | ⟨hnot, -⟩ | ⟨hnot, -⟩
  · obtain rfl := hfirst.unique hleast
    refine ⟨_, name, hrun, ?_, ?_, hname⟩
    · rw [Diagnostic.locate_cause]
    · rw [Diagnostic.locate_index]
  · exact absurd hrefused hnot
  · exact absurd hrefused hnot

/-- The fault of the first instruction that has no word, if all instructions in front of it can be read. -/
private theorem error_of_fault {i : Nat} (hrefused : ¬IsRefused strict (texts lines))
    (hlong : ∀ j ≤ i, ¬TooLongAt (texts lines) j)
    (hleast : IsLeast {i | FaultyAt (texts lines) i} i) :
    ∃ d line, ofSourceLines strict file lines = .error (.diagnostic d) ∧
      fault? (texts lines) line = some d.cause ∧
      d.index = some (i : Int) ∧ (Labels.instructions (texts lines))[i]? = some line := by
  obtain ⟨⟨line, hline, hfaulty⟩, hfirst⟩ := hleast
  obtain ⟨cause, hcause⟩ := Option.isSome_iff_exists.1 (fault?_isSome_iff.2 hfaulty)
  have hshort : isTooLong line = false := by
    by_contra h
    exact hlong i (Nat.le_refl i) ⟨line, hline, by simpa using h⟩
  have hcollect : collect (outcomes (texts lines)) =
      .error (.diagnostic { cause, index := some (i : Int) }) := by
    rw [collect_outcomes_eq_error_iff]
    refine ⟨i, line, hline, ?_, fun j hj => ⟨hlong j (Nat.le_of_lt hj), fun hfault => ?_⟩⟩
    · rw [outcome, hshort, hcause]
      rfl
    · have hle := hfirst hfault
      omega
  obtain ⟨table, hrun⟩ := ofSourceLines_of_not_refused hrefused file
  rw [hcollect] at hrun
  refine ⟨_, line, hrun, ?_, ?_, hline⟩
  · rw [Diagnostic.locate_cause, hcause]
  · rw [Diagnostic.locate_index]

private theorem fails_iff (hlong : ∀ i, ¬TooLongAt (texts lines) i) :
    (∃ f, ofSourceLines strict file lines = .error f) ↔
      IsRefused strict (texts lines) ∨ ∃ i, FaultyAt (texts lines) i := by
  constructor
  · intro h
    obtain ⟨f, hf⟩ := h
    by_contra hnone
    rw [not_or] at hnone
    obtain ⟨hrefused, hfaulty⟩ := hnone
    obtain ⟨table, hrun⟩ := ofSourceLines_of_not_refused hrefused file
    cases hcollect : collect (outcomes (texts lines)) with
    | ok words =>
      rw [hcollect, hf] at hrun
      cases hrun
    | error g =>
      obtain ⟨i, line, hline, houtcome, -⟩ := collect_outcomes_eq_error_iff.1 hcollect
      rcases outcome_eq_error_iff.1 houtcome with ⟨htooLong, -⟩ | ⟨-, cause, hcause, -⟩
      · exact hlong i ⟨line, hline, htooLong⟩
      · refine hfaulty ⟨i, line, hline, fault?_isSome_iff.1 ?_⟩
        rw [hcause]
        rfl
  · intro h
    by_cases hrefused : IsRefused strict (texts lines)
    · obtain ⟨i, hleast⟩ := exists_isLeast hrefused.2
      obtain ⟨d, name, hrun, -⟩ := @error_of_redeclared strict file lines i hrefused.1 hleast
      exact ⟨_, hrun⟩
    · obtain ⟨i, hleast⟩ := exists_isLeast (h.resolve_left hrefused)
      obtain ⟨d, line, hrun, -⟩ :=
        @error_of_fault strict file lines i hrefused (fun j _ => hlong j) hleast
      exact ⟨_, hrun⟩

end Faults

/-- What can be read fails exactly for a declaration that strict labels refuse or for an instruction without a word.
The first of the declarations is reported, even behind such an instruction; else the first of these. -/
theorem fails_iff_redeclared_or_faulty (strict : Bool) (file : Text) {lines : List SourceLine}
    (hlong : ∀ l ∈ lines, isTooLong l.text = false) :
    ((∃ f, ofSourceLines strict file lines = .error f) ↔
      (strict = true ∧ ∃ i, RedeclaredAt (texts lines) i) ∨ ∃ i, FaultyAt (texts lines) i) ∧
    (∀ i, strict = true → IsLeast {i | RedeclaredAt (texts lines) i} i →
      ∃ d name, ofSourceLines strict file lines = .error (.diagnostic d) ∧
        d.cause = .duplicateSymbol name (some (address (texts lines) name)) ∧
        d.index = some (i : Int) ∧ (texts lines)[i]? = some (Line.label name)) ∧
    (∀ i, ¬(strict = true ∧ ∃ i, RedeclaredAt (texts lines) i) →
      IsLeast {i | FaultyAt (texts lines) i} i →
      ∃ d line, ofSourceLines strict file lines = .error (.diagnostic d) ∧
        fault? (texts lines) line = some d.cause ∧
        d.index = some (i : Int) ∧ (Labels.instructions (texts lines))[i]? = some line) ∧
    (∀ name, isVariable (texts lines) name = true →
      (Faulty (texts lines) (Line.address name) ↔
        32751 < (variablesBefore (texts lines) name).length)) := by
  have hread := not_tooLongAt hlong
  refine ⟨fails_iff hread, ?_, ?_, ?_⟩
  · intro i hstrict hleast
    exact error_of_redeclared hstrict hleast
  · intro i hrefused hleast
    exact error_of_fault hrefused (fun j _ => hread j) hleast
  · intro name hname
    exact faulty_variable_iff hname

/-- An address out of range, in front of a name that is declared twice. -/
def faultBeforeRedeclaration : List SourceLine :=
  Source.ofLines [Line.address ['9', '9', '9', '9', '9'], Line.label ['L'], Line.label ['L']]

theorem fails_of_faultBeforeRedeclaration :
    (∀ l ∈ faultBeforeRedeclaration, isTooLong l.text = false) ∧
    ∃ d, ofSourceLines true ['f'] faultBeforeRedeclaration = .error (.diagnostic d) ∧
      d.cause = .duplicateSymbol ['L'] (some 1) ∧ d.index = some 2 := by
  have hread : ∀ l ∈ faultBeforeRedeclaration, isTooLong l.text = false := by decide
  have hfront : ∀ i < 2, ¬RedeclaredAt (texts faultBeforeRedeclaration) i := by decide
  have hleast : IsLeast {i | RedeclaredAt (texts faultBeforeRedeclaration) i} 2 :=
    ⟨by decide, fun i hi => Nat.le_of_not_lt fun hlt => hfront i hlt hi⟩
  obtain ⟨d, name, hrun, hcause, hindex, hname⟩ :=
    (fails_iff_redeclared_or_faulty true ['f'] hread).2.1 2 rfl hleast
  obtain rfl : name = ['L'] := by
    have h := congrArg (Option.map Line.labelName) hname
    rw [Option.map_some, Line.labelName_label] at h
    exact (Option.some.inj h).symm
  refine ⟨hread, d, hrun, ?_, hindex⟩
  rw [hcause]
  decide

end HackAssembler.Assembly
