import Mathlib.Data.Nat.Find
import HackAssembler.Proofs.Program.Words

/-! How a run ends. It yields the words that the program means, or it stops: at the first name that strict labels
refuse, else at the first instruction that has no word or a literal too long to be read. -/
namespace HackAssembler

namespace Program

theorem exists_isLeast {p : Nat → Prop} (h : ∃ i, p i) : ∃ i, IsLeast {i | p i} i := by
  classical
  exact ⟨Nat.find h, Nat.find_spec h, fun _ hj => Nat.find_min' h hj⟩

/-- Strict labels meet a name that has an address. -/
def IsRefused (strict : Bool) (lines : List Text) : Prop :=
  strict = true ∧ ∃ i, RedeclaredAt lines i

theorem exists_bind_iff {strict : Bool} {lines : List Text} :
    (∃ labels, Labels.bind strict lines = .ok labels) ↔ ¬IsRefused strict lines := by
  constructor
  · rintro ⟨labels, hbind⟩ ⟨rfl, hredeclared⟩
    obtain ⟨i, hleast⟩ := exists_isLeast hredeclared
    obtain ⟨name, -, herror⟩ := Labels.bind_strict_of_redeclared hleast
    rw [hbind] at herror
    cases herror
  · intro h
    exact Labels.exists_bind fun hstrict i hi => h ⟨hstrict, i, hi⟩

variable {lines : List Text}

/-- A variable is out of range if more than 32751 others are referred to first. -/
theorem faulty_variable_iff {name : Text} (h : isVariable lines name = true) :
    Faulty lines (Line.address name) ↔ 32751 < (variablesBefore lines name).length := by
  have hvalue : value lines name = 16 + (variablesBefore lines name).length := value_of_variable h
  have hrange : Word.maxAddress < value lines name ↔ 32751 < (variablesBefore lines name).length := by
    rw [hvalue]
    show (32767 : Int) < _ ↔ _
    omega
  simp [Faulty, hrange]

theorem getElem?_outcomes (i : Nat) :
    (outcomes lines)[i]? = (Labels.instructions lines)[i]?.map fun line => outcome lines line i := by
  rw [outcomes, List.getElem?_mapIdx]

theorem not_faulty_of_outcome_ok {line word : Text} {index : Int}
    (h : outcome lines line index = .ok word) : isTooLong line = false ∧ ¬Faulty lines line := by
  obtain ⟨hlong, hfault, -⟩ := outcome_of_word h
  refine ⟨hlong, fun hfaulty => ?_⟩
  rw [← fault?_isSome_iff, hfault] at hfaulty
  cases hfaulty

theorem exists_outcome_ok {line : Text} (hlong : isTooLong line = false) (hfaulty : ¬Faulty lines line)
    (index : Int) : ∃ word, outcome lines line index = .ok word := by
  rw [← fault?_isSome_iff, Option.not_isSome_iff_eq_none] at hfaulty
  exact ⟨(word? lines line).getD [], by rw [outcome, hlong, hfaulty]; rfl⟩

theorem exists_outcomes_ok_iff {i : Nat} (hi : i < (Labels.instructions lines).length) :
    (∃ word, (outcomes lines)[i]? = some (.ok word)) ↔ ¬TooLongAt lines i ∧ ¬FaultyAt lines i := by
  have hget := List.getElem?_eq_getElem hi
  rw [getElem?_outcomes, hget, TooLongAt, FaultyAt, hget]
  simp only [Option.map_some, Option.some.injEq, exists_eq_left', Bool.not_eq_true]
  constructor
  · rintro ⟨word, hword⟩
    exact not_faulty_of_outcome_ok hword
  · rintro ⟨hlong, hfaulty⟩
    exact exists_outcome_ok hlong hfaulty i

/-- If all instructions have a word, these are the words that they mean. -/
theorem words_of_collect {words : List Text} (h : collect (outcomes lines) = .ok words) :
    words.map some = (Labels.instructions lines).map (word? lines) := by
  have houtcomes := collect_eq_ok_iff.1 h
  apply List.ext_getElem?
  intro i
  have hi := congrArg (·[i]?) houtcomes
  simp only [getElem?_outcomes, List.getElem?_map] at hi
  rw [List.getElem?_map, List.getElem?_map]
  cases hline : (Labels.instructions lines)[i]? with
  | none =>
    rw [hline, Option.map_none] at hi
    rw [Option.map_eq_none_iff.1 hi.symm]
    rfl
  | some line =>
    rw [hline, Option.map_some] at hi
    obtain ⟨word, hword, hok⟩ := Option.map_eq_some_iff.1 hi.symm
    rw [hword, Option.map_some, Option.map_some, (outcome_of_word hok.symm).2.2]

/-- The fault that is reported is that of the first instruction that comes to one. -/
theorem collect_outcomes_eq_error_iff {f : Failure} :
    collect (outcomes lines) = .error f ↔
      ∃ (i : Nat) (line : Text), (Labels.instructions lines)[i]? = some line ∧
        outcome lines line i = .error f ∧ ∀ j < i, ¬TooLongAt lines j ∧ ¬FaultyAt lines j := by
  rw [collect_eq_error_iff]
  constructor
  · rintro ⟨i, hi, hfront⟩
    rw [getElem?_outcomes] at hi
    obtain ⟨line, hline, hf⟩ := Option.map_eq_some_iff.1 hi
    have hlt := (List.getElem?_eq_some_iff.1 hline).1
    exact ⟨i, line, hline, hf, fun j hj => (exists_outcomes_ok_iff (by omega)).1 (hfront j hj)⟩
  · rintro ⟨i, line, hline, hf, hfront⟩
    have hlt := (List.getElem?_eq_some_iff.1 hline).1
    refine ⟨i, ?_, fun j hj => (exists_outcomes_ok_iff (by omega)).2 (hfront j hj)⟩
    rw [getElem?_outcomes, hline, Option.map_some, hf]

/-- Where every instruction can be read and none is faulty, each has its word. -/
theorem exists_collect_outcomes
    (h : ∀ line ∈ Labels.instructions lines, isTooLong line = false ∧ ¬Faulty lines line) :
    ∃ words, collect (outcomes lines) = .ok words := by
  cases hcollect : collect (outcomes lines) with
  | ok words => exact ⟨words, rfl⟩
  | error f =>
    obtain ⟨i, line, hline, hf, -⟩ := collect_outcomes_eq_error_iff.1 hcollect
    obtain ⟨hlong, hfaulty⟩ := h line (List.mem_of_getElem? hline)
    obtain ⟨word, hword⟩ := exists_outcome_ok hlong hfaulty i
    rw [hf] at hword
    cases hword

end Program

end HackAssembler
