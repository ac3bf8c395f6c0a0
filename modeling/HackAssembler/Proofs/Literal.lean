import HackAssembler.Proofs.Assembly
import HackAssembler.Proofs.Source.Cleaning

/-! Literals of any length. One that has more digits than are ever read is the only thing that ends a run without a
fault of the program. -/
namespace HackAssembler

namespace Encoding

/-- What becomes of a literal. It depends on the digits alone. -/
def literal (digits : Text) (index : Option Int) : Except Failure Text :=
  if Failure.maxLiteralDigits < digits.length then .error (.literalTooLong digits.length)
  else if Word.maxAddress < Numeral.value 10 digits then
    .error (.diagnostic {
      cause := .addressRange (Numeral.value 10 digits) (Line.address digits)
      index })
  else .ok (Word.ofBits (BitVec.ofNat Word.width (Numeral.value 10 digits)))

theorem instruction_literal {digits : Text} (h : Numeral.isLiteral digits = true) (c : Context)
    (index : Option Int) : instruction c (Line.address digits) index = literal digits index := by
  have hkind : Line.kind (Line.address digits) = .address :=
    Line.kind_eq_address_iff.2 (Line.isAddress_address digits)
  unfold instruction literal
  rw [if_pos hkind, address, Line.operand_address, Context.resolve_of_isLiteral h, Context.addressOf, if_pos h]
  by_cases hlong : Failure.maxLiteralDigits < digits.length
  · rw [if_pos hlong, if_pos hlong]
  · rw [if_neg hlong, if_neg hlong]
    simp only [addressWord]
    by_cases hrange : Word.maxAddress < (Numeral.value 10 digits : Int)
    · rw [if_pos hrange, if_pos hrange]
    · have hfits : (Numeral.value 10 digits : Int) < 2 ^ Word.width := by
        have hmax : Word.maxAddress < 2 ^ Word.width := by decide
        omega
      rw [if_neg hrange, if_neg hrange, Word.ofAddress_eq_ofBits (Int.natCast_nonneg _) hfits,
        BitVec.ofInt_natCast]

end Encoding

namespace Failure

theorem program_mem_families (d : Diagnostic) : FaultFamily.program ∈ (diagnostic d).families := by
  simp [families]

end Failure

namespace Assembly
open Program

section Run
variable {strict : Bool} {file : Text} {lines : List SourceLine}

/-- The first instruction that has no word at all, or whose literal is not read. -/
private theorem exists_tooLongAt_of_collect {n : Nat}
    (h : collect (outcomes (texts lines)) = .error (.literalTooLong n)) :
    Failure.maxLiteralDigits < n ∧
      ∃ i, IsLeast {i | TooLongAt (texts lines) i ∨ FaultyAt (texts lines) i} i ∧
        TooLongAt (texts lines) i := by
  obtain ⟨i, line, hline, houtcome, hfront⟩ := collect_outcomes_eq_error_iff.1 h
  rcases outcome_eq_error_iff.1 houtcome with ⟨hlong, hf⟩ | ⟨-, cause, -, hf⟩
  · have htooLong : TooLongAt (texts lines) i := ⟨line, hline, hlong⟩
    have hn : n = (Line.operand line).length := Failure.literalTooLong.inj hf
    refine ⟨?_, i, ⟨.inl htooLong, fun j hj => ?_⟩, htooLong⟩
    · simp only [isTooLong, Bool.and_eq_true, decide_eq_true_eq] at hlong
      omega
    · by_contra hlt
      obtain ⟨hread, hfault⟩ := hfront j (by omega)
      exact hj.elim hread hfault
  · cases hf

private theorem collect_of_tooLongAt {i : Nat}
    (hleast : IsLeast {i | TooLongAt (texts lines) i ∨ FaultyAt (texts lines) i} i)
    (htooLong : TooLongAt (texts lines) i) :
    ∃ n, collect (outcomes (texts lines)) = .error (.literalTooLong n) := by
  obtain ⟨line, hline, hlong⟩ := htooLong
  refine ⟨(Line.operand line).length, collect_outcomes_eq_error_iff.2 ⟨i, line, hline, ?_, ?_⟩⟩
  · rw [outcome, if_pos hlong]
  · intro j hj
    rw [← not_or]
    intro h
    have hle := hleast.2 h
    omega

/-- A failure that is no fault of the program is a literal that was met before any of these. -/
private theorem literalTooLong_of_foreign {f : Failure} (hrun : ofSourceLines strict file lines = .error f)
    (hforeign : FaultFamily.program ∉ f.families) :
    ¬IsRefused strict (texts lines) ∧
      ∃ n, f = .literalTooLong n ∧ collect (outcomes (texts lines)) = .error (.literalTooLong n) := by
  rcases ofSourceLines_cases strict file lines with
    ⟨i, name, -, -, -, herror⟩ | ⟨hrefused, g, hcollect, herror⟩ | ⟨-, words, table, -, hok⟩
  · rw [hrun] at herror
    obtain rfl := Except.error.inj herror
    exact absurd (Failure.program_mem_families _) hforeign
  · rw [hrun] at herror
    obtain rfl := Except.error.inj herror
    refine ⟨hrefused, ?_⟩
    obtain ⟨i, line, -, houtcome, -⟩ := collect_outcomes_eq_error_iff.1 hcollect
    rcases outcome_eq_error_iff.1 houtcome with ⟨-, rfl⟩ | ⟨-, cause, -, rfl⟩
    · exact ⟨_, rfl, hcollect⟩
    · exact absurd (Failure.program_mem_families _) hforeign
  · rw [hrun] at hok
    cases hok

end Run

/-- Assembly comes to words or to a fault of the program, unless the first instruction that has no word is a literal
with more digits than are ever read. -/
theorem fails_foreign_iff_literal_tooLong (strict : Bool) (file source : Text) :
    ((∃ f, ofSource strict file source = .error f ∧ FaultFamily.program ∉ f.families) ↔
      ¬(strict = true ∧ ∃ i, RedeclaredAt (texts (Source.clean source)) i) ∧
        ∃ i, IsLeast {i | TooLongAt (texts (Source.clean source)) i ∨
          FaultyAt (texts (Source.clean source)) i} i ∧ TooLongAt (texts (Source.clean source)) i) ∧
    (∀ f, ofSource strict file source = .error f → FaultFamily.program ∉ f.families →
      ∃ n, f = .literalTooLong n ∧ Failure.maxLiteralDigits < n) ∧
    (∀ digits c index, Numeral.isLiteral digits = true →
      Encoding.instruction c (Line.address digits) index = Encoding.literal digits index) := by
  refine ⟨?_, ?_, ?_⟩
  · constructor
    · intro h
      obtain ⟨f, hrun, hforeign⟩ := h
      obtain ⟨hrefused, n, -, hcollect⟩ := literalTooLong_of_foreign hrun hforeign
      exact ⟨hrefused, (exists_tooLongAt_of_collect hcollect).2⟩
    · intro h
      obtain ⟨hrefused, i, hleast, htooLong⟩ := h
      obtain ⟨n, hcollect⟩ := collect_of_tooLongAt hleast htooLong
      obtain ⟨table, hrun⟩ := ofSourceLines_of_not_refused hrefused file
      rw [hcollect] at hrun
      exact ⟨.literalTooLong n, hrun, List.not_mem_nil⟩
  · intro f hrun hforeign
    obtain ⟨-, n, rfl, hcollect⟩ := literalTooLong_of_foreign hrun hforeign
    exact ⟨n, rfl, (exists_tooLongAt_of_collect hcollect).1⟩
  · intro digits c index hliteral
    exact Encoding.instruction_literal hliteral c index

/-- Zeros alone, one more than are ever read. -/
def tooManyZeros : Text := List.replicate 4301 '0'

theorem fails_foreign_of_tooManyZeros :
    ∃ f, ofSource false ['f'] (Line.address tooManyZeros) = .error f ∧
      FaultFamily.program ∉ f.families := by
  have hzero : ∀ c ∈ tooManyZeros, c = '0' := fun c hc => List.eq_of_mem_replicate hc
  have hne : Line.address tooManyZeros ≠ [] := List.cons_ne_nil _ _
  have hplain : Source.IsPlain (Line.address tooManyZeros) := by
    intro c hc
    rcases List.mem_cons.1 hc with rfl | hc
    · decide
    · rw [hzero c hc]
      decide
  have hclean : texts (Source.clean (Line.address tooManyZeros)) = [Line.address tooManyZeros] := by
    rw [Source.clean_of_isPlain hne hplain]
    rfl
  have hliteral : Numeral.isLiteral tooManyZeros = true := by
    refine (Numeral.isLiteral_iff _).2 ⟨List.cons_ne_nil _ _, fun c hc => ?_⟩
    rw [hzero c hc]
    decide
  have hlong : isTooLong (Line.address tooManyZeros) = true := by
    rw [isTooLong, Line.isAddress_address, Line.operand_address, hliteral, tooManyZeros,
      List.length_replicate]
    rfl
  have hfirst : TooLongAt (texts (Source.clean (Line.address tooManyZeros))) 0 := by
    rw [hclean]
    exact ⟨Line.address tooManyZeros, rfl, hlong⟩
  exact (fails_foreign_iff_literal_tooLong false ['f'] (Line.address tooManyZeros)).1.2
    ⟨by simp, 0, ⟨.inl hfirst, fun i _ => Nat.zero_le i⟩, hfirst⟩

end Assembly

end HackAssembler
