import HackAssembler.Program.Assembly
import HackAssembler.Proofs.FirstFault
import HackAssembler.Proofs.Program.Declarations
import HackAssembler.Proofs.Program.Variables

/-! The words of a program. Encoding one instruction after the other, with symbols that are still to come, ends like
encoding each of them by the meaning of the whole program: in the same words, or at the first that is at fault. -/
namespace HackAssembler

namespace Encoding

/-- Every instruction can be encoded in the context behind all of them. -/
theorem programFrom_eq_collect {c : Context} (h : c.InRange) (index : Nat) (lines : List Text) :
    (programFrom c index lines).1 =
      collect (lines.mapIdx fun i line =>
        settled (c.advanceAll lines) line (some ((index + i : Nat) : Int))) := by
  induction lines generalizing c index with
  | nil => rfl
  | cons line rest ih =>
    have hfirst : instruction c line (some (index : Int)) =
        settled (c.advanceAll (line :: rest)) line (some ((index + 0 : Nat) : Int)) := by
      rw [instruction_eq_settled fun _ _ => h.isWritable]
      apply settled_congr
      intro haddress
      rw [Line.isAddress_iff.1 haddress, Line.operand_address, Context.addressOf_advanceAll_cons]
    rw [programFrom_cons, List.mapIdx_cons, ← hfirst]
    cases hword : instruction c line (some (index : Int)) with
    | error f => rfl
    | ok word =>
      have hrest : (programFrom (c.after line) (index + 1) rest).1 =
          collect (rest.mapIdx fun i next =>
            settled (c.advanceAll (line :: rest)) next (some ((index + (i + 1) : Nat) : Int))) := by
        rw [ih (h.after hword), Context.advanceAll_cons, Context.after_eq_advance h.isWritable]
        simp only [Nat.add_assoc, Nat.add_comm 1]
      rw [collect_cons_ok, hrest]

end Encoding

namespace Program

theorem address_nonneg (lines : List Text) (name : Text) : 0 ≤ address lines name := by
  have hpredefined : ∀ s ∈ Symbol.predefined, 0 ≤ s.address := by decide
  have hbase : 0 ≤ Symbol.variableBase := by decide
  unfold address
  split
  · next s hs => exact hpredefined s (List.mem_of_find?_eq_some hs)
  · split <;> omega

theorem value_nonneg (lines : List Text) (operand : Text) : 0 ≤ value lines operand := by
  unfold value
  split
  · omega
  · exact address_nonneg lines operand

theorem isVariable_iff {lines : List Text} {name : Text} :
    isVariable lines name = true ↔
      Numeral.isLiteral name = false ∧ predefined? name = none ∧ Line.label name ∉ lines := by
  simp [isVariable, and_assoc]

theorem value_of_variable {lines : List Text} {name : Text} (h : isVariable lines name = true) :
    value lines name = Symbol.variableBase + (variablesBefore lines name).length := by
  obtain ⟨hliteral, hpredefined, hdeclared⟩ := isVariable_iff.1 h
  rw [value, hliteral, if_neg Bool.false_ne_true, address, hpredefined]
  simp only [if_neg hdeclared]

/-- Without a fault there is a word. -/
theorem exists_word_of_no_fault {lines : List Text} {line : Text} (h : fault? lines line = none) :
    ∃ word, word? lines line = some word := by
  unfold fault? at h
  unfold word?
  by_cases haddress : Line.isAddress line = true
  · rw [if_pos haddress] at h ⊢
    by_cases hrange : Word.maxAddress < value lines (Line.operand line)
    · rw [if_pos hrange] at h
      cases h
    · rw [if_neg hrange]
      exact ⟨_, rfl⟩
  · rw [if_neg haddress, Option.map_eq_none_iff] at h
    obtain ⟨word, hword, -⟩ := Encoding.compute_of_known h none
    rw [if_neg haddress]
    exact ⟨word, hword⟩

theorem fault?_isSome_iff {lines : List Text} {line : Text} :
    (fault? lines line).isSome = true ↔ Faulty lines line := by
  unfold fault? Faulty
  by_cases haddress : Line.isAddress line = true
  · rw [if_pos haddress]
    by_cases hrange : Word.maxAddress < value lines (Line.operand line)
    · simp [haddress, hrange]
    · simp [haddress, hrange]
  · rw [if_neg haddress, Option.isSome_map, Fields.unknown?_isSome_iff]
    simp [haddress]

instance (lines : List Text) (line : Text) : Decidable (Faulty lines line) :=
  decidable_of_iff _ fault?_isSome_iff

instance (lines : List Text) (i : Nat) : Decidable (FaultyAt lines i) :=
  inferInstanceAs (Decidable (∃ line ∈ (Labels.instructions lines)[i]?, Faulty lines line))

theorem outcome_of_word {lines : List Text} {line word : Text} {index : Int}
    (h : outcome lines line index = .ok word) :
    isTooLong line = false ∧ fault? lines line = none ∧ word? lines line = some word := by
  unfold outcome at h
  cases hlong : isTooLong line with
  | true =>
    rw [hlong] at h
    cases h
  | false =>
    rw [hlong, if_neg Bool.false_ne_true] at h
    cases hfault : fault? lines line with
    | some cause =>
      rw [hfault] at h
      cases h
    | none =>
      obtain ⟨word', hword⟩ := exists_word_of_no_fault hfault
      rw [hfault, hword] at h
      obtain rfl := Except.ok.inj h
      exact ⟨rfl, rfl, hword⟩

theorem outcome_eq_error_iff {lines : List Text} {line : Text} {index : Int} {f : Failure} :
    outcome lines line index = .error f ↔
      (isTooLong line = true ∧ f = .literalTooLong (Line.operand line).length) ∨
        (isTooLong line = false ∧ ∃ cause, fault? lines line = some cause ∧
          f = .diagnostic { cause, index := some index }) := by
  unfold outcome
  cases isTooLong line with
  | true => simp [eq_comm]
  | false =>
    cases fault? lines line with
    | some cause => simp [eq_comm]
    | none => simp

section Final
variable {lines : List Text} {labels : SymbolTable}
  (h : labels.symbols = Symbol.predefined ++ labelSymbols lines)
include h

theorem isNew_start : (⟨labels, Symbol.variableBase⟩ : Context).isNew = isVariable lines := by
  funext name
  have hnone := lookup_eq_none_iff_of_symbols h name
  rw [Bool.eq_iff_iff, Context.isNew_iff, ← SymbolTable.lookup_eq_none_iff, hnone, isVariable_iff]

theorem newNames_start :
    (⟨labels, Symbol.variableBase⟩ : Context).newNames (Labels.instructions lines) =
      ((operands lines).filter (isVariable lines)).eraseDups := by
  rw [Context.newNames, isNew_start h, operands_instructions]

/-- A variable has as many variables in front of it as are referred to earlier. -/
theorem idxOf_newNames_start {name : Text} (hname : isVariable lines name = true) :
    ((⟨labels, Symbol.variableBase⟩ : Context).newNames (Labels.instructions lines)).idxOf name =
      (variablesBefore lines name).length := by
  rw [newNames_start h, List.idxOf_eraseDups, List.takeWhile_filter, variablesBefore]
  have hstop : (fun other => !isVariable lines other || decide (other ≠ name)) =
      fun other => decide (other ≠ name) := by
    funext other
    by_cases hother : other = name
    · simp [hother, hname]
    · simp [hother]
  rw [hstop]

theorem addressOf_final (operand : Text) :
    ((⟨labels, Symbol.variableBase⟩ : Context).advanceAll (Labels.instructions lines)).addressOf operand =
      if Numeral.isLiteral operand && decide (Failure.maxLiteralDigits < operand.length) then
        .error (.literalTooLong operand.length)
      else .ok (value lines operand) := by
  rw [Context.addressOf_advanceAll, value]
  by_cases hliteral : Numeral.isLiteral operand = true
  · rw [if_pos hliteral, Context.addressOf, if_pos hliteral, if_pos hliteral, hliteral, Bool.true_and]
    simp only [decide_eq_true_eq]
  · rw [if_neg hliteral, if_neg hliteral]
    have hlookup := lookup_of_symbols h operand
    have hbound : ∀ s, labels.lookup operand = some s → s.address = address lines operand := by
      intro s hs
      have haddress := address_of_lookup h hs []
      rwa [List.append_nil] at haddress
    cases hs : labels.lookup operand with
    | some s => simp [hliteral, hbound s hs]
    | none =>
      obtain ⟨hp, hl⟩ := (lookup_eq_none_iff_of_symbols h operand).1 hs
      have hvariable : isVariable lines operand = true :=
        isVariable_iff.2 ⟨by simpa using hliteral, hp, hl⟩
      have hindex := idxOf_newNames_start h hvariable
      simp [hliteral, hindex, address, hp, hl]

/-- In the context behind the whole program every instruction comes to what it means. -/
theorem settled_final (line : Text) (index : Int) :
    Encoding.settled
        ((⟨labels, Symbol.variableBase⟩ : Context).advanceAll (Labels.instructions lines)) line
        (some index) = outcome lines line index := by
  unfold Encoding.settled outcome
  by_cases haddress : Line.isAddress line = true
  · rw [if_pos (Line.kind_eq_address_iff.2 haddress), addressOf_final h, isTooLong, haddress, Bool.true_and]
    cases hlong : Numeral.isLiteral (Line.operand line) &&
        decide (Failure.maxLiteralDigits < (Line.operand line).length) with
    | true => rfl
    | false =>
      simp only [Bool.false_eq_true, if_false, Encoding.addressWord]
      have hnonneg := value_nonneg lines (Line.operand line)
      generalize hv : value lines (Line.operand line) = v at hnonneg
      by_cases hrange : Word.maxAddress < v
      · simp [fault?, haddress, hv, hrange]
      · have hfits : v < 2 ^ Word.width := by
          have hmax : Word.maxAddress < 2 ^ Word.width := by decide
          omega
        simp [fault?, word?, haddress, hv, hrange, Word.ofAddress_eq_ofBits hnonneg hfits]
  · have hkind : Line.kind line ≠ .address := by rwa [Ne, Line.kind_eq_address_iff]
    rw [if_neg hkind, isTooLong]
    rw [Bool.not_eq_true] at haddress
    rw [haddress, fault?, word?, haddress]
    simp only [Bool.false_and, Bool.false_eq_true, if_false]
    cases hunknown : (Fields.split line).unknown? with
    | some field => exact Encoding.compute_of_unknown hunknown (some index)
    | none =>
      obtain ⟨word, hword, hcompute⟩ := Encoding.compute_of_known hunknown (some index)
      rw [hcompute, hword]
      rfl

theorem program_eq_collect :
    (Encoding.program labels (Labels.instructions lines)).1 =
      collect (outcomes lines) := by
  rw [Encoding.program, Encoding.programFrom_eq_collect (Context.inRange_start labels), outcomes]
  simp only [settled_final h, Nat.zero_add]

end Final

end Program

end HackAssembler
