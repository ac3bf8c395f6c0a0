import HackAssembler.Proofs.Program.Outcome

/-! The symbol table that a program leaves: the predefined symbols, then its labels, then its variables, each group
in the order of the source. -/
namespace HackAssembler

namespace Encoding

/-- A sequence that is encoded to its end leaves the context behind all its lines. -/
theorem context_of_programFrom {c : Context} (hc : c.InRange) {index : Nat} {lines words : List Text}
    (h : (programFrom c index lines).1 = .ok words) :
    (programFrom c index lines).2 = c.advanceAll lines := by
  induction lines generalizing c index words with
  | nil => rfl
  | cons line rest ih =>
    rw [programFrom_cons] at h ⊢
    cases hword : instruction c line (some (index : Int)) with
    | error f =>
      rw [hword] at h
      cases h
    | ok word =>
      simp only [hword] at h ⊢
      cases hrest : (programFrom (c.after line) (index + 1) rest).1 with
      | error f =>
        rw [hrest] at h
        cases h
      | ok tail =>
        rw [ih (hc.after hword) hrest, Context.advanceAll_cons, Context.after_eq_advance hc.isWritable]

end Encoding

namespace Program

/-- The operands that become variables, in the order of their first reference. -/
def variableNames (lines : List Text) : List Text :=
  ((operands lines).filter (isVariable lines)).eraseDups

/-- The variables of a program, at rising addresses without a gap. -/
def variableSymbols (lines : List Text) : List Symbol :=
  (variableNames lines).mapIdx fun i name => ⟨name, Symbol.variableBase + i, .variable⟩

theorem mem_variableNames_iff {lines : List Text} {name : Text} :
    name ∈ variableNames lines ↔ Line.address name ∈ lines ∧ isVariable lines name = true := by
  rw [variableNames, List.mem_eraseDups, List.mem_filter, operands, List.mem_map]
  refine and_congr_left fun _ => ?_
  constructor
  · rintro ⟨line, hline, rfl⟩
    obtain ⟨hmem, haddress⟩ := List.mem_filter.1 hline
    rwa [← Line.isAddress_iff.1 haddress]
  · intro h
    exact ⟨Line.address name, List.mem_filter.2 ⟨h, Line.isAddress_address name⟩,
      Line.operand_address name⟩

/-- A program that is encoded to its end has no faulty instruction. -/
theorem not_faulty_of_mem {lines words : List Text} (h : collect (outcomes lines) = .ok words)
    {line : Text} (hline : line ∈ Labels.instructions lines) : ¬Faulty lines line := by
  obtain ⟨i, hi⟩ := List.mem_iff_getElem?.1 hline
  have hget := congrArg (·[i]?) (collect_eq_ok_iff.1 h)
  simp only [getElem?_outcomes, hi, Option.map_some, List.getElem?_map] at hget
  obtain ⟨word, -, hword⟩ := Option.map_eq_some_iff.1 hget.symm
  exact (not_faulty_of_outcome_ok hword.symm).2

/-! ### Addresses of labels -/

theorem address_le_of_mem_labelSymbols {lines : List Text} {s : Symbol} (h : s ∈ labelSymbols lines) :
    s.address ≤ (Labels.instructions lines).length := by
  obtain ⟨name, -, rfl⟩ := List.mem_map.1 h
  have hsub : (Labels.instructions (lines.takeWhile (· ≠ Line.label name))).Sublist
      (Labels.instructions lines) := (List.takeWhile_sublist _).filter _
  exact Int.ofNat_le.2 hsub.length_le

/-- A label that is declared later is bound to no lower address. -/
theorem pairwise_address_labelSymbols (lines : List Text) :
    ((labelSymbols lines).map Symbol.address).Pairwise (· ≤ ·) := by
  -- From the right: a new label is bound to the number of all instructions so far.
  induction lines using List.reverseRecOn with
  | nil => exact List.Pairwise.nil
  | append_singleton lines line ih =>
    by_cases hlabel : Line.isLabel line = true
    · rw [Line.isLabel_iff.1 hlabel]
      generalize Line.labelName line = name
      by_cases hbound : predefined? name ≠ none ∨ Line.label name ∈ lines
      · rwa [labelSymbols_concat_of_bound hbound]
      · rw [not_or, not_not] at hbound
        rw [labelSymbols_concat_of_new hbound.1 hbound.2, List.map_append, List.pairwise_append]
        refine ⟨ih, List.pairwise_singleton _ _, ?_⟩
        intro earlier hearlier last hlast
        obtain ⟨s, hs, rfl⟩ := List.mem_map.1 hearlier
        obtain rfl : last = (Labels.instructions lines).length := by simpa using hlast
        exact address_le_of_mem_labelSymbols hs
    · rw [Bool.not_eq_true] at hlabel
      rwa [labelSymbols_concat_of_not_label hlabel]

/-! ### Addresses of variables -/

theorem nodup_address_variableSymbols (lines : List Text) :
    ((variableSymbols lines).map Symbol.address).Nodup := by
  rw [List.Nodup, List.pairwise_iff_getElem]
  intro i j hi hj hlt
  simp only [variableSymbols, List.getElem_map, List.getElem_mapIdx]
  omega

section Final
variable {lines : List Text} {labels : SymbolTable}
  (h : labels.symbols = Symbol.predefined ++ labelSymbols lines)
include h

theorem newSymbols_start :
    (⟨labels, Symbol.variableBase⟩ : Context).newSymbols (Labels.instructions lines) =
      variableSymbols lines := by
  rw [Context.newSymbols, newNames_start h, variableSymbols, variableNames]

/-- The labels stay as they are, and the variables are added behind them. -/
theorem symbols_of_program {words : List Text}
    (hwords : (Encoding.program labels (Labels.instructions lines)).1 = .ok words) :
    (Encoding.program labels (Labels.instructions lines)).2.table.symbols =
      labels.symbols ++ variableSymbols lines := by
  rw [Encoding.program] at hwords ⊢
  rw [Encoding.context_of_programFrom (Context.inRange_start labels) hwords, Context.symbols_advanceAll, newSymbols_start h]

/-- The place of a variable among all of them is the number of those that are referred to earlier. -/
theorem length_variablesBefore_getElem {i : Nat} (hi : i < (variableNames lines).length) :
    (variablesBefore lines (variableNames lines)[i]).length = i := by
  have hnames := newNames_start h
  have hnodup : (variableNames lines).Nodup := by
    have htable := ((⟨labels, Symbol.variableBase⟩ : Context).advanceAll
      (Labels.instructions lines)).table.nodup_names
    rw [SymbolTable.names, Context.symbols_advanceAll, List.map_append, Context.names_newSymbols, hnames]
      at htable
    exact (List.nodup_append.1 htable).2.1
  have hvariable := (mem_variableNames_iff.1 (List.getElem_mem hi)).2
  rw [← idxOf_newNames_start h hvariable, hnames]
  exact hnodup.idxOf_getElem i hi

/-- Where every instruction has its word, every variable has an address that fits. -/
theorem address_of_mem_variableSymbols {words : List Text}
    (hwords : collect (outcomes lines) = .ok words) {s : Symbol} (hs : s ∈ variableSymbols lines) :
    Symbol.variableBase ≤ s.address ∧ s.address ≤ Word.maxAddress := by
  obtain ⟨i, hi, rfl⟩ := List.mem_mapIdx.1 hs
  obtain ⟨hline, hvariable⟩ := mem_variableNames_iff.1 (List.getElem_mem hi)
  have hvalue := value_of_variable hvariable
  rw [length_variablesBefore_getElem h hi] at hvalue
  have hinstruction : Line.address (variableNames lines)[i] ∈ Labels.instructions lines := by
    rw [Labels.instructions, List.mem_filter,
      Line.not_isLabel_of_isAddress (Line.isAddress_address _)]
    exact ⟨hline, rfl⟩
  have hfaulty := not_faulty_of_mem hwords hinstruction
  rw [Faulty, Line.operand_address, hvalue, not_or, not_and, Int.not_lt] at hfaulty
  exact ⟨Int.le_add_of_nonneg_right (Int.natCast_nonneg i), hfaulty.1 (Line.isAddress_address _)⟩

end Final

end Program

end HackAssembler
