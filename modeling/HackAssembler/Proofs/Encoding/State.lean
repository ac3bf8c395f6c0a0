import HackAssembler.Program.Step
import HackAssembler.Proofs.Program.Table
import HackAssembler.Proofs.Symbol.Binding
import HackAssembler.Proofs.Text.Numerals

/-! What steps leave in a context, those that fail included. The table only grows at its end, the counter of variables
only goes up, and an instruction adds the variable that it is the first to name, or nothing. -/
namespace HackAssembler

namespace Context

/-- An address instruction whose operand is a name without an address. -/
def Introduces (c : Context) (line : Text) : Prop :=
  Line.isAddress line = true ∧ Numeral.isLiteral (Line.operand line) = false ∧
    Line.operand line ∉ c.table.names

instance (c : Context) (line : Text) : Decidable (c.Introduces line) :=
  inferInstanceAs (Decidable (_ ∧ _))

/-- The variables that a step makes in a context: what its table then lists behind the symbols from before. What is
bound in the table itself is not counted. -/
def createdBy (c : Context) : Step → List Symbol
  | .bind _ => []
  | step => (c.perform step).2.table.symbols.drop c.table.symbols.length

/-- The variables that are made in a context by a sequence of steps. -/
def created (c : Context) : List Step → List Symbol
  | [] => []
  | step :: rest => c.createdBy step ++ (c.perform step).2.created rest

variable {c : Context} {line : Text}

/-! ### One instruction -/

theorem isNew_operand_iff (haddress : Line.isAddress line = true) :
    c.isNew (Line.operand line) = true ↔ c.Introduces line := by
  rw [isNew_iff, Introduces, haddress]
  simp

theorem isNew_of_introduces (h : c.Introduces line) : c.isNew (Line.operand line) = true :=
  (isNew_operand_iff h.1).2 h

theorem after_of_introduces (h : c.Introduces line) : c.after line = (c.allocate (Line.operand line)).2 := by
  rw [after, if_pos (Line.kind_eq_address_iff.2 h.1), afterAddress, if_pos (isNew_of_introduces h)]

theorem after_of_not_introduces (h : ¬c.Introduces line) : c.after line = c := by
  unfold after afterAddress
  split
  · next haddress =>
    rw [if_neg]
    rwa [isNew_operand_iff (Line.kind_eq_address_iff.1 haddress)]
  · rfl

/-- The address is taken up before it is known to fit, and only then may the instruction fail. An address that cannot
be written fails before that. -/
theorem instruction_of_introduces (h : c.Introduces line) (index : Option Int) :
    Encoding.instruction c line index =
      if Numeral.isWritable c.nextVariable then Encoding.addressWord c.nextVariable line index
      else .error .numberTooLong := by
  have hnew := isNew_of_introduces h
  rw [Encoding.instruction, if_pos (Line.kind_eq_address_iff.2 h.1), Encoding.address, resolve, if_pos hnew,
    allocate_of_free (lookup_of_isNew hnew)]
  cases Numeral.isWritable c.nextVariable <;> rfl

/-- The answer to that instruction as a step: where the address can be written, so can what is said of it. -/
theorem answer_of_introduces (h : c.Introduces line) (index : Option Int) :
    (c.perform (.encode line index)).1 =
      if Numeral.isWritable c.nextVariable then
        if Word.maxAddress < c.nextVariable then
          .error (.diagnostic { cause := .addressRange c.nextVariable line, index })
        else .ok (.word (Word.ofAddress c.nextVariable))
      else .error .numberTooLong := by
  rw [perform, instruction_of_introduces h, Encoding.addressWord]
  cases hwritable : Numeral.isWritable c.nextVariable with
  | false => rfl
  | true =>
    rw [if_pos rfl, if_pos rfl]
    split
    · simp [Except.mapError, Except.map, Failure.raised, hwritable]
    · rfl

/-! ### One step -/

/-- The table of a new variable is the one from before with the variable behind it. -/
theorem symbols_allocate_of_free {name : Text} (h : c.table.lookup name = none) :
    (c.allocate name).2.table.symbols = c.table.symbols ++ [⟨name, c.nextVariable, .variable⟩] := by
  rw [table_allocate, SymbolTable.symbols_bind, h]
  rfl

/-- The address that is asked for is that of the binding, old or new, and the counter goes on if it can be written. -/
theorem allocate_eq (c : Context) (name : Text) :
    c.allocate name =
      let address := (c.table.address? name).getD c.nextVariable
      let table := (c.table.bind ⟨name, c.nextVariable, .variable⟩).2
      if Numeral.isWritable address then (.ok address, ⟨table, c.nextVariable + 1⟩)
      else (.error .numberTooLong, ⟨table, c.nextVariable⟩) := by
  dsimp only
  rw [← SymbolTable.fst_bind (s := ⟨name, c.nextVariable, .variable⟩)]
  rfl

theorem nextVariable_le_allocate (c : Context) (name : Text) :
    c.nextVariable ≤ (c.allocate name).2.nextVariable := by
  unfold allocate
  dsimp only
  split
  · dsimp only
    omega
  · exact Int.le_refl _

/-- A step makes one variable, at the address that the counter shows, and the counter goes on if it can be written. Or
it makes none, and then it may still have bound a name in the table or passed over an address. -/
theorem perform_cases (c : Context) (step : Step) :
    (∃ name, (c.perform step).2.table.symbols =
        c.table.symbols ++ [⟨name, c.nextVariable, .variable⟩] ∧
      (c.perform step).2.nextVariable =
        (if Numeral.isWritable c.nextVariable then c.nextVariable + 1 else c.nextVariable) ∧
      c.createdBy step = [⟨name, c.nextVariable, .variable⟩]) ∨
    (c.table.symbols <+: (c.perform step).2.table.symbols ∧
      c.nextVariable ≤ (c.perform step).2.nextVariable ∧ c.createdBy step = []) := by
  cases step with
  | bind s => exact .inr ⟨c.table.symbols_prefix_bind s, Int.le_refl _, rfl⟩
  | allocate name =>
    have hcounter := c.nextVariable_le_allocate name
    cases hlookup : c.table.lookup name with
    | none =>
      have hsymbols := symbols_allocate_of_free hlookup
      refine .inl ⟨name, hsymbols, nextVariable_allocate_of_free hlookup, ?_⟩
      show (c.allocate name).2.table.symbols.drop _ = _
      rw [hsymbols, List.drop_left]
    | some bound =>
      have htable : (c.allocate name).2.table = c.table := by
        rw [table_allocate, SymbolTable.bind_of_lookup_some hlookup]
      have hextended : c.table.symbols <+: (c.allocate name).2.table.symbols := htable ▸ List.prefix_refl _
      refine .inr ⟨hextended, hcounter, ?_⟩
      show (c.allocate name).2.table.symbols.drop _ = _
      rw [htable, List.drop_length]
  | encode line index =>
    by_cases h : c.Introduces line
    · have hafter : (c.perform (.encode line index)).2 = (c.allocate (Line.operand line)).2 := after_of_introduces h
      have hfree := lookup_of_isNew (isNew_of_introduces h)
      have hsymbols := symbols_allocate_of_free hfree
      have hcreated : c.createdBy (.encode line index) = [⟨Line.operand line, c.nextVariable, .variable⟩] := by
        show (c.after line).table.symbols.drop _ = _
        rw [after_of_introduces h, hsymbols, List.drop_left]
      rw [hafter]
      exact .inl ⟨Line.operand line, hsymbols, nextVariable_allocate_of_free hfree, hcreated⟩
    · have hsame : (c.perform (.encode line index)).2 = c := after_of_not_introduces h
      have hnone : c.createdBy (.encode line index) = [] := by
        show (c.after line).table.symbols.drop _ = _
        rw [after_of_not_introduces h, List.drop_length]
      rw [hsame]
      exact .inr ⟨List.prefix_refl _, Int.le_refl _, hnone⟩

theorem symbols_prefix_perform (c : Context) (step : Step) :
    c.table.symbols <+: (c.perform step).2.table.symbols := by
  rcases c.perform_cases step with ⟨name, hsymbols, -, -⟩ | ⟨hextended, -, -⟩
  · rw [hsymbols]
    exact List.prefix_append _ _
  · exact hextended

theorem nextVariable_le_perform (c : Context) (step : Step) :
    c.nextVariable ≤ (c.perform step).2.nextVariable := by
  rcases c.perform_cases step with ⟨name, -, hnext, -⟩ | ⟨-, hle, -⟩
  · rw [hnext]
    split <;> omega
  · exact hle

/-! ### Many steps -/

/-- What every step keeps, a sequence of steps keeps. -/
theorem performAll_induction {p : Context → Prop} (hc : p c) {steps : List Step}
    (hstep : ∀ d, ∀ step ∈ steps, p d → p (d.perform step).2) : p (c.performAll steps) :=
  List.foldlRecOn steps _ hc fun d hd step hmem => hstep d step hmem hd

theorem symbols_prefix_performAll (c : Context) (steps : List Step) :
    c.table.symbols <+: (c.performAll steps).table.symbols := by
  apply performAll_induction (p := fun d => c.table.symbols <+: d.table.symbols) (List.prefix_refl _)
  intro d step _ hd
  exact hd.trans (d.symbols_prefix_perform step)

theorem nextVariable_le_performAll (c : Context) (steps : List Step) :
    c.nextVariable ≤ (c.performAll steps).nextVariable := by
  apply performAll_induction (p := fun d => c.nextVariable ≤ d.nextVariable) (Int.le_refl _)
  intro d step _ hd
  exact Int.le_trans hd (d.nextVariable_le_perform step)

/-- The variables that are made stand in the table in the order in which they were made. -/
theorem exists_added_performAll (c : Context) (steps : List Step) :
    ∃ added, (c.performAll steps).table.symbols = c.table.symbols ++ added ∧
      (c.created steps).Sublist added := by
  induction steps generalizing c with
  | nil => exact ⟨[], (List.append_nil _).symm, .refl _⟩
  | cons step rest ih =>
    obtain ⟨later, hlater, hrest⟩ := ih (c.perform step).2
    have hfirst : ∃ first, (c.perform step).2.table.symbols = c.table.symbols ++ first ∧
        (c.createdBy step).Sublist first := by
      rcases c.perform_cases step with ⟨name, hsymbols, -, hcreated⟩ | ⟨⟨first, hsymbols⟩, -, hcreated⟩
      · exact ⟨_, hsymbols, hcreated ▸ .refl _⟩
      · exact ⟨first, hsymbols.symm, hcreated ▸ List.nil_sublist _⟩
    obtain ⟨first, hsymbols, hcreated⟩ := hfirst
    refine ⟨first ++ later, ?_, hcreated.append hrest⟩
    rw [performAll_cons, hlater, hsymbols, List.append_assoc]

theorem variable_of_mem_created {steps : List Step} {s : Symbol} (h : s ∈ c.created steps) :
    s.kind = .variable ∧ c.nextVariable ≤ s.address := by
  induction steps generalizing c with
  | nil => cases h
  | cons step rest ih =>
    rcases List.mem_append.1 h with hs | hs
    · rcases c.perform_cases step with ⟨name, -, -, hcreated⟩ | ⟨-, -, hcreated⟩
      · rw [hcreated, List.mem_singleton] at hs
        subst hs
        exact ⟨rfl, Int.le_refl _⟩
      · rw [hcreated] at hs
        cases hs
    · obtain ⟨hkind, hle⟩ := ih hs
      exact ⟨hkind, Int.le_trans (c.nextVariable_le_perform step) hle⟩

/-- A variable that is made later has no lower address, and a higher one if that of the earlier can be written. -/
theorem pairwise_created (c : Context) (steps : List Step) :
    (c.created steps).Pairwise fun s t =>
      s.address ≤ t.address ∧ (Numeral.isWritable s.address = true → s.address < t.address) := by
  induction steps generalizing c with
  | nil => exact List.Pairwise.nil
  | cons step rest ih =>
    rw [created]
    rcases c.perform_cases step with ⟨name, -, hnext, hcreated⟩ | ⟨-, -, hcreated⟩
    · rw [hcreated, List.singleton_append, List.pairwise_cons]
      refine ⟨fun t ht => ?_, ih _⟩
      have hle := (variable_of_mem_created ht).2
      rw [hnext] at hle
      dsimp only
      split at hle
      · exact ⟨by omega, fun _ => by omega⟩
      · next hlong => exact ⟨hle, fun hwritable => absurd hwritable hlong⟩
    · rw [hcreated]
      exact ih _

/-- A counter that cannot be written stays where it is, so that two new variables share their address. -/
theorem symbols_of_stuck_counter {name other : Text} (hcounter : Numeral.isWritable c.nextVariable = false)
    (hname : c.table.lookup name = none) (hother : c.table.lookup other = none) (hne : name ≠ other) :
    (c.performAll [.allocate name, .allocate other]).table.symbols =
      c.table.symbols ++ [⟨name, c.nextVariable, .variable⟩, ⟨other, c.nextVariable, .variable⟩] := by
  have hsymbols := symbols_allocate_of_free hname
  have hstays : (c.allocate name).2.nextVariable = c.nextVariable := by
    rw [nextVariable_allocate_of_free hname, hcounter, if_neg Bool.false_ne_true]
  have hfree : (c.allocate name).2.table.lookup other = none := by
    rw [SymbolTable.lookup_eq_none_iff] at hother ⊢
    rw [SymbolTable.names, hsymbols, List.map_append, List.mem_append, not_or]
    exact ⟨hother, by simpa using Ne.symm hne⟩
  show ((c.allocate name).2.allocate other).2.table.symbols = _
  rw [symbols_allocate_of_free hfree, hsymbols, hstays, List.append_assoc]
  rfl

end Context

namespace Encoding

/-- What every instruction keeps, a program keeps, wherever it ends. -/
theorem programFrom_induction {p : Context → Prop} {c : Context} (hc : p c)
    (hafter : ∀ d line, p d → p (d.after line)) (index : Nat) (lines : List Text) :
    p (programFrom c index lines).2 := by
  induction lines generalizing c index with
  | nil => exact hc
  | cons line rest ih =>
    rw [programFrom_cons]
    cases instruction c line (some (index : Int)) with
    | error f => exact hafter c line hc
    | ok word => exact ih (hafter c line hc) (index + 1)

/-- A sequence that fails has been encoded up to the faulty instruction, and leaves the context behind that. -/
theorem exists_fault_of_programFrom {c : Context} (hc : c.InRange) {index : Nat} {lines : List Text} {f : Failure}
    (h : (programFrom c index lines).1 = .error f) :
    ∃ i line, lines[i]? = some line ∧
      (∃ words, (programFrom c index (lines.take i)).1 = .ok words) ∧
      instruction (programFrom c index (lines.take i)).2 line (some ((index + i : Nat) : Int)) = .error f ∧
      (programFrom c index lines).2 = c.advanceAll (lines.take (i + 1)) := by
  induction lines generalizing c index with
  | nil => cases h
  | cons line rest ih =>
    have hafter := Context.after_eq_advance hc.isWritable line
    rw [programFrom_cons] at h ⊢
    cases hword : instruction c line (some (index : Int)) with
    | error f' =>
      rw [hword] at h
      obtain rfl := Except.error.inj h
      exact ⟨0, line, rfl, ⟨[], rfl⟩, hword, hafter⟩
    | ok word =>
      simp only [hword] at h ⊢
      have hrest := Except.map_eq_error_iff.1 h
      obtain ⟨i, faulty, hfaulty, ⟨words, hwords⟩, hfault, hleft⟩ := ih (hc.after hword) hrest
      refine ⟨i + 1, faulty, hfaulty, ⟨word :: words, ?_⟩, ?_, ?_⟩
      · rw [List.take_succ_cons, programFrom_cons, hword]
        simp only [hwords]
        rfl
      · rw [List.take_succ_cons, programFrom_cons, hword, ← Nat.add_assoc, Nat.add_right_comm]
        exact hfault
      · rw [hleft, List.take_succ_cons, Context.advanceAll_cons, hafter]

end Encoding

namespace Context

variable {c : Context} {line : Text}

/-- An instruction that makes a variable binds it, and the counter goes on if the address can be written. -/
theorem state_of_introduces (h : c.Introduces line) (index : Option Int) :
    let next := c.perform (.encode line index)
    next.2.table.symbols = c.table.symbols ++ [⟨Line.operand line, c.nextVariable, .variable⟩] ∧
      (c.nextVariable.natAbs < 10 ^ 4300 → next.2.nextVariable = c.nextVariable + 1 ∧
        next.1 =
          if Word.maxAddress < c.nextVariable then
            .error (.diagnostic { cause := .addressRange c.nextVariable line, index })
          else .ok (.word (Word.ofAddress c.nextVariable))) ∧
      (10 ^ 4300 ≤ c.nextVariable.natAbs →
        next.2.nextVariable = c.nextVariable ∧ next.1 = .error .numberTooLong) := by
  intro next
  have hafter : next.2 = (c.allocate (Line.operand line)).2 := after_of_introduces h
  have hanswer : next.1 = _ := answer_of_introduces h index
  have hfree := lookup_of_isNew (isNew_of_introduces h)
  rw [hafter, hanswer, nextVariable_allocate_of_free hfree]
  refine ⟨symbols_allocate_of_free hfree, fun hshort => ?_, fun hlong => ?_⟩
  · rw [Numeral.isWritable_iff.2 hshort]
    exact ⟨rfl, rfl⟩
  · rw [Numeral.isWritable_eq_false_iff.2 hlong]
    exact ⟨rfl, rfl⟩

/-- A name that is allocated has the address of its binding, old or new, and the counter goes on if that can be
written. -/
theorem state_of_allocate (c : Context) (name : Text) :
    let next := c.perform (.allocate name)
    let address := (c.table.address? name).getD c.nextVariable
    next.2.table.symbols = c.table.symbols ++
        (if name ∈ c.table.names then [] else [⟨name, c.nextVariable, .variable⟩]) ∧
      (address.natAbs < 10 ^ 4300 →
        next.2.nextVariable = c.nextVariable + 1 ∧ next.1 = .ok (.address address)) ∧
      (10 ^ 4300 ≤ address.natAbs →
        next.2.nextVariable = c.nextVariable ∧ next.1 = .error .numberTooLong) := by
  intro next address
  have hnext : next = ((c.allocate name).1.map .address, (c.allocate name).2) := rfl
  have hsymbols : next.2.table.symbols = c.table.symbols ++
      (if name ∈ c.table.names then [] else [⟨name, c.nextVariable, .variable⟩]) := by
    show (c.allocate name).2.table.symbols = _
    rw [table_allocate, SymbolTable.symbols_bind]
    by_cases hmem : name ∈ c.table.names
    · rw [if_pos hmem, List.append_nil]
      exact if_pos (SymbolTable.contains_iff.2 hmem)
    · rw [if_neg hmem]
      exact if_neg (mt SymbolTable.contains_iff.1 hmem)
  refine ⟨hsymbols, fun hshort => ?_, fun hlong => ?_⟩
  · rw [hnext, allocate_eq, if_pos (Numeral.isWritable_iff.2 hshort)]
    exact ⟨rfl, rfl⟩
  · rw [hnext, allocate_eq, if_neg (ne_true_of_eq_false (Numeral.isWritable_eq_false_iff.2 hlong))]
    exact ⟨rfl, rfl⟩

/-- A program that fails on the table of a context leaves the variables up to the faulty instruction. -/
theorem state_of_failed_encode {lines : List Text} {f : Failure} (h : (c.encode lines).1 = .error f) :
    ∃ (i : Nat) (line : Text), lines[i]? = some line ∧
      (∃ words, (c.encode (lines.take i)).1 = .ok words) ∧
      ((Encoding.program c.table (lines.take i)).2.perform (.encode line (some i))).1 = .error f ∧
      (c.encode lines).2.table.symbols = c.table.symbols ++
        ((Program.operands (lines.take (i + 1))).filter fun name =>
          !Numeral.isLiteral name && !c.table.contains name).eraseDups.mapIdx
            fun k name => ⟨name, 16 + k, .variable⟩ := by
  have hencode : ∀ these, c.encode these = ((Encoding.program c.table these).1.mapError Failure.raised,
      { c with table := (Encoding.program c.table these).2.table }) := fun _ => rfl
  rw [hencode] at h
  obtain ⟨g, hfailed, rfl⟩ := Except.mapError_eq_error_iff.1 h
  obtain ⟨i, line, hline, ⟨words, hwords⟩, hfault, hleft⟩ :=
    Encoding.exists_fault_of_programFrom (inRange_start c.table) hfailed
  rw [Nat.zero_add] at hfault
  refine ⟨i, line, hline, ⟨words, ?_⟩, ?_, ?_⟩
  · rw [hencode, Encoding.program, hwords]
    rfl
  · rw [perform, Encoding.program, hfault]
    rfl
  · rw [hencode, Encoding.program, hleft, symbols_advanceAll]
    rfl

/-- In any context, whatever steps led there: no later step disturbs a symbol of the table or lowers the counter. An
instruction that is the first to name an operand adds the operand at the address of the counter and moves the counter
on by one, even where that address does not fit and the instruction fails, and every other instruction leaves the
context as it is. A name that is allocated has the address of its first binding, and one more address is used up. The
variables that were made stand in the table in that order, at rising addresses. So a program that fails at an
instruction leaves the variables up to and including that one, from the first data address on.

An address of more than 4300 digits is the exception. It cannot be written, so that the step fails when the name is
bound and before the counter goes on, and the variables made from there on share that one address. -/
theorem state_of_performAll (c : Context) (steps : List Step) :
    let here := c.performAll steps
    (∀ later, here.table.symbols <+: (here.performAll later).table.symbols ∧
      here.nextVariable ≤ (here.performAll later).nextVariable) ∧
    (∀ line index,
      let next := here.perform (.encode line index)
      if Line.isAddress line = true ∧ Numeral.isLiteral (Line.operand line) = false ∧
          Line.operand line ∉ here.table.names then
        next.2.table.symbols =
            here.table.symbols ++ [⟨Line.operand line, here.nextVariable, .variable⟩] ∧
          (here.nextVariable.natAbs < 10 ^ 4300 → next.2.nextVariable = here.nextVariable + 1 ∧
            next.1 =
              if Word.maxAddress < here.nextVariable then
                .error (.diagnostic { cause := .addressRange here.nextVariable line, index })
              else .ok (.word (Word.ofAddress here.nextVariable))) ∧
          (10 ^ 4300 ≤ here.nextVariable.natAbs →
            next.2.nextVariable = here.nextVariable ∧ next.1 = .error .numberTooLong)
      else next.2 = here) ∧
    (∀ name,
      let next := here.perform (.allocate name)
      let address := (here.table.address? name).getD here.nextVariable
      next.2.table.symbols = here.table.symbols ++
          (if name ∈ here.table.names then [] else [⟨name, here.nextVariable, .variable⟩]) ∧
        (address.natAbs < 10 ^ 4300 →
          next.2.nextVariable = here.nextVariable + 1 ∧ next.1 = .ok (.address address)) ∧
        (10 ^ 4300 ≤ address.natAbs →
          next.2.nextVariable = here.nextVariable ∧ next.1 = .error .numberTooLong)) ∧
    ((c.created steps).Sublist here.table.symbols ∧ (∀ s ∈ c.created steps, s.kind = .variable) ∧
      (c.created steps).Pairwise fun s t =>
        s.address ≤ t.address ∧ (s.address.natAbs < 10 ^ 4300 → s.address < t.address)) ∧
    (10 ^ 4300 ≤ here.nextVariable.natAbs →
      ∀ name other, name ∉ here.table.names → other ∉ here.table.names → name ≠ other →
        (here.performAll [.allocate name, .allocate other]).table.symbols = here.table.symbols ++
          [⟨name, here.nextVariable, .variable⟩, ⟨other, here.nextVariable, .variable⟩]) ∧
    (∀ lines f, (here.encode lines).1 = .error f →
      ∃ (i : Nat) (line : Text), lines[i]? = some line ∧
        (∃ words, (here.encode (lines.take i)).1 = .ok words) ∧
        ((Encoding.program here.table (lines.take i)).2.perform (.encode line (some i))).1 = .error f ∧
        (here.encode lines).2.table.symbols = here.table.symbols ++
          ((Program.operands (lines.take (i + 1))).filter fun name =>
            !Numeral.isLiteral name && !here.table.contains name).eraseDups.mapIdx
              fun k name => ⟨name, 16 + k, .variable⟩) := by
  intro here
  refine ⟨fun later => ⟨here.symbols_prefix_performAll later, here.nextVariable_le_performAll later⟩,
    fun line index => ?_, fun name => ?_, ⟨?_, fun s hs => (variable_of_mem_created hs).1, ?_⟩, ?_, fun lines f => ?_⟩
  · split
    · next h => exact state_of_introduces h index
    · next h => exact after_of_not_introduces h
  · exact here.state_of_allocate name
  · obtain ⟨added, hsymbols, hcreated⟩ := c.exists_added_performAll steps
    rw [hsymbols]
    exact hcreated.trans (List.sublist_append_right _ _)
  · refine (c.pairwise_created steps).imp fun ⟨hle, hlt⟩ => ⟨hle, fun hshort => hlt ?_⟩
    exact Numeral.isWritable_iff.2 hshort
  · intro hlong name other hname hother hne
    exact symbols_of_stuck_counter (Numeral.isWritable_eq_false_iff.2 hlong)
      (SymbolTable.lookup_eq_none_iff.2 hname) (SymbolTable.lookup_eq_none_iff.2 hother) hne
  · exact state_of_failed_encode

/-- A label out of reach, a variable at the last address but one, and an address that is passed over because the name
has one. -/
def passingSteps : List Step :=
  [.bind ⟨['F'], 40000, .label⟩, .encode (Line.address ['x']) none, .allocate ['x']]

/-- A variable, a reference that fails, and a variable that is not reached. -/
def linesOutOfReach : List Text := [Line.address ['v'], Line.address ['F'], Line.address ['w']]

/-- The first address that is too long to be written. -/
def firstLong : Int := (10 ^ 4300 : Nat)

theorem state_of_passingSteps :
    let here := performAll ⟨.initial, 32766⟩ passingSteps
    here.table.symbols = Symbol.predefined ++ [⟨['F'], 40000, .label⟩, ⟨['x'], 32766, .variable⟩] ∧
      (here.perform (.encode (Line.address ['y']) none)).1 =
        .error (.diagnostic { cause := .addressRange 32768 (Line.address ['y']) }) ∧
      (here.perform (.encode (Line.address ['y']) none)).2.table.symbols =
        here.table.symbols ++ [⟨['y'], 32768, .variable⟩] ∧
      (here.encode linesOutOfReach).1 =
        .error (.diagnostic { cause := .addressRange 40000 (Line.address ['F']), index := some 1 }) ∧
      (here.encode linesOutOfReach).2.table.symbols = here.table.symbols ++ [⟨['v'], 16, .variable⟩] ∧
      (performAll ⟨.initial, firstLong⟩ [.allocate ['a'], .allocate ['b']]).table.symbols =
        Symbol.predefined ++ [⟨['a'], firstLong, .variable⟩, ⟨['b'], firstLong, .variable⟩] := by
  have key := state_of_performAll ⟨.initial, 32766⟩ passingSteps
  have hsymbols : (performAll ⟨.initial, 32766⟩ passingSteps).table.symbols =
      Symbol.predefined ++ [⟨['F'], 40000, .label⟩, ⟨['x'], 32766, .variable⟩] := by decide +kernel
  have hcounter : (performAll ⟨.initial, 32766⟩ passingSteps).nextVariable = 32768 := by decide +kernel
  have hstopped : ∀ n ∈ [2, 3], ((performAll ⟨.initial, 32766⟩ passingSteps).encode (linesOutOfReach.take n)).1 =
      .error (.diagnostic { cause := .addressRange 40000 (Line.address ['F']), index := some 1 }) := by
    decide +kernel
  have hnew : ((Program.operands (linesOutOfReach.take 2)).filter fun name =>
      !Numeral.isLiteral name &&
        !(performAll ⟨.initial, 32766⟩ passingSteps).table.contains name) = [['v']] := by decide +kernel
  generalize performAll ⟨.initial, 32766⟩ passingSteps = here at *
  obtain ⟨-, hinstruction, -, -, -, hprogram⟩ := key
  have hfailed := hstopped 3 (by decide)
  have hfree : ∀ name ∈ [['v'], ['y']], name ∉ here.table.names := by
    rw [SymbolTable.names, hsymbols]
    decide
  have hy := hinstruction (Line.address ['y']) none
  rw [if_pos ⟨rfl, rfl, hfree ['y'] (by decide)⟩, hcounter] at hy
  obtain ⟨hbound, hshort, -⟩ := hy
  have hanswer := (hshort (Numeral.isWritable_iff.1 (by decide))).2
  obtain ⟨i, line, hline, ⟨words, hwords⟩, hfault, hleft⟩ := hprogram linesOutOfReach _ hfailed
  have hplace : i = 1 := by
    rcases i with _ | _ | _ | i
    · obtain rfl : Line.address ['v'] = line := Option.some.inj hline
      have hv : (perform ⟨here.table, 16⟩ (.encode (Line.address ['v']) (some 0))).1 =
          .ok (.word (Word.ofAddress 16)) := by
        have hnew : (Context.mk here.table 16).Introduces (Line.address ['v']) :=
          ⟨rfl, rfl, hfree ['v'] (by decide)⟩
        have hwritable : Numeral.isWritable 16 = true := by decide
        have hrange : ¬Word.maxAddress < 16 := by decide
        exact (answer_of_introduces hnew (some 0)).trans ((if_pos hwritable).trans (if_neg hrange))
      cases hv.symm.trans hfault
    · rfl
    · cases (hstopped 2 (by decide)).symm.trans hwords
    · cases hline
  subst hplace
  rw [hnew] at hleft
  obtain ⟨-, -, -, -, hshared, -⟩ := state_of_performAll ⟨.initial, firstLong⟩ []
  have hunbound : ∀ name ∈ [['a'], ['b']], name ∉ SymbolTable.initial.names := by
    rw [SymbolTable.names, SymbolTable.symbols_initial]
    decide
  have hsame := hshared (Nat.le_refl _) ['a'] ['b'] (hunbound _ (by decide)) (hunbound _ (by decide)) (by decide)
  rw [performAll_nil, SymbolTable.symbols_initial] at hsame
  exact ⟨hsymbols, hanswer, hbound, hfailed, hleft, hsame⟩

end Context

end HackAssembler
