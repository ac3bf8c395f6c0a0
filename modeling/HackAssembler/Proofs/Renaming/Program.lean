import Mathlib.Logic.Equiv.Basic
import HackAssembler.Proofs.Renaming.Basic

/-! Names mean nothing in themselves: a program and its renaming go through both passes side by side, on tables that
differ in the names alone, and end in the same words or in the same fault. -/
namespace HackAssembler

namespace Renaming
variable (σ : Renaming)

/-! ### Tables -/

/-- The second table is the first one under new names. -/
def Tables (t u : SymbolTable) : Prop := u.symbols = t.symbols.map σ.symbol

theorem tables_initial : σ.Tables .initial .initial := by
  have hstay : ∀ s ∈ Symbol.predefined, σ.symbol s = s := by
    intro s hs
    have hfound : Program.predefined? s.name ≠ none := by
      intro hnone
      have hno := List.find?_eq_none.1 hnone s hs
      simp at hno
    rw [symbol, σ.name_of_predefined hfound]
  unfold Tables
  rw [SymbolTable.symbols_initial, List.map_congr_left hstay, List.map_id']

variable {σ}

theorem Tables.lookup {t u : SymbolTable} (h : σ.Tables t u) (n : Text) :
    u.lookup (σ.name n) = (t.lookup n).map σ.symbol := by
  have hsame : ((fun s : Symbol => decide (s.name = σ.name n)) ∘ σ.symbol) =
      fun s => decide (s.name = n) := by
    funext s
    have hiff : σ.name s.name = σ.name n ↔ s.name = n := σ.name_injective.eq_iff
    simp [symbol, hiff]
  rw [SymbolTable.lookup_eq_find?, SymbolTable.lookup_eq_find?, h, List.find?_map, hsame]

theorem Tables.bind {t u : SymbolTable} (h : σ.Tables t u) (s : Symbol) :
    σ.Tables (t.bind s).2 (u.bind (σ.symbol s)).2 := by
  have hlookup : u.lookup (σ.symbol s).name = (t.lookup s.name).map σ.symbol := h.lookup s.name
  unfold Tables at h ⊢
  rw [SymbolTable.symbols_bind, SymbolTable.symbols_bind, hlookup, Option.isSome_map]
  cases t.lookup s.name with
  | none => simp [h]
  | some bound => simp [h]

/-! ### Labels -/

/-- Both runs of the first pass end in tables that correspond, or both stop at the same line. -/
theorem bindFrom_map (strict : Bool) (lines : List Text) (index address : Nat) {t u : SymbolTable}
    (h : σ.Tables t u) :
    match Labels.bindFrom strict lines index address t with
    | .ok t' => ∃ u', Labels.bindFrom strict (lines.map σ.line) index address u = .ok u' ∧ σ.Tables t' u'
    | .error d => Labels.bindFrom strict (lines.map σ.line) index address u = .error (σ.diagnostic d) := by
  induction lines generalizing index address t u with
  | nil => exact ⟨u, rfl, h⟩
  | cons l rest ih =>
    simp only [List.map_cons, Labels.bindFrom, isLabel_line]
    cases hlabel : Line.isLabel l with
    | false =>
      have hrest := ih (index + 1) (address + 1) h
      simpa using hrest
    | true =>
      have hname : Line.labelName (σ.line l) = σ.name (Line.labelName l) := by
        rw [Line.isLabel_iff.1 hlabel, line_label, Line.labelName_label, Line.labelName_label]
      simp only [if_true, hname, h.lookup]
      cases hbound : t.lookup (Line.labelName l) with
      | none => exact ih (index + 1) address (h.bind ⟨Line.labelName l, address, .label⟩)
      | some bound =>
        cases strict with
        | true => rfl
        | false => exact ih (index + 1) address h

/-! ### Instructions -/

variable (σ) in
/-- The second context is the first one under new names. -/
structure Contexts (c d : Context) : Prop where
  table : σ.Tables c.table d.table
  nextVariable : d.nextVariable = c.nextVariable

variable {c d : Context}

/-- An operand stands for the same number under its new name. -/
theorem Contexts.addressOf (h : σ.Contexts c d) (operand : Text) :
    d.addressOf (σ.name operand) = c.addressOf operand := by
  unfold Context.addressOf
  rw [isLiteral_name]
  cases hliteral : Numeral.isLiteral operand with
  | true =>
    rw [σ.name_of_literal hliteral]
    rfl
  | false =>
    rw [h.table.lookup, h.nextVariable]
    cases c.table.lookup operand <;> rfl

theorem Contexts.isNew (h : σ.Contexts c d) (operand : Text) :
    d.isNew (σ.name operand) = c.isNew operand := by
  unfold Context.isNew SymbolTable.contains
  rw [isLiteral_name, h.table.lookup, Option.isSome_map]

/-- A new operand becomes the same variable under its new name, or none in either context. -/
theorem Contexts.resolve (h : σ.Contexts c d) (operand : Text) :
    d.resolve (σ.name operand) = c.resolve operand := by
  rw [Context.resolve, Context.resolve, h.isNew, h.addressOf]
  cases hnew : c.isNew operand with
  | false => rfl
  | true =>
    have hnew' : d.isNew (σ.name operand) = true := (h.isNew operand).trans hnew
    rw [if_pos rfl, if_pos rfl, Context.allocate_of_free (Context.lookup_of_isNew hnew'),
      Context.allocate_of_free (Context.lookup_of_isNew hnew), h.nextVariable]

theorem Contexts.after (h : σ.Contexts c d) (l : Text) : σ.Contexts (c.after l) (d.after (σ.line l)) := by
  rcases σ.line_cases l with ⟨n, rfl, hline⟩ | ⟨n, rfl, hline⟩ | ⟨hlabel, haddress, hline⟩
  · have hkind : ∀ m, Line.kind (Line.label m) ≠ .address := by simp [Line.kind]
    rw [hline, Context.after, Context.after, if_neg (hkind n), if_neg (hkind _)]
    exact h
  · have hkind : ∀ m, Line.kind (Line.address m) = .address :=
      fun m => Line.kind_eq_address_iff.2 (Line.isAddress_address m)
    rw [hline, Context.after, Context.after, if_pos (hkind n), if_pos (hkind _), Context.afterAddress,
      Context.afterAddress, Line.operand_address, Line.operand_address, h.isNew]
    cases hnew : c.isNew n with
    | false => exact h
    | true =>
      have htable := h.table.bind ⟨n, c.nextVariable, .variable⟩
      have hnew' : d.isNew (σ.name n) = true := (h.isNew n).trans hnew
      refine ⟨?_, ?_⟩
      · simpa [symbol, h.nextVariable] using htable
      · rw [if_pos rfl, if_pos rfl, Context.nextVariable_allocate_of_free (Context.lookup_of_isNew hnew'),
          Context.nextVariable_allocate_of_free (Context.lookup_of_isNew hnew), h.nextVariable]
  · have hkind : Line.kind l ≠ .address := by
      rw [Ne, Line.kind_eq_address_iff, haddress]
      exact Bool.false_ne_true
    rw [hline, Context.after, Context.after, if_neg hkind, if_neg hkind]
    exact h

/-- The faults of compute instructions name no symbol. -/
theorem compute_mapError (l : Text) (index : Option Int) :
    (Encoding.compute l index).mapError σ.failure = Encoding.compute l index := by
  cases hunknown : (Fields.split l).unknown? with
  | none =>
    obtain ⟨word, -, hword⟩ := Encoding.compute_of_known hunknown index
    rw [hword]
    rfl
  | some field =>
    rw [Encoding.compute_of_unknown hunknown index]
    rfl

/-- A refusal that comes before the number is known names no symbol. -/
theorem failure_of_resolve {operand : Text} {f : Failure} (h : c.resolve operand = .error f) :
    σ.failure f = f := by
  unfold Context.resolve at h
  split at h
  · next hnew =>
    rw [Context.allocate_of_free (Context.lookup_of_isNew hnew)] at h
    split at h
    · cases h
    · obtain rfl := Except.error.inj h
      rfl
  · unfold Context.addressOf at h
    split at h
    · split at h
      · obtain rfl := Except.error.inj h
        rfl
      · cases h
    · split at h <;> cases h

theorem Contexts.address (h : σ.Contexts c d) (n : Text) (index : Option Int) :
    Encoding.address d (Line.address (σ.name n)) index =
      (Encoding.address c (Line.address n) index).mapError σ.failure := by
  unfold Encoding.address
  rw [Line.operand_address, Line.operand_address, h.resolve]
  cases hvalue : c.resolve n with
  | error f => exact congrArg Except.error (failure_of_resolve hvalue).symm
  | ok value =>
    simp only [Encoding.addressWord]
    by_cases hrange : Word.maxAddress < value
    · rw [if_pos hrange, if_pos hrange, ← line_address]
      rfl
    · rw [if_neg hrange, if_neg hrange]
      rfl

/-- One instruction comes to the same word, or to the same fault under new names. -/
theorem Contexts.instruction (h : σ.Contexts c d) {l : Text} (hl : Line.isLabel l = false)
    (index : Option Int) :
    Encoding.instruction d (σ.line l) index = (Encoding.instruction c l index).mapError σ.failure := by
  unfold Encoding.instruction
  rcases σ.line_cases l with ⟨n, rfl, -⟩ | ⟨n, rfl, hline⟩ | ⟨-, haddress, hline⟩
  · rw [Line.isLabel_label] at hl
    cases hl
  · have hkind : ∀ m, Line.kind (Line.address m) = .address :=
      fun m => Line.kind_eq_address_iff.2 (Line.isAddress_address m)
    rw [hline, if_pos (hkind n), if_pos (hkind _)]
    exact h.address n index
  · have hkind : Line.kind l ≠ .address := by
      rw [Ne, Line.kind_eq_address_iff, haddress]
      exact Bool.false_ne_true
    rw [hline, if_neg hkind, if_neg hkind, compute_mapError]

/-- Both runs of the second pass yield the same words or stop at the same instruction, and they leave contexts that
correspond. -/
theorem Contexts.programFrom (h : σ.Contexts c d) (index : Nat) {lines : List Text}
    (hlines : ∀ l ∈ lines, Line.isLabel l = false) :
    (Encoding.programFrom d index (lines.map σ.line)).1 =
        (Encoding.programFrom c index lines).1.mapError σ.failure ∧
      σ.Contexts (Encoding.programFrom c index lines).2
        (Encoding.programFrom d index (lines.map σ.line)).2 := by
  induction lines generalizing c d index with
  | nil => exact ⟨rfl, h⟩
  | cons l rest ih =>
    have hl := hlines l List.mem_cons_self
    have hafter := h.after l
    obtain ⟨hwords, hcontexts⟩ := ih hafter (index + 1) fun m hm => hlines m (List.mem_cons_of_mem l hm)
    rw [List.map_cons, Encoding.programFrom_cons, Encoding.programFrom_cons, h.instruction hl]
    cases Encoding.instruction c l (some (index : Int)) with
    | error f => exact ⟨rfl, hafter⟩
    | ok word =>
      refine ⟨?_, hcontexts⟩
      simp only [Except.mapError, hwords]
      cases (Encoding.programFrom (c.after l) (index + 1) rest).1 <;> rfl

/-! ### Runs -/

theorem isLabel_of_mem_instructions {lines : List Text} {l : Text} (h : l ∈ Labels.instructions lines) :
    Line.isLabel l = false := by
  have hkept := (List.mem_filter.1 h).2
  simpa using hkept

variable (σ) in
/-- A run under new names ends as the run that it renames. -/
theorem ofSourceLines_map (strict : Bool) (file : Text) (lines : List SourceLine) :
    match Assembly.ofSourceLines strict file lines with
    | .ok a => ∃ b, Assembly.ofSourceLines strict file (lines.map σ.sourceLine) = .ok b ∧
        b.words = a.words ∧ σ.Tables a.table b.table ∧ b.lines = a.lines.map σ.sourceLine
    | .error f => Assembly.ofSourceLines strict file (lines.map σ.sourceLine) = .error (σ.failure f) := by
  have hlabels := bindFrom_map strict (Program.texts lines) 0 0 σ.tables_initial
  rw [← texts_map, ← Labels.bind, ← Labels.bind] at hlabels
  unfold Assembly.ofSourceLines
  cases hbind : Labels.bind strict (Program.texts lines) with
  | error d =>
    rw [hbind] at hlabels
    simp only [hbind, hlabels, locate_diagnostic]
    rfl
  | ok t =>
    rw [hbind] at hlabels
    obtain ⟨u, hbind', htables⟩ := hlabels
    have hstart : σ.Contexts ⟨t, Symbol.variableBase⟩ ⟨u, Symbol.variableBase⟩ := ⟨htables, rfl⟩
    have hplain : ∀ l ∈ Labels.instructions (Program.texts lines), Line.isLabel l = false :=
      fun l hl => isLabel_of_mem_instructions hl
    obtain ⟨hwords, hcontexts⟩ := hstart.programFrom 0 hplain
    rw [← instructions_map, ← texts_map] at hwords hcontexts
    rw [← Encoding.program, ← Encoding.program] at hwords hcontexts
    simp only [hbind, hbind']
    rcases hprogram : Encoding.program t (Labels.instructions (Program.texts lines)) with ⟨f | words, after⟩
    · rcases hprogram' : Encoding.program u
          (Labels.instructions (Program.texts (lines.map σ.sourceLine))) with ⟨result, after'⟩
      rw [hprogram, hprogram'] at hwords
      obtain rfl : result = .error (σ.failure f) := hwords
      simp only [instructionLines_map, locate_failure]
    · rcases hprogram' : Encoding.program u
          (Labels.instructions (Program.texts (lines.map σ.sourceLine))) with ⟨result, after'⟩
      rw [hprogram, hprogram'] at hwords hcontexts
      obtain rfl : result = .ok words := hwords
      exact ⟨_, rfl, rfl, hcontexts.table, rfl⟩

end Renaming

namespace Assembly

/-- Renaming the free names of a program, however strange the new ones are, changes nothing but the names: the words
are the same and the table has its symbols under their new names, or the fault is of the same kind at the same line. -/
theorem ofLines_rename (σ : Renaming) (strict : Bool) (file : Text) (lines : List Text) :
    match ofLines strict file lines with
    | .ok a => ∃ b, ofLines strict file (lines.map σ.line) = .ok b ∧
        b.words = a.words ∧ b.table.symbols = a.table.symbols.map σ.symbol
    | .error f => ∃ g, ofLines strict file (lines.map σ.line) = .error g ∧
        g = σ.failure f ∧ g.families = f.families ∧ g.index? = f.index? := by
  have hrun := σ.ofSourceLines_map strict file (Source.ofLines lines)
  rw [← σ.ofLines_map, ← ofLines, ← ofLines] at hrun
  cases hlines : ofLines strict file lines with
  | error f =>
    rw [hlines] at hrun
    exact ⟨σ.failure f, hrun, rfl, σ.families_failure f, σ.index?_failure f⟩
  | ok a =>
    rw [hlines] at hrun
    obtain ⟨b, hb, hwords, htables, -⟩ := hrun
    exact ⟨b, hb, hwords, htables⟩

/-- Two names change places, one of which looks like half a declaration. -/
def exchange : Renaming := (Equiv.swap ⟨['x'], by decide⟩ ⟨['(', '@'], by decide⟩).toEmbedding

example : [Line.label ['x'], Line.address ['(', '@'], Line.address ['7'], ['D', '=', 'x']].map exchange.line =
    [Line.label ['(', '@'], Line.address ['x'], Line.address ['7'], ['D', '=', 'x']] := by
  decide +kernel

end Assembly

end HackAssembler
