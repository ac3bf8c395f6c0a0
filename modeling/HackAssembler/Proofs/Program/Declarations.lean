import Mathlib.Data.List.Induction
import Mathlib.Order.Bounds.Defs
import HackAssembler.Proofs.Occurrence
import HackAssembler.Proofs.Program.Meaning

/-! The labels of a program: the symbols that binding them leaves are those that its lines declare, whatever came
first, and strict labels only refuse the first declaration of a name that has an address. -/
namespace HackAssembler

namespace Program

theorem mem_declared_iff {lines : List Text} {name : Text} :
    name ∈ declared lines ↔ Line.label name ∈ lines := by
  simp only [declared, List.mem_map, List.mem_filter]
  constructor
  · rintro ⟨line, ⟨hline, hlabel⟩, rfl⟩
    rwa [← Line.isLabel_iff.1 hlabel]
  · intro h
    exact ⟨Line.label name, ⟨h, Line.isLabel_label name⟩, Line.labelName_label name⟩

theorem declared_concat_of_not_label {lines : List Text} {line : Text} (h : Line.isLabel line = false) :
    declared (lines ++ [line]) = declared lines := by
  simp [declared, h]

@[simp] theorem declared_concat_label (lines : List Text) (name : Text) :
    declared (lines ++ [Line.label name]) = declared lines ++ [name] := by
  simp [declared]

/-- What follows a declaration does not move it. -/
theorem labelAddress_append_of_mem {lines : List Text} {name : Text} (h : Line.label name ∈ lines)
    (rest : List Text) : labelAddress (lines ++ rest) name = labelAddress lines name := by
  obtain ⟨front, back, rfl, hfront⟩ := List.eq_append_cons_of_mem h
  rw [labelAddress, labelAddress, List.append_assoc, List.cons_append,
    List.takeWhile_ne_append_cons hfront, List.takeWhile_ne_append_cons hfront]

theorem labelAddress_concat_of_not_mem {lines : List Text} {name : Text} (h : Line.label name ∉ lines) :
    labelAddress (lines ++ [Line.label name]) name = (Labels.instructions lines).length := by
  rw [labelAddress, List.takeWhile_ne_append_cons h]

/-- The names that become labels, in the order of their first declaration. -/
def labelNames (lines : List Text) : List Text :=
  ((declared lines).filter fun name => (predefined? name).isNone).eraseDups

/-- The symbols that a program declares. -/
def labelSymbols (lines : List Text) : List Symbol :=
  (labelNames lines).map fun name => ⟨name, labelAddress lines name, .label⟩

theorem mem_labelNames_iff {lines : List Text} {name : Text} :
    name ∈ labelNames lines ↔ Line.label name ∈ lines ∧ predefined? name = none := by
  simp [labelNames, List.mem_eraseDups, mem_declared_iff]

theorem labelSymbols_append_of_labelNames {lines rest : List Text}
    (h : labelNames (lines ++ rest) = labelNames lines) :
    labelSymbols (lines ++ rest) = labelSymbols lines := by
  rw [labelSymbols, h, labelSymbols]
  apply List.map_congr_left
  intro name hname
  rw [labelAddress_append_of_mem (mem_labelNames_iff.1 hname).1]

theorem labelSymbols_concat_of_not_label {lines : List Text} {line : Text}
    (h : Line.isLabel line = false) : labelSymbols (lines ++ [line]) = labelSymbols lines := by
  apply labelSymbols_append_of_labelNames
  rw [labelNames, declared_concat_of_not_label h, labelNames]

/-- Declaring a name that has an address adds nothing. -/
theorem labelSymbols_concat_of_bound {lines : List Text} {name : Text}
    (h : predefined? name ≠ none ∨ Line.label name ∈ lines) :
    labelSymbols (lines ++ [Line.label name]) = labelSymbols lines := by
  apply labelSymbols_append_of_labelNames
  rw [labelNames, declared_concat_label, List.filter_append]
  by_cases hp : predefined? name = none
  · have hmem : name ∈ (declared lines).filter fun name => (predefined? name).isNone := by
      rw [List.mem_filter, mem_declared_iff]
      exact ⟨h.resolve_left (· hp), by simp [hp]⟩
    rw [List.filter_cons_of_pos (by simp [hp]), List.filter_nil, List.eraseDups_concat_of_mem hmem,
      labelNames]
  · rw [List.filter_cons_of_neg (by simpa using hp), List.filter_nil, List.append_nil, labelNames]

theorem labelSymbols_concat_of_new {lines : List Text} {name : Text}
    (hp : predefined? name = none) (hl : Line.label name ∉ lines) :
    labelSymbols (lines ++ [Line.label name]) =
      labelSymbols lines ++ [⟨name, (Labels.instructions lines).length, .label⟩] := by
  have hnew : name ∉ (declared lines).filter fun name => (predefined? name).isNone := by
    rw [List.mem_filter, mem_declared_iff]
    exact fun h => hl h.1
  have hnames : labelNames (lines ++ [Line.label name]) = labelNames lines ++ [name] := by
    rw [labelNames, declared_concat_label, List.filter_append,
      List.filter_cons_of_pos (by simp [hp]), List.filter_nil,
      List.eraseDups_concat_of_not_mem hnew, labelNames]
  rw [labelSymbols, hnames, List.map_append, List.map_cons, List.map_nil,
    labelAddress_concat_of_not_mem hl, labelSymbols]
  congr 1
  apply List.map_congr_left
  intro other hother
  rw [labelAddress_append_of_mem (mem_labelNames_iff.1 hother).1]

theorem RedeclaredAt.lt {lines : List Text} {i : Nat} (h : RedeclaredAt lines i) : i < lines.length := by
  obtain ⟨line, hline, -⟩ := h
  exact (List.getElem?_eq_some_iff.1 hline).1

theorem redeclaredAt_append_iff {lines : List Text} {i : Nat} (h : i < lines.length)
    (rest : List Text) : RedeclaredAt (lines ++ rest) i ↔ RedeclaredAt lines i := by
  rw [RedeclaredAt, RedeclaredAt, List.getElem?_append_left h, List.take_append_of_le_length (Nat.le_of_lt h)]

theorem redeclaredAt_length_iff (lines : List Text) (line : Text) (rest : List Text) :
    RedeclaredAt (lines ++ line :: rest) lines.length ↔ Redeclares lines line := by
  simp [RedeclaredAt]

/-- The entries of a table once the labels of `lines` are bound. -/
theorem lookup_of_symbols {lines : List Text} {t : SymbolTable}
    (h : t.symbols = Symbol.predefined ++ labelSymbols lines) (name : Text) :
    t.lookup name = (predefined? name).or
      (if Line.label name ∈ lines then some ⟨name, labelAddress lines name, .label⟩ else none) := by
  rw [t.lookup_eq_find?, h, List.find?_append, labelSymbols, find?_map_name _ fun _ => rfl]
  cases hp : predefined? name with
  | some s => rw [← predefined?, hp, Option.some_or, Option.some_or]
  | none =>
    rw [← predefined?, hp, Option.none_or, Option.none_or]
    simp only [mem_labelNames_iff, hp, and_true]

theorem lookup_eq_none_iff_of_symbols {lines : List Text} {t : SymbolTable}
    (h : t.symbols = Symbol.predefined ++ labelSymbols lines) (name : Text) :
    t.lookup name = none ↔ predefined? name = none ∧ Line.label name ∉ lines := by
  rw [lookup_of_symbols h, Option.or_eq_none_iff]
  simp

/-- The address that a name has here is the one that it has in the whole program. -/
theorem address_of_lookup {lines : List Text} {t : SymbolTable} {name : Text} {s : Symbol}
    (h : t.symbols = Symbol.predefined ++ labelSymbols lines) (hs : t.lookup name = some s)
    (rest : List Text) : s.address = address (lines ++ rest) name := by
  rw [lookup_of_symbols h] at hs
  unfold address
  cases hp : predefined? name with
  | some p =>
    rw [hp, Option.some_or] at hs
    obtain rfl := Option.some.inj hs
    rfl
  | none =>
    rw [hp, Option.none_or] at hs
    split at hs
    · next hl =>
      obtain rfl := Option.some.inj hs
      rw [if_pos (List.mem_append_left rest hl), labelAddress_append_of_mem hl]
    · cases hs

end Program

namespace Labels
open Program

variable {strict : Bool} {lines : List Text} {t : SymbolTable}

theorem bindFrom_append (strict : Bool) (first next : List Text) (index address : Nat)
    (t : SymbolTable) :
    bindFrom strict (first ++ next) index address t =
      (bindFrom strict first index address t).bind fun t' =>
        bindFrom strict next (index + first.length) (address + (instructions first).length) t' := by
  induction first generalizing index address t with
  | nil => rfl
  | cons line rest ih =>
    simp only [List.cons_append, bindFrom]
    by_cases hlabel : Line.isLabel line = true
    · rw [if_pos hlabel, if_pos hlabel, instructions_cons_of_isLabel hlabel, List.length_cons,
        ← Nat.add_assoc, Nat.add_right_comm index]
      cases t.lookup (Line.labelName line) with
      | none => exact ih (index + 1) address _
      | some bound =>
        cases strict with
        | false => exact ih (index + 1) address t
        | true => rfl
    · rw [if_neg hlabel, if_neg hlabel, instructions_cons (by simpa using hlabel), ih]
      simp only [List.length_cons, Nat.add_assoc, Nat.add_comm 1]

theorem bind_append (strict : Bool) (first next : List Text) :
    bind strict (first ++ next) =
      (bind strict first).bind fun t =>
        bindFrom strict next first.length (instructions first).length t := by
  simp [bind, bindFrom_append]

/-- What one more line does to the table that the lines in front of it have left. -/
theorem bind_concat_of_not_label {line : Text} (hbind : bind strict lines = .ok t)
    (h : Line.isLabel line = false) : bind strict (lines ++ [line]) = .ok t := by
  rw [bind_append, hbind]
  simp [Except.bind, bindFrom, h]

theorem bind_concat_of_new {name : Text} (hbind : bind strict lines = .ok t)
    (h : t.lookup name = none) :
    bind strict (lines ++ [Line.label name]) =
      .ok (t.bind ⟨name, (instructions lines).length, .label⟩).2 := by
  rw [bind_append, hbind]
  simp [Except.bind, bindFrom, h]

theorem bind_concat_of_bound {name : Text} {s : Symbol} (hbind : bind strict lines = .ok t)
    (h : t.lookup name = some s) :
    bind strict (lines ++ [Line.label name]) =
      if strict then
        .error { cause := .duplicateSymbol s.name s.address, index := some lines.length }
      else .ok t := by
  rw [bind_append, hbind]
  simp [Except.bind, bindFrom, h]

theorem symbols_of_bind (h : bind strict lines = .ok t) :
    t.symbols = Symbol.predefined ++ labelSymbols lines := by
  induction lines using List.reverseRecOn generalizing t with
  | nil =>
    obtain rfl : SymbolTable.initial = t := Except.ok.inj h
    rw [SymbolTable.symbols_initial]
    rfl
  | append_singleton lines line ih =>
    cases hbind : bind strict lines with
    | error d =>
      rw [bind_append, hbind] at h
      cases h
    | ok before =>
      have hbefore := ih hbind
      by_cases hlabel : Line.isLabel line = true
      · rw [Line.isLabel_iff.1 hlabel] at h ⊢
        generalize Line.labelName line = name at h ⊢
        have hlookup := lookup_eq_none_iff_of_symbols hbefore name
        cases hbound : before.lookup name with
        | none =>
          obtain ⟨hp, hl⟩ := hlookup.1 hbound
          rw [bind_concat_of_new hbind hbound] at h
          obtain rfl := Except.ok.inj h
          rw [SymbolTable.symbols_bind, hbound, labelSymbols_concat_of_new hp hl, ← List.append_assoc,
            ← hbefore]
          rfl
        | some s =>
          have hold : predefined? name ≠ none ∨ Line.label name ∈ lines := by
            by_contra hnew
            push Not at hnew
            simp [hlookup.2 hnew] at hbound
          rw [bind_concat_of_bound hbind hbound] at h
          split at h
          · cases h
          · obtain rfl := Except.ok.inj h
            rw [labelSymbols_concat_of_bound hold, hbefore]
      · rw [Bool.not_eq_true] at hlabel
        rw [bind_concat_of_not_label hbind hlabel] at h
        obtain rfl := Except.ok.inj h
        rw [labelSymbols_concat_of_not_label hlabel, hbefore]

/-- Without declarations the table stays as every program finds it. -/
theorem bind_of_not_label (h : ∀ line ∈ lines, Line.isLabel line = false)
    (strict : Bool) : bind strict lines = .ok .initial := by
  have hfrom : ∀ index address, bindFrom strict lines index address .initial = .ok .initial := by
    induction lines with
    | nil => exact fun _ _ => rfl
    | cons line rest ih =>
      intro index address
      rw [bindFrom, h line List.mem_cons_self]
      exact ih (fun next hnext => h next (List.mem_cons_of_mem line hnext)) (index + 1) (address + 1)
  exact hfrom 0 0

/-- Binding succeeds unless strict labels meet a name that has an address. -/
theorem exists_bind (h : strict = true → ∀ i, ¬RedeclaredAt lines i) :
    ∃ t, bind strict lines = .ok t := by
  induction lines using List.reverseRecOn with
  | nil => exact ⟨.initial, rfl⟩
  | append_singleton lines line ih =>
    have hfront : strict = true → ∀ i, ¬RedeclaredAt lines i := by
      intro hstrict i hi
      exact h hstrict i ((redeclaredAt_append_iff hi.lt [line]).2 hi)
    obtain ⟨before, hbind⟩ := ih hfront
    by_cases hlabel : Line.isLabel line = true
    · cases hbound : before.lookup (Line.labelName line) with
      | none =>
        rw [Line.isLabel_iff.1 hlabel, bind_concat_of_new hbind hbound]
        exact ⟨_, rfl⟩
      | some s =>
        have hloose : strict = false := by
          by_contra hstrict
          rw [Bool.not_eq_false] at hstrict
          have hlast := h hstrict lines.length
          rw [redeclaredAt_length_iff, Redeclares, not_and, not_or, not_not] at hlast
          have hnew := hlast hlabel
          rw [Line.isLabel_iff.1 hlabel, Line.labelName_label] at hnew
          rw [(lookup_eq_none_iff_of_symbols (symbols_of_bind hbind) _).2 hnew] at hbound
          cases hbound
        rw [Line.isLabel_iff.1 hlabel, bind_concat_of_bound hbind hbound, hloose]
        exact ⟨before, rfl⟩
    · rw [Bool.not_eq_true] at hlabel
      exact ⟨before, bind_concat_of_not_label hbind hlabel⟩

/-- The first name that strict labels refuse is reported with the address that it has. -/
theorem bind_strict_of_redeclared {i : Nat} (h : IsLeast {i | RedeclaredAt lines i} i) :
    ∃ name, lines[i]? = some (Line.label name) ∧
      bind true lines = .error {
        cause := .duplicateSymbol name (some (address lines name))
        index := some i } := by
  obtain ⟨⟨line, hline, hlabel, hold⟩, hleast⟩ := h
  obtain ⟨hlt, hget⟩ := List.getElem?_eq_some_iff.1 hline
  have hlength : (lines.take i).length = i := List.length_take_of_le (Nat.le_of_lt hlt)
  have hcut : lines = lines.take i ++ [line] ++ lines.drop (i + 1) := by
    rw [List.append_assoc, List.singleton_append, ← hget, List.getElem_cons_drop, List.take_append_drop]
  have hfront : ∀ j, ¬RedeclaredAt (lines.take i) j := by
    intro j hj
    have hjlt := hj.lt
    have hwhole := (redeclaredAt_append_iff hjlt (lines.drop i)).2 hj
    rw [List.take_append_drop] at hwhole
    have hle := hleast hwhole
    omega
  -- Nothing in front of the first redeclaration is refused, so binding gets there.
  obtain ⟨before, hbind⟩ := exists_bind fun _ => hfront
  rw [Line.isLabel_iff.1 hlabel] at hold hcut hline
  generalize Line.labelName line = name at hold hcut hline
  rw [Line.labelName_label] at hold
  have hsymbols := symbols_of_bind hbind
  obtain ⟨s, hbound⟩ : ∃ s, before.lookup name = some s := by
    rw [← Option.ne_none_iff_exists', Ne, lookup_eq_none_iff_of_symbols hsymbols]
    tauto
  have haddress : s.address = address lines name := by
    have hwhole := address_of_lookup hsymbols hbound (lines.drop i)
    rwa [List.take_append_drop] at hwhole
  refine ⟨name, hline, ?_⟩
  rw [hcut, bind_append, bind_concat_of_bound hbind hbound, if_pos rfl, hlength, haddress,
    SymbolTable.name_of_lookup hbound, ← hcut]
  rfl

end Labels

end HackAssembler
