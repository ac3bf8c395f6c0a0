import Mathlib.Data.List.Nodup
import HackAssembler.Failure
import HackAssembler.Proofs.Program.Meaning

/-! The symbol table as a map. A name keeps the first symbol that it is bound to, the names stand in the order in which
they were first bound, and every view of the table shows the same list. -/
namespace HackAssembler

namespace SymbolTable

variable (t : SymbolTable) (s : Symbol) (symbols : List Symbol) (name : Text)

/-- The table behind a sequence of bindings. -/
def bindAll : SymbolTable := symbols.foldl (fun t s => (t.bind s).2) t

/-- The names that a sequence of bindings adds, in the order in which they are first bound. -/
def newNames : List Text := ((symbols.map Symbol.name).filter (!t.contains ·)).eraseDups

@[simp] theorem bindAll_nil : t.bindAll [] = t := rfl

@[simp] theorem bindAll_cons : t.bindAll (s :: symbols) = (t.bind s).2.bindAll symbols := rfl

/-! ### One binding -/

/-- Binding disturbs no earlier symbol. -/
theorem symbols_prefix_bind : t.symbols <+: (t.bind s).2.symbols := by
  rw [symbols_bind]
  split
  · exact List.prefix_refl _
  · exact List.prefix_append _ _

theorem lookup_bind :
    (t.bind s).2.lookup name = (t.lookup name).or (if s.name = name then some s else none) := by
  cases h : t.lookup s.name with
  | some bound =>
    rw [bind_of_lookup_some h]
    by_cases hname : s.name = name
    · rw [← hname, h, Option.some_or]
    · rw [if_neg hname, Option.or_none]
  | none =>
    rw [lookup_eq_find?, symbols_bind, h, Option.isSome_none, if_neg Bool.false_ne_true, List.find?_append,
      ← lookup_eq_find?]
    by_cases hname : s.name = name
    · rw [if_pos hname, List.find?_cons_of_pos (by simpa using hname)]
    · rw [if_neg hname, List.find?_cons_of_neg (by simpa using hname), List.find?_nil]

/-- The address that is answered is the one that the name has, or else the one that it is bound to. -/
theorem fst_bind : (t.bind s).1 = (t.address? s.name).getD s.address := by
  cases h : t.lookup s.name with
  | some bound => rw [bind_of_lookup_some h, address?, h, Option.map_some, Option.getD_some]
  | none => rw [bind_of_lookup_none h, address?, h, Option.map_none, Option.getD_none]

/-- From then on the name has that address. -/
theorem address?_bind : (t.bind s).2.address? s.name = some (t.bind s).1 := by
  cases h : t.lookup s.name with
  | some bound => rw [bind_of_lookup_some h, address?, h, Option.map_some]
  | none => rw [address?, lookup_bind, h, if_pos rfl, bind_of_lookup_none h, Option.none_or, Option.map_some]

theorem contains_iff {t : SymbolTable} {name : Text} : t.contains name = true ↔ name ∈ t.names := by
  rw [contains, ← not_iff_not, ← lookup_eq_none_iff, Bool.not_eq_true, Option.isSome_eq_false_iff,
    Option.isNone_iff_eq_none]

theorem names_bind :
    (t.bind s).2.names = if t.contains s.name then t.names else t.names ++ [s.name] := by
  rw [names, symbols_bind, contains]
  split
  · rfl
  · rw [List.map_append, List.map_singleton, names]

/-! ### Many bindings -/

/-- The first binding of a name counts, unless it was bound before. -/
theorem lookup_bindAll :
    (t.bindAll symbols).lookup name = (t.lookup name).or (symbols.find? (·.name = name)) := by
  induction symbols generalizing t with
  | nil => rw [bindAll_nil, List.find?_nil, Option.or_none]
  | cons s rest ih =>
    rw [bindAll_cons, ih, lookup_bind, Option.or_assoc]
    by_cases hname : s.name = name
    · rw [if_pos hname, Option.some_or, List.find?_cons_of_pos (by simpa using hname)]
    · rw [if_neg hname, Option.none_or, List.find?_cons_of_neg (by simpa using hname)]

theorem names_bindAll : (t.bindAll symbols).names = t.names ++ t.newNames symbols := by
  induction symbols generalizing t with
  | nil => rw [bindAll_nil, newNames, List.map_nil, List.filter_nil, List.eraseDups_nil, List.append_nil]
  | cons s rest ih =>
    rw [bindAll_cons, ih, newNames, newNames, names_bind, List.map_cons]
    cases hold : t.contains s.name with
    | true =>
      obtain ⟨bound, hbound⟩ := Option.isSome_iff_exists.1 hold
      rw [if_pos rfl, List.filter_cons_of_neg (by simp [hold]), bind_of_lookup_some hbound]
    | false =>
      -- The new name is out of the way of all later ones, in the table as in the list of distinct names.
      have hlater : (rest.map Symbol.name).filter (!(t.bind s).2.contains ·) =
          ((rest.map Symbol.name).filter (!t.contains ·)).filter fun name => !name == s.name := by
        rw [List.filter_filter]
        apply List.filter_congr
        intro name _
        rw [Bool.eq_iff_iff, Bool.not_eq_true', ← Bool.not_eq_true, contains_iff, names_bind, hold]
        simp [← contains_iff, and_comm]
      rw [if_neg Bool.false_ne_true, List.filter_cons_of_pos (by simp [hold]), List.eraseDups_cons, hlater,
        List.append_assoc, List.singleton_append]

/-! ### Views -/

/-- Every symbol is found under its name: none is hidden behind another. -/
theorem lookup_of_mem {t : SymbolTable} {s : Symbol} (h : s ∈ t.symbols) : t.lookup s.name = some s := by
  cases hlookup : t.lookup s.name with
  | none => exact absurd (List.mem_map_of_mem h) (lookup_eq_none_iff.1 hlookup)
  | some bound =>
    have hsame : bound = s :=
      List.inj_on_of_nodup_map t.nodup_names (mem_of_lookup hlookup) h (name_of_lookup hlookup)
    rw [hsame]

/-- What a table holds stays to be found in a table that goes on behind it. -/
theorem lookup_of_extended {t u : SymbolTable} {s : Symbol} {name : Text} (h : t.symbols <+: u.symbols)
    (hs : t.lookup name = some s) : u.lookup name = some s := by
  rw [← name_of_lookup hs]
  exact lookup_of_mem (h.subset (mem_of_lookup hs))

theorem mem_addresses_iff {t : SymbolTable} {name : Text} {address : Int} :
    (name, address) ∈ t.addresses ↔ t.get name = .ok address := by
  rw [addresses, List.mem_map, get, address?]
  constructor
  · rintro ⟨s, hs, hentry⟩
    obtain ⟨rfl, rfl⟩ := Prod.mk.inj hentry
    rw [lookup_of_mem hs, Option.map_some]
  · intro h
    cases hlookup : t.lookup name with
    | none =>
      rw [hlookup] at h
      cases h
    | some s =>
      rw [hlookup] at h
      obtain rfl := Except.ok.inj h
      exact ⟨s, mem_of_lookup hlookup, by rw [name_of_lookup hlookup]⟩

theorem map_fst_addresses : t.addresses.map Prod.fst = t.names := by
  rw [addresses, List.map_map]
  rfl

/-- No symbol is of two kinds, and there is no fourth one. -/
theorem ofKind_perm :
    (t.ofKind .predefined ++ t.ofKind .label ++ t.ofKind .variable).Perm t.symbols := by
  have hparts : ∀ l : List Symbol,
      (l.filter (·.kind = .predefined) ++ (l.filter (·.kind = .label) ++ l.filter (·.kind = .variable))).Perm
        l := by
    intro l
    induction l with
    | nil => exact .refl _
    | cons s rest ih =>
      cases hkind : s.kind with
      | predefined => simpa [hkind] using ih.cons s
      | label => simpa [hkind] using List.perm_middle.trans (ih.cons s)
      | «variable» =>
        rw [← List.append_assoc] at ih
        simpa [hkind] using List.perm_middle.trans (ih.cons s)
  rw [List.append_assoc]
  exact hparts t.symbols

/-- Whatever a new table is asked to bind, each binding answers the address that its name has from then on. A name has
the symbol that is predefined for it, else the one of its first binding, and all three look-ups say so. Every other
view shows the same symbols, once each, the predefined ones first and the others in the order of first binding. -/
theorem views_of_bindAll (bindings : List Symbol) :
    let t := initial.bindAll bindings
    (∀ s, (t.bind s).2.address? s.name = some (t.bind s).1) ∧
    (∀ name, match (Program.predefined? name).or (bindings.find? (·.name = name)) with
      | some s => t.lookup name = some s ∧ t.get name = .ok s.address ∧ t.contains name = true
      | none => t.lookup name = none ∧ t.get name = .error (.unbound name) ∧ t.contains name = false) ∧
    (t.names = Symbol.predefined.map Symbol.name ++ initial.newNames bindings ∧
      Symbol.predefined.length = 23 ∧ t.names.Nodup) ∧
    (t.symbols.map Symbol.name = t.names ∧ ∀ s ∈ t.symbols, t.lookup s.name = some s) ∧
    t.size = t.names.length ∧
    (t.addresses.map Prod.fst = t.names ∧
      ∀ name address, (name, address) ∈ t.addresses ↔ t.get name = .ok address) ∧
    (∀ kind, (t.ofKind kind).Sublist t.symbols ∧
      ∀ s, s ∈ t.ofKind kind ↔ s ∈ t.symbols ∧ s.kind = kind) ∧
    (t.ofKind .predefined ++ t.ofKind .label ++ t.ofKind .variable).Perm t.symbols := by
  intro t
  refine ⟨t.address?_bind, ?_, ⟨?_, by decide, t.nodup_names⟩, ⟨rfl, fun s => lookup_of_mem⟩, ?_,
    ⟨t.map_fst_addresses, fun name address => mem_addresses_iff⟩, ?_, t.ofKind_perm⟩
  · intro name
    have hlookup : t.lookup name = (Program.predefined? name).or (bindings.find? (·.name = name)) := by
      rw [lookup_bindAll, lookup_eq_find?, symbols_initial, Program.predefined?]
    rw [get, contains, address?, ← hlookup]
    cases t.lookup name with
    | some s => exact ⟨rfl, rfl, rfl⟩
    | none => exact ⟨rfl, rfl, rfl⟩
  · rw [names_bindAll, names, symbols_initial]
  · rw [names, List.length_map, symbols, size, Array.length_toList]
  · intro kind
    refine ⟨List.filter_sublist, fun s => ?_⟩
    rw [ofKind, List.mem_filter, decide_eq_true_eq]

end SymbolTable

end HackAssembler
