import Std.Data.ExtTreeMap
import HackAssembler.Symbol.Basic

/-! The symbol table: a name keeps the first address it is bound to, and names are listed in binding order. -/
namespace HackAssembler

/-- Symbols in binding order, with an index by name. The index holds nothing that the order does not show, so
that a table is determined by its list of symbols. -/
structure SymbolTable where
  entries : Array Symbol
  index : Std.ExtTreeMap Text Symbol
  getElem?_index : ∀ name : Text, index[name]? = entries.toList.find? (·.name = name)
  nodup_entries : (entries.toList.map Symbol.name).Nodup

namespace SymbolTable

/-- The symbols in binding order. -/
def symbols (t : SymbolTable) : List Symbol := t.entries.toList

def names (t : SymbolTable) : List Text := t.symbols.map Symbol.name

def size (t : SymbolTable) : Nat := t.entries.size

def lookup (t : SymbolTable) (name : Text) : Option Symbol := t.index[name]?

def contains (t : SymbolTable) (name : Text) : Bool := (t.lookup name).isSome

def address? (t : SymbolTable) (name : Text) : Option Int := (t.lookup name).map Symbol.address

/-- The symbols of one kind. -/
def ofKind (t : SymbolTable) (kind : SymbolKind) : List Symbol := t.symbols.filter (·.kind = kind)

/-- The address of every name, in binding order. -/
def addresses (t : SymbolTable) : List (Text × Int) := t.symbols.map fun s => (s.name, s.address)

/-- The symbols that the program itself defines. -/
def own (t : SymbolTable) : List Symbol := t.symbols.filter (·.kind ≠ .predefined)

theorem lookup_eq_find? (t : SymbolTable) (name : Text) :
    t.lookup name = t.symbols.find? (·.name = name) :=
  t.getElem?_index name

theorem nodup_names (t : SymbolTable) : t.names.Nodup := t.nodup_entries

theorem lookup_eq_none_iff {t : SymbolTable} {name : Text} :
    t.lookup name = none ↔ name ∉ t.names := by
  simp only [lookup_eq_find?, List.find?_eq_none, names, List.mem_map, decide_eq_true_eq, not_exists,
    not_and]

theorem name_of_lookup {t : SymbolTable} {name : Text} {s : Symbol} (h : t.lookup name = some s) :
    s.name = name := by
  rw [lookup_eq_find?] at h
  simpa using List.find?_some h

theorem mem_of_lookup {t : SymbolTable} {name : Text} {s : Symbol} (h : t.lookup name = some s) :
    s ∈ t.symbols := by
  rw [lookup_eq_find?] at h
  exact List.mem_of_find?_eq_some h

/-- Tables with the same symbols in the same order are the same. -/
@[ext] theorem ext_symbols {t u : SymbolTable} (h : t.symbols = u.symbols) : t = u := by
  obtain ⟨entries, index, hindex, hnodup⟩ := t
  obtain ⟨entries', index', hindex', hnodup'⟩ := u
  obtain rfl : entries = entries' := Array.toList_inj.1 h
  obtain rfl : index = index' :=
    Std.ExtTreeMap.ext_getElem? fun name => by rw [hindex, hindex']
  rfl

def empty : SymbolTable where
  entries := #[]
  index := ∅
  getElem?_index _ := by simp
  nodup_entries := by simp

private theorem getElem?_index_push {t : SymbolTable} {s : Symbol} (h : t.lookup s.name = none)
    (name : Text) :
    (t.index.insert s.name s)[name]? = (t.entries.push s).toList.find? (·.name = name) := by
  rw [Std.ExtTreeMap.getElem?_insert, Array.toList_push, List.find?_append, ← t.getElem?_index]
  by_cases hname : s.name = name
  · subst hname
    have hnone : t.index[s.name]? = none := h
    simp [hnone]
  · have hcompare : compare s.name name ≠ .eq := fun hc => hname (Std.LawfulEqCmp.eq_of_compare hc)
    simp [hname, hcompare]

private theorem nodup_push {t : SymbolTable} {s : Symbol} (h : t.lookup s.name = none) :
    ((t.entries.push s).toList.map Symbol.name).Nodup := by
  have hfresh := lookup_eq_none_iff.1 h
  have hold := t.nodup_entries
  simp only [names, symbols] at hfresh
  simp only [Array.toList_push, List.map_append, List.map_cons, List.map_nil, List.nodup_append,
    List.nodup_cons, List.not_mem_nil, not_false_eq_true, List.nodup_nil, and_self, true_and,
    List.mem_singleton, forall_eq]
  exact ⟨hold, fun name hname heq => hfresh (heq ▸ hname)⟩

/-- Adds a symbol whose name is new. -/
def push (t : SymbolTable) (s : Symbol) (h : t.lookup s.name = none) : SymbolTable where
  entries := t.entries.push s
  index := t.index.insert s.name s
  getElem?_index := getElem?_index_push h
  nodup_entries := nodup_push h

/-- Binds a name unless it is bound, and answers the address it has from now on. -/
def bind (t : SymbolTable) (s : Symbol) : Int × SymbolTable :=
  match h : t.lookup s.name with
  | some bound => (bound.address, t)
  | none => (s.address, t.push s h)

@[simp] theorem symbols_empty : empty.symbols = [] := rfl

@[simp] theorem symbols_push (t : SymbolTable) (s : Symbol) (h : t.lookup s.name = none) :
    (t.push s h).symbols = t.symbols ++ [s] := by
  simp [symbols, push]

theorem bind_of_lookup_none {t : SymbolTable} {s : Symbol} (h : t.lookup s.name = none) :
    t.bind s = (s.address, t.push s h) := by
  unfold bind
  split
  · next _ hsome => exact absurd (h.symm.trans hsome) (by simp)
  · rfl

theorem bind_of_lookup_some {t : SymbolTable} {s bound : Symbol} (h : t.lookup s.name = some bound) :
    t.bind s = (bound.address, t) := by
  unfold bind
  split
  · next _ hsome =>
    obtain rfl := Option.some.inj (h.symm.trans hsome)
    rfl
  · next hnone => exact absurd (h.symm.trans hnone) (by simp)

/-- Binding adds the symbol at the end or changes nothing. -/
theorem symbols_bind (t : SymbolTable) (s : Symbol) :
    (t.bind s).2.symbols = if (t.lookup s.name).isSome then t.symbols else t.symbols ++ [s] := by
  cases h : t.lookup s.name with
  | none => simp [bind_of_lookup_none h]
  | some bound => simp [bind_of_lookup_some h]

/-- A table as every program finds it. -/
def initial : SymbolTable := Symbol.predefined.foldl (fun t s => (t.bind s).2) empty

theorem symbols_initial : initial.symbols = Symbol.predefined := by
  decide +kernel

end SymbolTable

end HackAssembler
