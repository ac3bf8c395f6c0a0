import Mathlib.Data.List.Nodup
import HackAssembler.Proofs.Assembly
import HackAssembler.Proofs.Source.Cleaning
import HackAssembler.Proofs.Table

/-! Variables in data memory. They are counted upwards from the first address behind the registers and pass over
nothing, so that in a program with very many of them one falls on the screen and one on the keyboard. -/
namespace HackAssembler

namespace Symbol

abbrev screenName : Text := ['S', 'C', 'R', 'E', 'E', 'N']

abbrev keyboardName : Text := ['K', 'B', 'D']

/-- The predefined symbols that stand for no register are the two devices. -/
theorem address_of_mem_predefined {p : Symbol} (h : p ∈ predefined) :
    (p.address < variableBase ∧ p.name ≠ screenName ∧ p.name ≠ keyboardName) ∨
      (p.address = 0x4000 ∧ p.name = screenName) ∨ (p.address = 0x6000 ∧ p.name = keyboardName) := by
  have key : ∀ p ∈ predefined,
      (p.address < variableBase ∧ p.name ≠ screenName ∧ p.name ≠ keyboardName) ∨
        (p.address = 0x4000 ∧ p.name = screenName) ∨
          (p.address = 0x6000 ∧ p.name = keyboardName) := by decide
  exact key p h

/-- Counted upwards, a variable comes upon two predefined symbols. -/
theorem variableBase_add_eq_iff {p : Symbol} (h : p ∈ predefined) (i : Nat) :
    variableBase + i = p.address ↔
      (i = 16368 ∧ p.name = screenName) ∨ (i = 24560 ∧ p.name = keyboardName) := by
  have hdevices : screenName ≠ keyboardName := by decide
  rcases address_of_mem_predefined h with
    ⟨hregister, hscreen, hkeyboard⟩ | ⟨haddress, hname⟩ | ⟨haddress, hname⟩
  · have hbehind : variableBase + (i : Int) ≠ p.address := by omega
    simp [hscreen, hkeyboard, hbehind]
  · have hscreen : variableBase + (i : Int) = 0x4000 ↔ i = 16368 := by
      show (16 : Int) + i = 0x4000 ↔ i = 16368
      omega
    simp [haddress, hname, hdevices, hscreen]
  · have hkeyboard : variableBase + (i : Int) = 0x6000 ↔ i = 24560 := by
      show (16 : Int) + i = 0x6000 ↔ i = 24560
      omega
    simp [haddress, hname, hdevices.symm, hkeyboard]

theorem filter_kind {symbols : List Symbol} {kind : SymbolKind} (h : ∀ s ∈ symbols, s.kind = kind)
    (wanted : SymbolKind) : symbols.filter (·.kind = wanted) = if kind = wanted then symbols else [] := by
  by_cases hkind : kind = wanted
  · rw [if_pos hkind, List.filter_eq_self]
    intro s hs
    rw [h s hs, decide_eq_true hkind]
  · rw [if_neg hkind, List.filter_eq_nil_iff]
    intro s hs
    rw [h s hs, decide_eq_true_eq]
    exact hkind

theorem exists_screen : ∃ p ∈ predefined, p.name = screenName := by decide

end Symbol

namespace Program

theorem kind_of_mem_labelSymbols {lines : List Text} {s : Symbol} (h : s ∈ labelSymbols lines) :
    s.kind = .label := by
  obtain ⟨name, -, rfl⟩ := List.mem_map.1 h
  rfl

theorem kind_of_mem_variableSymbols {lines : List Text} {s : Symbol} (h : s ∈ variableSymbols lines) :
    s.kind = .variable := by
  obtain ⟨i, hi, rfl⟩ := List.mem_mapIdx.1 h
  rfl

end Program

namespace SymbolTable
open Program

/-- The kinds part the table into the groups that it was put together from. -/
theorem ofKind_eq {t : SymbolTable} {lines : List Text}
    (h : t.symbols = Symbol.predefined ++ labelSymbols lines ++ variableSymbols lines) (kind : SymbolKind) :
    t.ofKind kind =
      match kind with
      | .predefined => Symbol.predefined
      | .label => labelSymbols lines
      | .variable => variableSymbols lines := by
  have hpredefined := Symbol.filter_kind (fun _ => Symbol.kind_of_mem_predefined) kind
  have hlabels := Symbol.filter_kind (fun _ => @kind_of_mem_labelSymbols lines _) kind
  have hvariables := Symbol.filter_kind (fun _ => @kind_of_mem_variableSymbols lines _) kind
  rw [ofKind, h, List.filter_append, List.filter_append, hpredefined, hlabels, hvariables]
  cases kind <;> simp

end SymbolTable

namespace Program

theorem address_of_getElem?_variableSymbols {lines : List Text} {i : Nat} {s : Symbol}
    (h : (variableSymbols lines)[i]? = some s) : s.address = Symbol.variableBase + i := by
  rw [variableSymbols, List.getElem?_mapIdx] at h
  obtain ⟨name, -, rfl⟩ := Option.map_eq_some_iff.1 h
  rfl

theorem length_variableSymbols (lines : List Text) :
    (variableSymbols lines).length = (variableNames lines).length := by
  rw [variableSymbols, List.length_mapIdx]

/-- There are no more variables than addresses from the first on. -/
theorem length_variableSymbols_le {lines words : List Text} {labels : SymbolTable}
    (h : labels.symbols = Symbol.predefined ++ labelSymbols lines)
    (hwords : collect (outcomes lines) = .ok words) : (variableSymbols lines).length ≤ 32752 := by
  by_contra hmany
  rw [Nat.not_le] at hmany
  have hlast := List.getElem?_eq_getElem hmany
  have hplace := address_of_getElem?_variableSymbols hlast
  have hrange := (address_of_mem_variableSymbols h hwords (List.mem_of_getElem? hlast)).2
  rw [hplace] at hrange
  exact absurd hrange (by decide)

/-! ### Programs that only refer to names -/

theorem operands_map_address (names : List Text) : operands (names.map Line.address) = names := by
  induction names with
  | nil => rfl
  | cons name rest ih => rw [List.map_cons, operands_cons_address, ih]

theorem isLabel_of_mem_map_address {names : List Text} {line : Text} (h : line ∈ names.map Line.address) :
    Line.isLabel line = false := by
  obtain ⟨name, -, rfl⟩ := List.mem_map.1 h
  exact Line.not_isLabel_of_isAddress (Line.isAddress_address name)

theorem instructions_map_address (names : List Text) :
    Labels.instructions (names.map Line.address) = names.map Line.address := by
  rw [Labels.instructions, List.filter_eq_self]
  intro line hline
  rw [isLabel_of_mem_map_address hline]
  rfl

variable {names : List Text} (hfree : ∀ name ∈ names, IsFree name)
include hfree

theorem isVariable_map_address {name : Text} (h : name ∈ names) :
    isVariable (names.map Line.address) name = true := by
  obtain ⟨hliteral, hpredefined⟩ := hfree name h
  refine isVariable_iff.2 ⟨hliteral, hpredefined, fun hlabel => ?_⟩
  have hnot := isLabel_of_mem_map_address hlabel
  rw [Line.isLabel_label] at hnot
  cases hnot

theorem variableNames_map_address (hnodup : names.Nodup) :
    variableNames (names.map Line.address) = names := by
  have hall : names.filter (isVariable (names.map Line.address)) = names :=
    List.filter_eq_self.2 fun name hname => isVariable_map_address hfree hname
  rw [variableNames, operands_map_address, hall, List.eraseDups_eq_self hnodup]

/-- As many names as there are addresses from the first variable on can be referred to. -/
theorem exists_words_of_map_address (hnodup : names.Nodup) (hlength : names.length ≤ 32752) :
    ∃ words, collect (outcomes (names.map Line.address)) = .ok words := by
  have hvariables := variableNames_map_address hfree hnodup
  have hsymbols := Labels.symbols_of_bind
    (Labels.bind_of_not_label (fun line => @isLabel_of_mem_map_address names line) false)
  apply exists_collect_outcomes
  intro line hline
  rw [instructions_map_address] at hline
  obtain ⟨name, hname, rfl⟩ := List.mem_map.1 hline
  constructor
  · have hliteral := (hfree name hname).1
    rw [isTooLong, Line.operand_address, hliteral, Bool.and_false, Bool.false_and]
  · obtain ⟨i, hi, rfl⟩ := List.mem_iff_getElem.1 hname
    have hplace : i < (variableNames (names.map Line.address)).length := by rwa [hvariables]
    have hbefore := length_variablesBefore_getElem hsymbols hplace
    have hget : (variableNames (names.map Line.address))[i] = names[i] := by
      simp only [hvariables]
    rw [hget] at hbefore
    rw [faulty_variable_iff (isVariable_map_address hfree hname), hbefore]
    omega

end Program

namespace Assembly
open Program

/-- The variables of a program that assembles lie one behind the other from the first address behind the registers
on, each at an address of its own, and no address is passed over. So the one that has 16368 others in front of it is
on the screen, the one with 24560 is on the keyboard, and no other shares its address with a predefined symbol: one
of them does so as soon as there are more than 16368 variables. -/
theorem variables_meet_devices {strict : Bool} {file source : Text} {a : Assembly}
    (h : ofSource strict file source = .ok a) :
    a.table.ofKind .predefined = Symbol.predefined ∧
    ((a.table.ofKind .variable).map Symbol.address).Nodup ∧
    (a.table.ofKind .variable).length ≤ 32752 ∧
    (∀ (i : Nat) (s : Symbol), (a.table.ofKind .variable)[i]? = some s →
      s.address = 16 + i ∧
      ∀ p ∈ a.table.ofKind .predefined,
        s.address = p.address ↔
          (i = 16368 ∧ p.name = Symbol.screenName) ∨ (i = 24560 ∧ p.name = Symbol.keyboardName)) ∧
    ((∃ s ∈ a.table.ofKind .variable, ∃ p ∈ a.table.ofKind .predefined, s.address = p.address) ↔
      16368 < (a.table.ofKind .variable).length) := by
  obtain ⟨labels, hbind, hwords, hsymbols, -⟩ := exists_labels_of_ofSourceLines h
  have hlabels := Labels.symbols_of_bind hbind
  rw [hlabels] at hsymbols
  have hpredefined : a.table.ofKind .predefined = Symbol.predefined := SymbolTable.ofKind_eq hsymbols _
  have hvariables : a.table.ofKind .variable = variableSymbols (texts (Source.clean source)) :=
    SymbolTable.ofKind_eq hsymbols _
  rw [hpredefined, hvariables]
  generalize texts (Source.clean source) = lines at *
  have hshared : ∀ (i : Nat) (s : Symbol), (variableSymbols lines)[i]? = some s →
      ∀ p ∈ Symbol.predefined, s.address = p.address ↔
        (i = 16368 ∧ p.name = Symbol.screenName) ∨ (i = 24560 ∧ p.name = Symbol.keyboardName) := by
    intro i s hs p hp
    rw [address_of_getElem?_variableSymbols hs]
    exact Symbol.variableBase_add_eq_iff hp i
  refine ⟨rfl, nodup_address_variableSymbols lines, length_variableSymbols_le hlabels hwords,
    fun i s hs => ⟨address_of_getElem?_variableSymbols hs, hshared i s hs⟩, ?_⟩
  constructor
  · rintro ⟨s, hs, p, hp, hsame⟩
    obtain ⟨i, hi⟩ := List.mem_iff_getElem?.1 hs
    have hlt := (List.getElem?_eq_some_iff.1 hi).1
    have hdevice := (hshared i s hi p hp).1 hsame
    omega
  · intro hmany
    obtain ⟨p, hp, hname⟩ := Symbol.exists_screen
    have hs := List.getElem?_eq_getElem hmany
    exact ⟨_, List.mem_of_getElem? hs, p, hp, (hshared 16368 _ hs p hp).2 (.inl ⟨rfl, hname⟩)⟩

/-- Names that differ in the number behind their letter. -/
def numberedName (i : Nat) : Text := 'v' :: Nat.toDigits 10 i

/-- A program that refers to `n` names, each once. -/
def manyVariables (n : Nat) : Text :=
  Output.terminated (((List.range n).map numberedName).map Line.address)

theorem isFree_numberedName (i : Nat) : IsFree (numberedName i) := by
  have hletter : ∀ s ∈ Symbol.predefined, s.name.head? ≠ some 'v' := by decide
  constructor
  · simp [Numeral.isLiteral, numberedName]
  · rw [predefined?, List.find?_eq_none]
    intro s hs hname
    rw [decide_eq_true_eq] at hname
    exact hletter s hs (hname ▸ rfl)

theorem numberedName_injective : Function.Injective numberedName := by
  intro i j h
  have hdigits : Nat.toDigits 10 i = Nat.toDigits 10 j := (List.cons.inj h).2
  rw [← Numeral.value_toDigits (by decide) (le_refl 10) i, hdigits,
    Numeral.value_toDigits (by decide) (le_refl 10)]

theorem texts_clean_manyVariables (n : Nat) :
    texts (Source.clean (manyVariables n)) = ((List.range n).map numberedName).map Line.address := by
  apply Source.map_text_clean_terminated
  rw [List.forall_mem_map, List.forall_mem_map]
  intro i _
  have hdigits : ∀ c ∈ Nat.toDigits 10 i, c.isDigit = true :=
    fun _ => Nat.isDigit_of_mem_toDigits (by decide) (by decide)
  refine ⟨List.cons_ne_nil _ _, ?_⟩
  exact List.forall_mem_cons.2
    ⟨by decide, List.forall_mem_cons.2 ⟨by decide, Source.isPlain_of_isDigit hdigits⟩⟩

/-- The program assembles up to the last address, and its names are its variables. -/
theorem exists_ofSource_manyVariables {n : Nat} (h : n ≤ 32752) (strict : Bool) (file : Text) :
    ∃ a, ofSource strict file (manyVariables n) = .ok a ∧ (a.table.ofKind .variable).length = n := by
  have htexts := texts_clean_manyVariables n
  have hfree : ∀ name ∈ (List.range n).map numberedName, IsFree name :=
    List.forall_mem_map.2 fun i _ => isFree_numberedName i
  have hnodup : ((List.range n).map numberedName).Nodup :=
    List.Nodup.map numberedName_injective List.nodup_range
  have hlength : ((List.range n).map numberedName).length = n := by
    rw [List.length_map, List.length_range]
  obtain ⟨words, hwords⟩ := exists_words_of_map_address hfree hnodup (by rwa [hlength])
  have hbind := Labels.bind_of_not_label
    (fun line => @isLabel_of_mem_map_address ((List.range n).map numberedName) line) strict
  have hrefused : ¬IsRefused strict (texts (Source.clean (manyVariables n))) :=
    exists_bind_iff.1 ⟨_, by rw [htexts, hbind]⟩
  obtain ⟨table, hrun⟩ := ofSourceLines_of_not_refused hrefused file
  rw [htexts, hwords] at hrun
  obtain ⟨labels, hlabels, -, hsymbols, -⟩ := exists_labels_of_ofSourceLines hrun
  rw [Labels.symbols_of_bind hlabels] at hsymbols
  refine ⟨_, hrun, ?_⟩
  rw [SymbolTable.ofKind_eq hsymbols, length_variableSymbols, htexts,
    variableNames_map_address hfree hnodup, hlength]

theorem variables_meet_devices_of_manyVariables :
    ∃ a s, ofSource false [] (manyVariables 16369) = .ok a ∧
      (a.table.ofKind .variable)[16368]? = some s ∧ s.address = 0x4000 ∧
      ∃ p ∈ a.table.ofKind .predefined, p.name = Symbol.screenName ∧ s.address = p.address := by
  have hfew : 16369 ≤ 32752 := by decide
  obtain ⟨a, hrun, hlength⟩ := exists_ofSource_manyVariables hfew false []
  obtain ⟨hpredefined, -, -, hplaces, -⟩ := variables_meet_devices hrun
  have hlast : 16368 < (a.table.ofKind .variable).length := by
    rw [hlength]
    decide
  have hs := List.getElem?_eq_getElem hlast
  obtain ⟨haddress, hdevices⟩ := hplaces 16368 _ hs
  obtain ⟨p, hp, hname⟩ := Symbol.exists_screen
  rw [← hpredefined] at hp
  exact ⟨a, _, hrun, hs, haddress, p, hp, hname, (hdevices p hp).2 (.inl ⟨rfl, hname⟩)⟩

end Assembly

end HackAssembler
