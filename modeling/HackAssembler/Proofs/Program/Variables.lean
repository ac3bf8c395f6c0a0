import Mathlib.Data.List.Induction
import HackAssembler.Proofs.Occurrence
import HackAssembler.Proofs.Program.Counter
import HackAssembler.Proofs.Program.Meaning

/-! The variables of a program: the context behind any lines holds what it held, and behind that one symbol for each
operand that was new, at rising addresses in the order of first reference. -/
namespace HackAssembler

namespace Program

theorem operands_cons_of_not_address {line : Text} (h : Line.isAddress line = false)
    (lines : List Text) : operands (line :: lines) = operands lines := by
  simp [operands, h]

theorem operands_cons_address (name : Text) (lines : List Text) :
    operands (Line.address name :: lines) = name :: operands lines := by
  rw [operands, List.filter_cons_of_pos (Line.isAddress_address name)]
  rfl

theorem operands_append (first next : List Text) :
    operands (first ++ next) = operands first ++ operands next := by
  simp [operands]

/-- Declarations refer to nothing. -/
theorem operands_instructions (lines : List Text) :
    operands (Labels.instructions lines) = operands lines := by
  rw [operands, Labels.instructions, List.filter_filter, operands]
  congr 1
  apply List.filter_congr
  intro line _
  cases haddress : Line.isAddress line with
  | false => rfl
  | true => simp [Line.not_isLabel_of_isAddress haddress]

end Program

namespace Context
open Program

/-- The context behind a sequence of lines. -/
def advanceAll (c : Context) (lines : List Text) : Context := lines.foldl advance c

/-- The operands that get an address where they are first used. -/
def newNames (c : Context) (lines : List Text) : List Text := ((operands lines).filter c.isNew).eraseDups

def newSymbols (c : Context) (lines : List Text) : List Symbol :=
  (c.newNames lines).mapIdx fun i name => ⟨name, c.nextVariable + i, .variable⟩

variable (c : Context) (lines : List Text)

@[simp] theorem advanceAll_nil : c.advanceAll [] = c := rfl

@[simp] theorem advanceAll_cons (line : Text) :
    c.advanceAll (line :: lines) = (c.advance line).advanceAll lines := rfl

theorem advanceAll_concat (line : Text) :
    c.advanceAll (lines ++ [line]) = (c.advanceAll lines).advance line := by
  simp [advanceAll]

theorem isNew_iff {c : Context} {name : Text} :
    c.isNew name = true ↔ Numeral.isLiteral name = false ∧ name ∉ c.table.names := by
  rw [← SymbolTable.lookup_eq_none_iff]
  simp [isNew, SymbolTable.contains]

theorem advance_of_not_address {line : Text} (h : Line.isAddress line = false) : c.advance line = c := by
  simp [advance, h]

theorem advance_address_of_old {name : Text} (h : c.isNew name = false) :
    c.advance (Line.address name) = c := by
  simp [advance, h]

theorem advance_address_of_new {name : Text} (h : c.isNew name = true) :
    (c.advance (Line.address name)).table.symbols =
        c.table.symbols ++ [⟨name, c.nextVariable, .variable⟩] ∧
      (c.advance (Line.address name)).nextVariable = c.nextVariable + 1 := by
  have hfree : c.table.lookup name = none := SymbolTable.lookup_eq_none_iff.2 (isNew_iff.1 h).2
  rw [advance, Line.isAddress_address, Line.operand_address, h]
  constructor
  · simp [SymbolTable.symbols_bind, hfree]
  · rfl

theorem newNames_concat_of_not_address {line : Text} (h : Line.isAddress line = false) :
    c.newNames (lines ++ [line]) = c.newNames lines := by
  rw [newNames, operands_append, operands_cons_of_not_address h]
  simp [operands, newNames]

theorem newNames_concat_address (name : Text) :
    c.newNames (lines ++ [Line.address name]) =
      ((operands lines).filter c.isNew ++ [name].filter c.isNew).eraseDups := by
  rw [newNames, operands_append, operands_cons_address, List.filter_append]
  rfl

theorem newNames_concat_of_old {name : Text} (h : c.isNew name = true → name ∈ c.newNames lines) :
    c.newNames (lines ++ [Line.address name]) = c.newNames lines := by
  rw [newNames_concat_address]
  cases hc : c.isNew name with
  | false => rw [List.filter_cons_of_neg (by simp [hc]), List.filter_nil, List.append_nil, newNames]
  | true =>
    have hmem := h hc
    rw [newNames, List.mem_eraseDups] at hmem
    rw [List.filter_cons_of_pos hc, List.filter_nil, List.eraseDups_concat_of_mem hmem, newNames]

theorem newNames_concat_of_new {name : Text} (hc : c.isNew name = true)
    (hout : name ∉ c.newNames lines) :
    c.newNames (lines ++ [Line.address name]) = c.newNames lines ++ [name] := by
  rw [newNames, List.mem_eraseDups] at hout
  rw [newNames_concat_address, List.filter_cons_of_pos hc, List.filter_nil,
    List.eraseDups_concat_of_not_mem hout, newNames]

theorem names_newSymbols : (c.newSymbols lines).map Symbol.name = c.newNames lines := by
  apply List.ext_getElem?
  intro i
  simp [newSymbols, Function.comp_def]

/-- A name is new behind some lines if it was new in front of them and none of them refers to it. -/
private theorem isNew_iff_of_symbols {d : Context}
    (h : d.table.symbols = c.table.symbols ++ c.newSymbols lines) {name : Text} :
    d.isNew name = true ↔ c.isNew name = true ∧ name ∉ c.newNames lines := by
  rw [isNew_iff, isNew_iff, SymbolTable.names, h, List.map_append, names_newSymbols, List.mem_append,
    not_or, SymbolTable.names, and_assoc]

theorem advanceAll_spec :
    (c.advanceAll lines).table.symbols = c.table.symbols ++ c.newSymbols lines ∧
      (c.advanceAll lines).nextVariable = c.nextVariable + (c.newNames lines).length := by
  -- From the right: new names are added at the end, in step with the table.
  induction lines using List.reverseRecOn with
  | nil => simp [newNames, newSymbols, operands]
  | append_singleton lines line ih =>
    obtain ⟨hsymbols, hnext⟩ := ih
    rw [advanceAll_concat]
    by_cases haddress : Line.isAddress line = true
    · rw [Line.isAddress_iff.1 haddress]
      generalize Line.operand line = name
      have hiff := @isNew_iff_of_symbols c lines _ hsymbols name
      cases hnew : (c.advanceAll lines).isNew name with
      | true =>
        obtain ⟨hc, hout⟩ := hiff.1 hnew
        obtain ⟨hsymbols', hnext'⟩ := advance_address_of_new _ hnew
        rw [hsymbols', hnext', newSymbols, newNames_concat_of_new c lines hc hout, List.mapIdx_concat,
          hsymbols, hnext, newSymbols, List.append_assoc, List.length_append, List.length_singleton]
        exact ⟨rfl, by omega⟩
      | false =>
        have hold : c.isNew name = true → name ∈ c.newNames lines := by
          intro hc
          by_contra hout
          rw [hiff.2 ⟨hc, hout⟩] at hnew
          cases hnew
        rw [advance_address_of_old _ hnew, newSymbols, newNames_concat_of_old c lines hold, hsymbols, hnext,
          newSymbols]
        exact ⟨rfl, rfl⟩
    · rw [Bool.not_eq_true] at haddress
      rw [advance_of_not_address _ haddress, newSymbols, newNames_concat_of_not_address c lines haddress,
        hsymbols, hnext, newSymbols]
      exact ⟨rfl, rfl⟩

theorem symbols_advanceAll :
    (c.advanceAll lines).table.symbols = c.table.symbols ++ c.newSymbols lines :=
  (c.advanceAll_spec lines).1

theorem nextVariable_advanceAll :
    (c.advanceAll lines).nextVariable = c.nextVariable + (c.newNames lines).length :=
  (c.advanceAll_spec lines).2

theorem lookup_advanceAll (name : Text) :
    (c.advanceAll lines).table.lookup name = (c.table.lookup name).or
      (if name ∈ c.newNames lines then
        some ⟨name, c.nextVariable + (c.newNames lines).idxOf name, .variable⟩
      else none) := by
  rw [SymbolTable.lookup_eq_find?, symbols_advanceAll, List.find?_append, ← SymbolTable.lookup_eq_find?,
    newSymbols, find?_mapIdx_name _ fun _ _ => rfl]

/-- The address that an operand has behind some lines. One that is still new has that of the next variable. -/
theorem addressOf_advanceAll (operand : Text) :
    (c.advanceAll lines).addressOf operand =
      if Numeral.isLiteral operand then c.addressOf operand
      else
        match c.table.lookup operand with
        | some bound => .ok bound.address
        | none => .ok (c.nextVariable + (c.newNames lines).idxOf operand) := by
  unfold addressOf
  by_cases hliteral : Numeral.isLiteral operand = true
  · rw [if_pos hliteral, if_pos hliteral, if_pos hliteral]
  · rw [if_neg hliteral, if_neg hliteral, lookup_advanceAll]
    cases c.table.lookup operand with
    | some bound => rfl
    | none =>
      rw [Option.none_or]
      by_cases hmem : operand ∈ c.newNames lines
      · rw [if_pos hmem]
      · rw [if_neg hmem, nextVariable_advanceAll, List.idxOf_eq_length hmem]

/-- What an instruction is told about its operand is what the table says behind all lines. -/
theorem addressOf_advanceAll_cons (name : Text) :
    (c.advanceAll (Line.address name :: lines)).addressOf name = c.addressOf name := by
  rw [addressOf_advanceAll]
  by_cases hliteral : Numeral.isLiteral name = true
  · rw [if_pos hliteral]
  · rw [if_neg hliteral, addressOf, if_neg hliteral]
    cases hlookup : c.table.lookup name with
    | some bound => rfl
    | none =>
      have hnew : c.isNew name = true := by simp [isNew, hliteral, SymbolTable.contains, hlookup]
      have hfirst : (c.newNames (Line.address name :: lines)).idxOf name = 0 := by
        rw [newNames, operands_cons_address, List.filter_cons_of_pos hnew, List.eraseDups_cons,
          List.idxOf_cons_self]
      simp [hfirst]

end Context

end HackAssembler
