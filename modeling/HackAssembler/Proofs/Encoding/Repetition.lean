import HackAssembler.Proofs.Encoding.State

/-! Encoding once more. A table that holds what a program has left in it answers every operand as it was answered
then, so that the program comes to the same words or to the same fault, and adds nothing. -/
namespace HackAssembler

namespace Context

theorem symbols_prefix_after (c : Context) (line : Text) :
    c.table.symbols <+: (c.after line).table.symbols :=
  c.symbols_prefix_perform (.encode line none)

variable {c d : Context} {line : Text}

/-- Behind an instruction its operand has an address, unless it is a literal. -/
theorem lookup_after (haddress : Line.isAddress line = true)
    (hliteral : Numeral.isLiteral (Line.operand line) = false) :
    ∃ s, (c.after line).table.lookup (Line.operand line) = some s ∧
      c.addressOf (Line.operand line) = .ok s.address := by
  rw [addressOf, hliteral, if_neg Bool.false_ne_true]
  cases hlookup : c.table.lookup (Line.operand line) with
  | some bound =>
    exact ⟨bound, SymbolTable.lookup_of_extended (c.symbols_prefix_after line) hlookup, rfl⟩
  | none =>
    have hintroduces : c.Introduces line :=
      ⟨haddress, hliteral, SymbolTable.lookup_eq_none_iff.1 hlookup⟩
    have hmem : ⟨Line.operand line, c.nextVariable, .variable⟩ ∈ (c.after line).table.symbols := by
      rw [after_of_introduces hintroduces, symbols_allocate_of_free hlookup]
      exact List.mem_append_right _ List.mem_cons_self
    exact ⟨_, SymbolTable.lookup_of_mem hmem, rfl⟩

section Later
variable (h : (c.after line).table.symbols <+: d.table.symbols)
include h

theorem not_introduces_of_extended : ¬d.Introduces line := by
  rintro ⟨haddress, hliteral, hfree⟩
  obtain ⟨s, hs, -⟩ := lookup_after (c := c) haddress hliteral
  have hlater := SymbolTable.lookup_of_extended h hs
  rw [SymbolTable.lookup_eq_none_iff.2 hfree] at hlater
  cases hlater

theorem after_of_extended : d.after line = d :=
  after_of_not_introduces (not_introduces_of_extended h)

theorem addressOf_of_extended (haddress : Line.isAddress line = true) :
    d.addressOf (Line.operand line) = c.addressOf (Line.operand line) := by
  cases hliteral : Numeral.isLiteral (Line.operand line) with
  | true => rw [addressOf, addressOf, if_pos hliteral, if_pos hliteral]
  | false =>
    obtain ⟨s, hs, hvalue⟩ := lookup_after (c := c) haddress hliteral
    have hlater := SymbolTable.lookup_of_extended h hs
    rw [hvalue, addressOf, hliteral, if_neg Bool.false_ne_true, hlater]

/-- Where the table holds what an instruction has left, the instruction comes to what it came to. Only the first time
may it have made a variable, so that the counter counts only there. -/
theorem instruction_of_extended (hc : c.InRange) (index : Option Int) :
    Encoding.instruction d line index = Encoding.instruction c line index := by
  have hknown : Line.isAddress line = true → d.isNew (Line.operand line) = true →
      Numeral.isWritable d.nextVariable = true := fun haddress hnew =>
    absurd ((isNew_operand_iff haddress).1 hnew) (not_introduces_of_extended h)
  rw [Encoding.instruction_eq_settled hknown, Encoding.instruction_eq_settled fun _ _ => hc.isWritable]
  exact Encoding.settled_congr (addressOf_of_extended h) index

end Later

end Context

namespace Encoding
open Context

theorem symbols_prefix_programFrom (c : Context) (index : Nat) (lines : List Text) :
    c.table.symbols <+: (programFrom c index lines).2.table.symbols := by
  apply programFrom_induction (p := fun d => c.table.symbols <+: d.table.symbols) (List.prefix_refl _)
  intro d line hd
  exact hd.trans (d.symbols_prefix_after line)

/-- A program ends as it ended before wherever the table holds what it left then, and leaves that context as it is.
The counter of variables may stand anywhere the second time. -/
theorem programFrom_of_extended {c d : Context} (hc : c.InRange) {index : Nat} {lines : List Text}
    (h : (programFrom c index lines).2.table.symbols <+: d.table.symbols) :
    programFrom d index lines = ((programFrom c index lines).1, d) := by
  -- On the lines: what the first one left is still there when the rest has been encoded.
  induction lines generalizing c index with
  | nil => rfl
  | cons line rest ih =>
    rw [programFrom_cons] at h ⊢
    rw [programFrom_cons]
    cases hword : instruction c line (some (index : Int)) with
    | error f =>
      rw [hword] at h
      rw [instruction_of_extended h hc, hword, after_of_extended h]
    | ok word =>
      rw [hword] at h
      have hline := (symbols_prefix_programFrom (c.after line) (index + 1) rest).trans h
      rw [instruction_of_extended hline hc, hword, after_of_extended hline, ih (hc.after hword) h]

/-- Whatever the table held and however the program ended, encoding it once more on the table that it left ends in the
same words or the same fault, and leaves the table as it is and the counter where it starts. -/
theorem program_again (table : SymbolTable) (lines : List Text) :
    let once := program table lines
    program once.2.table lines = (once.1, ⟨once.2.table, Symbol.variableBase⟩) := by
  intro once
  exact programFrom_of_extended (inRange_start table) (List.prefix_refl _)

end Encoding

end HackAssembler
