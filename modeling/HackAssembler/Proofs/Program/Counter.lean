import HackAssembler.Program.Encoding

/-! The counter of variables while a program is encoded. It starts low, and an address out of range ends the program
long before one that could not be written, so that every new variable gets the address that the counter shows and the
counter goes on. -/
namespace HackAssembler

namespace Context

/-- The context behind a line, by a counter that always goes on. -/
def advance (c : Context) (line : Text) : Context :=
  if Line.isAddress line && c.isNew (Line.operand line) then
    ⟨(c.table.bind ⟨Line.operand line, c.nextVariable, .variable⟩).2, c.nextVariable + 1⟩
  else c

/-- The counter is at most one behind the last address. -/
def InRange (c : Context) : Prop := 0 ≤ c.nextVariable ∧ c.nextVariable ≤ Word.maxAddress + 1

theorem inRange_start (table : SymbolTable) : InRange ⟨table, Symbol.variableBase⟩ := by
  have hbase : 0 ≤ Symbol.variableBase ∧ Symbol.variableBase ≤ Word.maxAddress + 1 := by decide
  exact hbase

variable {c : Context} {line : Text}

theorem InRange.isWritable (h : c.InRange) : Numeral.isWritable c.nextVariable = true := by
  obtain ⟨hnonneg, hle⟩ := h
  change c.nextVariable ≤ 32768 at hle
  have hfew : (Nat.toDigits 10 c.nextVariable.natAbs).length ≤ 5 := by
    rw [Nat.length_toDigits_le_iff (by decide) (by decide)]
    omega
  exact decide_eq_true (Nat.le_trans hfew (by decide))

theorem after_eq_advance (h : Numeral.isWritable c.nextVariable = true) (line : Text) :
    c.after line = c.advance line := by
  unfold after advance afterAddress
  cases haddress : Line.isAddress line with
  | false =>
    rw [if_neg (by rw [Line.kind_eq_address_iff, haddress]; exact Bool.false_ne_true), Bool.false_and,
      if_neg Bool.false_ne_true]
  | true =>
    rw [if_pos (Line.kind_eq_address_iff.2 haddress), Bool.true_and]
    split
    · next hnew =>
      have hfree := SymbolTable.bind_of_lookup_none
        (t := c.table) (s := ⟨Line.operand line, c.nextVariable, .variable⟩) (lookup_of_isNew hnew)
      simp only [allocate, hfree, h, if_true]
    · rfl

end Context

namespace Encoding

/-- The word of a line whose operand is not new. -/
def settled (c : Context) (line : Text) (index : Option Int) : Except Failure Text :=
  if Line.kind line = .address then
    match c.addressOf (Line.operand line) with
    | .error f => .error f
    | .ok value => addressWord value line index
  else compute line index

variable {c d : Context} {line : Text}

theorem instruction_eq_settled
    (h : Line.isAddress line = true → c.isNew (Line.operand line) = true → Numeral.isWritable c.nextVariable = true)
    (index : Option Int) : instruction c line index = settled c line index := by
  unfold instruction settled
  by_cases hkind : Line.kind line = .address
  · rw [if_pos hkind, if_pos hkind, ← Context.resolve_eq_addressOf (h (Line.kind_eq_address_iff.1 hkind))]
    rfl
  · rw [if_neg hkind, if_neg hkind]

/-- It depends on the context only through the address of the operand. -/
theorem settled_congr
    (h : Line.isAddress line = true → c.addressOf (Line.operand line) = d.addressOf (Line.operand line))
    (index : Option Int) : settled c line index = settled d line index := by
  unfold settled
  by_cases hkind : Line.kind line = .address
  · rw [if_pos hkind, if_pos hkind, h (Line.kind_eq_address_iff.1 hkind)]
  · rw [if_neg hkind, if_neg hkind]

end Encoding

namespace Context
open Encoding
variable {c : Context} {line word : Text} {index : Option Int}

/-- A variable whose address does not fit has no word, so that the counter does not get farther in a program. -/
theorem InRange.after (h : c.InRange) (hword : instruction c line index = .ok word) : (c.after line).InRange := by
  rw [after_eq_advance h.isWritable, advance]
  split
  · next hnew =>
    obtain ⟨haddress, hnew⟩ := Bool.and_eq_true_iff.1 hnew
    have hvalue : c.resolve (Line.operand line) = .ok c.nextVariable := by
      rw [resolve, hnew, if_pos rfl, allocate_of_free (lookup_of_isNew hnew), if_pos h.isWritable]
    rw [instruction, if_pos (Line.kind_eq_address_iff.2 haddress), address, hvalue] at hword
    simp only [addressWord] at hword
    split at hword
    · cases hword
    · next hrange =>
      obtain ⟨hnonneg, -⟩ := h
      exact ⟨by dsimp only; omega, by dsimp only; omega⟩
  · exact h

end Context

end HackAssembler
