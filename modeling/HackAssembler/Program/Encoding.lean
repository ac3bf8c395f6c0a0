import HackAssembler.Failure
import HackAssembler.Instruction.Line
import HackAssembler.Instruction.Word
import HackAssembler.Symbol.Table

/-! Instructions as words. A symbol without an address becomes a variable where it is first used. -/
namespace HackAssembler

/-- What encoding remembers from one instruction to the next: the symbols and the address of the next variable. -/
structure Context where
  table : SymbolTable
  nextVariable : Int := Symbol.variableBase

namespace Context

/-- Binds a name to the next variable address, which is used up also if the name was bound before. The address that
the name has is put into words before the counter goes on: if it is too long for that, the name is bound all the same
and the counter stays. -/
def allocate (c : Context) (name : Text) : Except Failure Int × Context :=
  let (address, table) := c.table.bind ⟨name, c.nextVariable, .variable⟩
  if Numeral.isWritable address then (.ok address, ⟨table, c.nextVariable + 1⟩)
  else (.error .numberTooLong, { c with table })

/-- A symbolic operand that has no address yet. -/
def isNew (c : Context) (operand : Text) : Bool :=
  !Numeral.isLiteral operand && !c.table.contains operand

/-- The address that an operand stands for here. -/
def addressOf (c : Context) (operand : Text) : Except Failure Int :=
  if Numeral.isLiteral operand then
    if Failure.maxLiteralDigits < operand.length then .error (.literalTooLong operand.length)
    else .ok (Numeral.value 10 operand)
  else
    match c.table.lookup operand with
    | some bound => .ok bound.address
    | none => .ok c.nextVariable

/-- The address that an operand stands for, which makes a variable of it if it has none yet. -/
def resolve (c : Context) (operand : Text) : Except Failure Int :=
  if c.isNew operand then (c.allocate operand).1 else c.addressOf operand

/-- The context behind an address instruction. It does not depend on whether the address fits. -/
def afterAddress (c : Context) (line : Text) : Context :=
  if c.isNew (Line.operand line) then (c.allocate (Line.operand line)).2 else c

/-- The context behind any instruction. -/
def after (c : Context) (line : Text) : Context :=
  if Line.kind line = .address then c.afterAddress line else c

section Allocation
variable (c : Context) {name : Text}

/-- Whether or not the counter goes on, the name is bound. -/
@[simp] theorem table_allocate (name : Text) :
    (c.allocate name).2.table = (c.table.bind ⟨name, c.nextVariable, .variable⟩).2 := by
  unfold allocate
  dsimp only
  split <;> rfl

variable {c} (h : c.table.lookup name = none)
include h

/-- A name that is free gets the address that the counter shows. -/
theorem allocate_of_free : (c.allocate name).1 =
    if Numeral.isWritable c.nextVariable then .ok c.nextVariable else .error .numberTooLong := by
  rw [allocate, SymbolTable.bind_of_lookup_none h]
  dsimp only
  split <;> rfl

theorem nextVariable_allocate_of_free : (c.allocate name).2.nextVariable =
    if Numeral.isWritable c.nextVariable then c.nextVariable + 1 else c.nextVariable := by
  rw [allocate, SymbolTable.bind_of_lookup_none h]
  dsimp only
  split <;> rfl

end Allocation

section Resolution
variable {c : Context} {operand : Text}

theorem isNew_of_isLiteral (h : Numeral.isLiteral operand = true) (c : Context) : c.isNew operand = false := by
  rw [isNew, h, Bool.not_true, Bool.false_and]

theorem lookup_of_isNew (h : c.isNew operand = true) : c.table.lookup operand = none := by
  simp only [isNew, SymbolTable.contains, Bool.and_eq_true, Bool.not_eq_true', Option.isSome_eq_false_iff,
    Option.isNone_iff_eq_none] at h
  exact h.2

/-- Where the counter can be written, an operand stands for the same address whether or not it is new. -/
theorem resolve_eq_addressOf (h : c.isNew operand = true → Numeral.isWritable c.nextVariable = true) :
    c.resolve operand = c.addressOf operand := by
  unfold resolve
  split
  · next hnew =>
    have hliteral : Numeral.isLiteral operand = false := by
      rw [← Bool.not_eq_true]
      intro hliteral
      rw [isNew_of_isLiteral hliteral] at hnew
      cases hnew
    rw [allocate_of_free (lookup_of_isNew hnew), if_pos (h hnew), addressOf, hliteral, lookup_of_isNew hnew]
    rfl
  · rfl

/-- An operand that is resolved gets the address that it stands for. -/
theorem addressOf_of_resolve {value : Int} (h : c.resolve operand = .ok value) : c.addressOf operand = .ok value := by
  rw [← resolve_eq_addressOf, h]
  intro hnew
  rw [resolve, if_pos hnew, allocate_of_free (lookup_of_isNew hnew)] at h
  split at h
  · assumption
  · cases h

theorem resolve_of_isLiteral (h : Numeral.isLiteral operand = true) (c : Context) :
    c.resolve operand = c.addressOf operand :=
  resolve_eq_addressOf fun hnew => by
    rw [isNew_of_isLiteral h] at hnew
    cases hnew

end Resolution

end Context

namespace Encoding

/-- The word of an address, if it fits. -/
def addressWord (value : Int) (line : Text) (index : Option Int) : Except Failure Text :=
  if Word.maxAddress < value then .error (.diagnostic { cause := .addressRange value line, index })
  else .ok (Word.ofAddress value)

/-- The word of an address instruction. -/
def address (c : Context) (line : Text) (index : Option Int) : Except Failure Text :=
  match c.resolve (Line.operand line) with
  | .error f => .error f
  | .ok value => addressWord value line index

/-- The word of a compute instruction. -/
def compute (line : Text) (index : Option Int) : Except Failure Text :=
  match Compute.read line index with
  | .ok c => .ok c.word
  | .error d => .error (.diagnostic d)

/-- The word of any line that is taken for an instruction. -/
def instruction (c : Context) (line : Text) (index : Option Int) : Except Failure Text :=
  if Line.kind line = .address then address c line index else compute line index

private def programLoop : Context → Nat → List Text → List Text → Except Failure (List Text) × Context
  | c, _, [], words => (.ok words.reverse, c)
  | c, index, line :: rest, words =>
    match instruction c line (some index) with
    | .error f => (.error f, c.after line)
    | .ok word => programLoop (c.after line) (index + 1) rest (word :: words)

/-- The words of `lines`, the first of which has the address `index`, up to the first fault, and the context that
is left: at a fault, the one behind the faulty instruction. -/
def programFrom (c : Context) (index : Nat) (lines : List Text) : Except Failure (List Text) × Context :=
  programLoop c index lines []

/-- The words of a program on the symbols of `table`, and the context that is left. -/
def program (table : SymbolTable) (lines : List Text) : Except Failure (List Text) × Context :=
  programFrom ⟨table, Symbol.variableBase⟩ 0 lines

private theorem programLoop_eq (c : Context) (index : Nat) (lines words : List Text) :
    programLoop c index lines words =
      ((programLoop c index lines []).1.map (words.reverse ++ ·), (programLoop c index lines []).2) := by
  induction lines generalizing c index words with
  | nil => simp [programLoop, Except.map]
  | cons line rest ih =>
    simp only [programLoop]
    cases instruction c line (some index) with
    | error f => rfl
    | ok word =>
      simp only [ih (c.after line) (index + 1) (word :: words), ih (c.after line) (index + 1) [word]]
      cases (programLoop (c.after line) (index + 1) rest []).1 <;> simp [Except.map]

@[simp] theorem programFrom_nil (c : Context) (index : Nat) : programFrom c index [] = (.ok [], c) := rfl

theorem programFrom_cons (c : Context) (index : Nat) (line : Text) (rest : List Text) :
    programFrom c index (line :: rest) =
      match instruction c line (some index) with
      | .error f => (.error f, c.after line)
      | .ok word =>
        ((programFrom (c.after line) (index + 1) rest).1.map (word :: ·),
          (programFrom (c.after line) (index + 1) rest).2) := by
  simp only [programFrom, programLoop]
  cases instruction c line (some index) with
  | error f => rfl
  | ok word => exact programLoop_eq (c.after line) (index + 1) rest [word]

end Encoding

end HackAssembler
