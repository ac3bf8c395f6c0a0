import HackAssembler.Program.Labels
import HackAssembler.Proofs.Instruction.Reading
import HackAssembler.Proofs.Word.Bits

/-! What a program means, read off all its lines at once: the address of every name, the word of every instruction,
and what is wrong with a line. No order of passes and no table enters here. -/
namespace HackAssembler.Program

/-- What source lines say, apart from where they stand. -/
abbrev texts (lines : List SourceLine) : List Text := lines.map SourceLine.text

/-! ### Names -/

/-- The operands of the address instructions, in order. -/
def operands (lines : List Text) : List Text := (lines.filter Line.isAddress).map Line.operand

/-- The names that label lines declare, in order. -/
def declared (lines : List Text) : List Text := (lines.filter Line.isLabel).map Line.labelName

def predefined? (name : Text) : Option Symbol := Symbol.predefined.find? (·.name = name)

variable (lines : List Text)

/-- The number of instructions in front of the first declaration of a name. -/
def labelAddress (name : Text) : Nat :=
  (Labels.instructions (lines.takeWhile (· ≠ Line.label name))).length

/-- A name that nothing but its use gives an address. -/
def isVariable (name : Text) : Bool :=
  !Numeral.isLiteral name && (predefined? name).isNone && !lines.contains (Line.label name)

/-- The variables that are referred to in front of the first reference to `name`, each once. -/
def variablesBefore (name : Text) : List Text :=
  (((operands lines).takeWhile (· ≠ name)).filter (isVariable lines)).eraseDups

/-- The address of a name: predefined, or that of its first declaration, or the next one for variables. -/
def address (name : Text) : Int :=
  match predefined? name with
  | some s => s.address
  | none =>
    if Line.label name ∈ lines then labelAddress lines name
    else Symbol.variableBase + (variablesBefore lines name).length

/-- The number that an operand stands for. Digits are a literal even if they are also declared as a name. -/
def value (operand : Text) : Int :=
  if Numeral.isLiteral operand then Numeral.value 10 operand else address lines operand

/-! ### Instructions -/

/-- The word of an instruction, if its address fits fifteen bits or its fields spell one. -/
def word? (line : Text) : Option Text :=
  if Line.isAddress line then
    if Word.maxAddress < value lines (Line.operand line) then none
    else some (Word.ofBits (BitVec.ofInt Word.width (value lines (Line.operand line))))
  else (Fields.split line).word?

/-- What is wrong with an instruction: an address out of range, or a field that is unknown. -/
def fault? (line : Text) : Option Cause :=
  if Line.isAddress line then
    if Word.maxAddress < value lines (Line.operand line) then
      some (.addressRange (value lines (Line.operand line)) line)
    else none
  else
    (Fields.split line).unknown?.map fun field =>
      .unknownMnemonic field.name ((Fields.split line).get field) line field.mnemonics

/-- An address instruction whose literal has more digits than are ever read. -/
def isTooLong (line : Text) : Bool :=
  Line.isAddress line && Numeral.isLiteral (Line.operand line) &&
    Failure.maxLiteralDigits < (Line.operand line).length

/-- What encoding comes to at an instruction with the given address. -/
def outcome (line : Text) (index : Int) : Except Failure Text :=
  if isTooLong line then .error (.literalTooLong (Line.operand line).length)
  else
    match fault? lines line with
    | some cause => .error (.diagnostic { cause, index := some index })
    | none => .ok ((word? lines line).getD [])

/-- What encoding comes to at each instruction. -/
def outcomes : List (Except Failure Text) :=
  (Labels.instructions lines).mapIdx fun i line => outcome lines line i

/-- An instruction that has no word: its address is out of range, or one of its fields is unknown. -/
def Faulty (line : Text) : Prop :=
  (Line.isAddress line = true ∧ Word.maxAddress < value lines (Line.operand line)) ∨
    (Line.isAddress line = false ∧ ∃ field : Field, (Fields.split line).get field ∉ field.mnemonics)

def FaultyAt (i : Nat) : Prop :=
  ∃ line, (Labels.instructions lines)[i]? = some line ∧ Faulty lines line

def TooLongAt (i : Nat) : Prop :=
  ∃ line, (Labels.instructions lines)[i]? = some line ∧ isTooLong line = true

instance (i : Nat) : Decidable (TooLongAt lines i) :=
  inferInstanceAs (Decidable (∃ line ∈ (Labels.instructions lines)[i]?, isTooLong line = true))

/-! ### Declarations -/

/-- A label line that declares a name which is predefined or was declared among the `earlier` lines. -/
def Redeclares (earlier : List Text) (line : Text) : Prop :=
  Line.isLabel line = true ∧ (predefined? (Line.labelName line) ≠ none ∨ line ∈ earlier)

instance (earlier : List Text) (line : Text) : Decidable (Redeclares earlier line) :=
  inferInstanceAs (Decidable (_ ∧ _))

def RedeclaredAt (i : Nat) : Prop := ∃ line, lines[i]? = some line ∧ Redeclares (lines.take i) line

instance (i : Nat) : Decidable (RedeclaredAt lines i) :=
  inferInstanceAs (Decidable (∃ line ∈ lines[i]?, Redeclares (lines.take i) line))

end HackAssembler.Program

namespace HackAssembler

/-- A name that means what the program makes of it: it is neither a number nor predefined. -/
def IsFree (name : Text) : Prop := Numeral.isLiteral name = false ∧ Program.predefined? name = none

instance (name : Text) : Decidable (IsFree name) := inferInstanceAs (Decidable (_ ∧ _))

end HackAssembler
