import HackAssembler.Diagnostic
import HackAssembler.Files.Tree
import HackAssembler.Settings
import HackAssembler.Symbol.Table
import HackAssembler.Text.Control

/-! Everything that can end a run, in words and as an exit code. -/
namespace HackAssembler

/-- Why a run ended without its result. -/
inductive Failure where
  /-- The program is at fault. -/
  | diagnostic (d : Diagnostic)
  /-- A setting is at fault. -/
  | setting (f : SettingFault)
  /-- Any other fault that the assembler itself reports. -/
  | general (text : Text)
  /-- A file cannot be opened. -/
  | file (f : FileFault)
  /-- A file holds no text. -/
  | undecodable (f : Utf8.Fault)
  /-- A numeric operand has more digits than are ever read. -/
  | literalTooLong (digits : Nat)
  /-- A number has more digits than are ever written. -/
  | numberTooLong
  /-- A name that no symbol has. -/
  | unbound (name : Text)
  /-- A path cannot take the suffix of the output. -/
  | suffix (f : Path.SuffixFault)
  | unexpected (text : Text)
  deriving DecidableEq, Repr

inductive ExitCode where
  | success
  | buildError
  | invalidArgs
  | internalError
  deriving DecidableEq, Repr

namespace ExitCode

def name : ExitCode → Text
  | .success => "SUCCESS"
  | .buildError => "BUILD_ERROR"
  | .invalidArgs => "INVALID_ARGS"
  | .internalError => "INTERNAL_ERROR"

def number : ExitCode → Nat
  | .success => 0
  | .buildError => 1
  | .invalidArgs => 2
  | .internalError => 3

def all : List ExitCode := [.success, .buildError, .invalidArgs, .internalError]

end ExitCode

/-- The families of faults, from wide to narrow. -/
inductive FaultFamily where
  | any
  | program
  | unknownMnemonic
  | duplicateSymbol
  | addressRange
  | setting
  deriving DecidableEq, Repr

namespace Failure

/-- The families that a failure belongs to. Faults outside the assembler belong to none. -/
def families : Failure → List FaultFamily
  | .diagnostic d =>
    [.any, .program] ++
      match d.cause with
      | .general _ _ => []
      | .unknownMnemonic .. => [.unknownMnemonic]
      | .duplicateSymbol .. => [.duplicateSymbol]
      | .addressRange .. => [.addressRange]
  | .setting _ => [.any, .setting]
  | .general _ => [.any]
  | .file _ | .undecodable _ | .literalTooLong _ | .numberTooLong | .unbound _ | .suffix _ | .unexpected _ => []

/-- The largest number of digits of a numeric operand, leading zeros included. -/
abbrev maxLiteralDigits : Nat := Numeral.maxDigits

def message : Failure → Text
  | .diagnostic d => d.message
  | .setting f => f.message
  | .general text => text
  | .file f => f.message
  | .undecodable f => f.message
  | .literalTooLong digits =>
    "Exceeds the limit (4300 digits) for integer string conversion: value has " ++
      Numeral.decimal digits ++
      " digits; use sys.set_int_max_str_digits() to increase the limit"
  | .numberTooLong =>
    "Exceeds the limit (4300 digits) for integer string conversion; use sys.set_int_max_str_digits() to increase the limit"
  | .unbound name => Text.quote name
  | .suffix (.invalid wanted) => "Invalid suffix " ++ Text.quote wanted
  | .suffix (.noName path) => Text.quote path.text ++ " has an empty name"
  | .unexpected text => text

/-- What a fault comes to where its words cannot be put together: an address out of range is named in them. The addresses
that a program gives its own symbols are never so long, but a table may hold any. -/
def raised : Failure → Failure
  | .diagnostic d =>
    match d.cause with
    | .addressRange value _ => if Numeral.isWritable value then .diagnostic d else .numberTooLong
    | _ => .diagnostic d
  | f => f

/-- Points a diagnostic at its source line and leaves any other failure as it is. -/
def locate (file : Text) (lines : List SourceLine) : Failure → Failure
  | .diagnostic d => .diagnostic (d.locate file lines)
  | f => f

/-- Points a diagnostic at a place. -/
def withSource (f : Failure) (location : Location) (sourceLine : Text) : Failure :=
  match f with
  | .diagnostic d => .diagnostic (d.withSource location sourceLine)
  | f => f

/-- Faults of program and settings are build errors. Of the refusals by the operating system, those that a
different argument would avoid are invalid arguments. -/
def exitCode : Failure → ExitCode
  | .diagnostic _ | .setting _ | .general _ => .buildError
  | .file f =>
    match f.refusal with
    | .notFound | .notPermitted | .isADirectory => .invalidArgs
    | .notADirectory | .nameTooLong | .embeddedNull | .other => .internalError
  | .undecodable _ | .literalTooLong _ | .numberTooLong | .unbound _ | .suffix _ | .unexpected _ => .internalError

/-- What stands for the record of the calls that led to an internal error. -/
def traceMark : Text := "<traceback>"

/-- The report of a failure: the error that it is called and its message, without control sequences, and for an
internal error that is reported in full the record of calls. -/
def report (f : Failure) (verbose : Bool) (kind : Option Text) : Text :=
  let opening : Text :=
    match f, f.exitCode with
    | .diagnostic _, _ => []
    | _, .buildError =>
      match kind with
      | none | some [] => "Error: "
      | some kind => kind ++ " error: "
    | _, .internalError => "Internal error: "
    | _, _ => "Error: "
  Text.dropControls (opening ++ f.message) ++ ['\n'] ++
    (if verbose && f.exitCode = .internalError then traceMark else [])

end Failure

/-- The address of a name. -/
def SymbolTable.get (t : SymbolTable) (name : Text) : Except Failure Int :=
  match t.address? name with
  | some address => .ok address
  | none => .error (.unbound name)

end HackAssembler
