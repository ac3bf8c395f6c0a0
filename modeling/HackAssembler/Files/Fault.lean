import HackAssembler.Text.Numeral
import HackAssembler.Text.Quoted

/-! What the operating system answers when a file cannot be opened. -/
namespace HackAssembler

/-- Why a file is refused. -/
inductive Refusal where
  | notFound
  | notPermitted
  | notADirectory
  | isADirectory
  | nameTooLong
  /-- The path holds a null character, which would end it early. -/
  | embeddedNull
  | other
  deriving DecidableEq, Repr

/-- How a refusal is put into words. -/
inductive FileReport where
  | numbered (code : Int) (text path : Text)
  | plain (text : Text)
  deriving DecidableEq, Repr

namespace Refusal

/-- Lack of permission has two codes. -/
def ofCode (code : Int) : Refusal :=
  if code = 2 then .notFound
  else if code = 1 ∨ code = 13 then .notPermitted
  else if code = 20 then .notADirectory
  else if code = 21 then .isADirectory
  else if code = 36 then .nameTooLong
  else .other

/-- The words for a path that is refused. -/
def report (refusal : Refusal) (path : Text) : FileReport :=
  match refusal with
  | .notFound => .numbered 2 "No such file or directory" path
  | .notPermitted => .numbered 13 "Permission denied" path
  | .notADirectory => .numbered 20 "Not a directory" path
  | .isADirectory => .numbered 21 "Is a directory" path
  | .nameTooLong => .numbered 36 "File name too long" path
  | .embeddedNull => .plain "embedded null byte"
  | .other => .numbered 5 "Input/output error" path

end Refusal

/-- Why something may not be opened although a path leads to it. -/
inductive Denial where
  | permission
  /-- The device fails, or whatever else stands in the way. -/
  | failure
  deriving DecidableEq, Repr

def Denial.refusal : Denial → Refusal
  | .permission => .notPermitted
  | .failure => .other

theorem Denial.refusal_injective : Function.Injective Denial.refusal := by
  intro denial other h
  cases denial with
  | permission =>
    cases other with
    | permission => rfl
    | failure => cases h
  | failure =>
    cases other with
    | permission => cases h
    | failure => rfl

structure FileFault where
  refusal : Refusal
  report : FileReport
  deriving DecidableEq, Repr

namespace FileFault

/-- The fault that the operating system reports when it refuses `path`. -/
def of (refusal : Refusal) (path : Text) : FileFault := ⟨refusal, refusal.report path⟩

theorem of_inj {refusal refusal' : Refusal} {path : Text} :
    of refusal path = of refusal' path ↔ refusal = refusal' :=
  ⟨congrArg FileFault.refusal, congrArg (of · path)⟩

def message (f : FileFault) : Text :=
  match f.report with
  | .numbered code text path =>
    "[Errno " ++ Numeral.decimal code ++ "] " ++ text ++ ": " ++ Text.quote path
  | .plain text => text

end FileFault

end HackAssembler
