import HackAssembler.Text.Blank
import HackAssembler.Text.Quoted

/-! Settings of an assembly run and their reading from environment variables. -/
namespace HackAssembler

structure Settings where
  /-- A repeated label is an error. -/
  strictLabels : Bool := false
  /-- The file-name extension of the default output. -/
  outputSuffix : Text := ".hack"
  deriving DecidableEq, Repr

/-- A setting whose value cannot be used. -/
structure SettingFault where
  setting : Text
  value : Text
  reason : Text
  deriving DecidableEq, Repr

def SettingFault.message (f : SettingFault) : Text :=
  "invalid " ++ f.setting ++ " " ++ Text.quote f.value ++ ": " ++ f.reason

/-- The environment variables that matter, as far as they are set. -/
structure Environment where
  strictLabels : Option Text := none
  outputSuffix : Option Text := none
  deriving DecidableEq, Repr

namespace Environment

/-- The variable behind `strictLabels`. -/
def strictLabelsVariable : Text := "HACKASM_STRICT_LABELS"

/-- The variable behind `outputSuffix`. -/
def outputSuffixVariable : Text := "HACKASM_OUTPUT_SUFFIX"

end Environment

namespace Settings

/-- The words that switch a setting on, whatever their case and the white space around them. Folding the case of
ASCII letters is enough, because no other character has one of their letters as its lower case. -/
def isAffirmative (value : Text) : Bool :=
  [['1'], ['t', 'r', 'u', 'e'], ['y', 'e', 's'], ['o', 'n']].contains
    ((Text.trim value).map Char.toLower)

/-- A suffix without white space around it and with its leading dot, which may be left out. -/
def normalSuffix (value : Text) : Text :=
  let suffix := Text.trim value
  if suffix.head? = some '.' then suffix else '.' :: suffix

/-- Refuses a suffix that adds nothing to a file name or leads out of it. -/
def checkSuffix (suffix : Text) : Except SettingFault Text :=
  if suffix = ['.'] then
    .error ⟨Environment.outputSuffixVariable, suffix, "suffix has no extension"⟩
  else if suffix.contains '/' || suffix.contains '\\' then
    .error ⟨Environment.outputSuffixVariable, suffix, "suffix contains a path separator"⟩
  else .ok suffix

/-- A variable that is empty counts as not set. -/
def isSet (value : Option Text) : Option Text := value.filter (!·.isEmpty)

/-- The settings that the environment asks for, the default where it is silent. -/
def ofEnvironment (environment : Environment) : Except SettingFault Settings :=
  let strictLabels :=
    match isSet environment.strictLabels with
    | none => false
    | some value => isAffirmative value
  match isSet environment.outputSuffix with
  | none => .ok { strictLabels }
  | some value =>
    match checkSuffix (normalSuffix value) with
    | .error f => .error f
    | .ok outputSuffix => .ok { strictLabels, outputSuffix }

end Settings

end HackAssembler
