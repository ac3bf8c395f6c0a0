import Mathlib.Tactic.Common
import HackAssembler.CommandLine.Run

/-! A switch that is added to a command line: wherever it stands among the arguments, it changes nothing in the request
but itself. -/
namespace HackAssembler.CommandLine

/-- `longer` is `arguments` with one more option at a place where an option is looked for: not in place of a value,
and not behind the end of the options. -/
inductive Added (option : Text) : List Text → List Text → Prop where
  | here {arguments : List Text} : Added option arguments (option :: arguments)
  | behindPositional {argument : Text} {rest longer : List Text} (hargument : isOption argument = false)
      (later : Added option rest longer) : Added option (argument :: rest) (argument :: longer)
  | behindOption {argument : Text} {options : List (Switch × Text)} {rest longer : List Text}
      (hargument : isOption argument = true) (hopen : argument ≠ ['-', '-'])
      (hread : readOption argument = .ok { options }) (later : Added option rest longer) :
      Added option (argument :: rest) (argument :: longer)
  | behindValue {argument value name : Text} {options : List (Switch × Text)} {switch : Switch}
      {rest longer : List Text} (hargument : isOption argument = true) (hopen : argument ≠ ['-', '-'])
      (hread : readOption argument = .ok { options, waiting := some (switch, name) })
      (later : Added option rest longer) :
      Added option (argument :: value :: rest) (argument :: value :: longer)

/-- The request with a switch that is on. -/
def Request.adding (switch : Switch) (r : Request) : Request :=
  { r with
    toStdout := decide (switch = .stdout) || r.toStdout
    verbose := decide (switch = .verbose) || r.verbose }

/-- Help and version do not depend on what else is asked for. -/
def Invocation.adding (switch : Switch) : Invocation → Invocation
  | .help => .help
  | .version => .version
  | .assemble request => .assemble (request.adding switch)

/-- The argument is an option of its own, and all that it says is `switch`. -/
structure Names (option : Text) (switch : Switch) : Prop where
  isOption : isOption option = true
  goesOn : option ≠ ['-', '-']
  read : readOption option = .ok { options := [(switch, [])] }

theorem names_verbose {option : Text} (h : option ∈ ([['-', 'v'], "--verbose"] : List Text)) :
    Names option .verbose := by
  simp only [List.mem_cons, List.not_mem_nil, or_false] at h
  rcases h with rfl | rfl
  · exact ⟨by decide +kernel, by decide +kernel, by decide +kernel⟩
  · exact ⟨by decide +kernel, by decide +kernel, by decide +kernel⟩

theorem names_stdout : Names "--stdout" .stdout :=
  ⟨by decide +kernel, by decide +kernel, by decide +kernel⟩

namespace Arguments

/-- `longer` names one more switch than `shorter`, without a value, and is the same else. -/
structure Inserted (switch : Switch) (shorter longer : Arguments) : Prop where
  positional : longer.positional = shorter.positional
  options : ∃ front back, shorter.options = front ++ back ∧ longer.options = front ++ (switch, []) :: back

/-! ### Reading the arguments one by one -/

section Reading
variable {argument value name : Text} {options : List (Switch × Text)} {switch : Switch} {rest : List Text}

theorem read_positional (hargument : isOption argument = false) :
    Arguments.read (argument :: rest) =
      (Arguments.read rest).map fun more => { more with positional := argument :: more.positional } := by
  have hopen : argument ≠ ['-', '-'] := by
    rintro rfl
    cases hargument
  rw [Arguments.read, if_neg hopen, hargument, if_neg Bool.false_ne_true]
  cases Arguments.read rest <;> rfl

theorem read_option (hargument : isOption argument = true) (hopen : argument ≠ ['-', '-'])
    (hread : readOption argument = .ok { options }) :
    Arguments.read (argument :: rest) =
      (Arguments.read rest).map fun more => { more with options := options ++ more.options } := by
  rw [Arguments.read, if_neg hopen, if_pos hargument, hread]
  dsimp only
  cases Arguments.read rest <;> rfl

theorem read_value (hargument : isOption argument = true) (hopen : argument ≠ ['-', '-'])
    (hread : readOption argument = .ok { options, waiting := some (switch, name) }) :
    Arguments.read (argument :: value :: rest) =
      (Arguments.read rest).map fun more =>
        { more with options := options ++ (switch, value) :: more.options } := by
  rw [Arguments.read, if_neg hopen, if_pos hargument, hread]
  dsimp only
  cases Arguments.read rest <;> rfl

end Reading

section Insertion
variable {switch : Switch} {shorter longer : Arguments}

theorem Inserted.behindPositional (argument : Text) (h : Inserted switch shorter longer) :
    Inserted switch { shorter with positional := argument :: shorter.positional }
      { longer with positional := argument :: longer.positional } :=
  ⟨congrArg (argument :: ·) h.positional, h.options⟩

theorem Inserted.behindOptions (options : List (Switch × Text)) (h : Inserted switch shorter longer) :
    Inserted switch { shorter with options := options ++ shorter.options }
      { longer with options := options ++ longer.options } := by
  obtain ⟨front, back, hshorter, hlonger⟩ := h.options
  exact ⟨h.positional, options ++ front, back, by simp [hshorter], by simp [hlonger]⟩

/-- What is read in front of both keeps the switch in its place. -/
private theorem exists_map_of_inserted {front : Arguments → Arguments}
    (hfront : ∀ {a b : Arguments}, Inserted switch a b → Inserted switch (front a) (front b))
    {read more : Except UsageFault Arguments}
    (h : ∀ {a : Arguments}, read = .ok a → ∃ b, more = .ok b ∧ Inserted switch a b)
    (hread : read.map front = .ok shorter) :
    ∃ longer, more.map front = .ok longer ∧ Inserted switch shorter longer := by
  cases hrest : read with
  | error f =>
    rw [hrest] at hread
    cases hread
  | ok a =>
    rw [hrest] at hread
    obtain rfl := Except.ok.inj hread
    obtain ⟨b, hb, hinserted⟩ := h hrest
    exact ⟨front b, by rw [hb]; rfl, hfront hinserted⟩

/-- A switch that is added to arguments that can be read is read at its place. -/
theorem exists_read_of_added {option : Text} (hoption : Names option switch) {arguments more : List Text}
    (h : Added option arguments more) (hread : Arguments.read arguments = .ok shorter) :
    ∃ longer, Arguments.read more = .ok longer ∧ Inserted switch shorter longer := by
  induction h generalizing shorter with
  | here =>
    rw [read_option hoption.isOption hoption.goesOn hoption.read, hread]
    exact ⟨_, rfl, rfl, [], shorter.options, rfl, rfl⟩
  | behindPositional hargument _ ih =>
    rw [read_positional hargument] at hread ⊢
    exact exists_map_of_inserted (Inserted.behindPositional _) ih hread
  | behindOption hargument hdashes hsettled _ ih =>
    rw [read_option hargument hdashes hsettled] at hread ⊢
    exact exists_map_of_inserted (Inserted.behindOptions _) ih hread
  | @behindValue argument value name options other rest longer hargument hdashes hsettled _ ih =>
    rw [read_value hargument hdashes hsettled] at hread ⊢
    refine exists_map_of_inserted (fun hinserted => ?_) ih hread
    simpa using hinserted.behindOptions (options ++ [(other, value)])

/-! ### What the arguments ask for -/

variable {other : Switch}

theorem Inserted.value? (h : Inserted switch shorter longer) (hother : switch ≠ other) :
    longer.value? other = shorter.value? other := by
  obtain ⟨front, back, hshorter, hlonger⟩ := h.options
  simp [Arguments.value?, hshorter, hlonger, List.find?_append, hother]

theorem Inserted.has (h : Inserted switch shorter longer) (other : Switch) :
    longer.has other = (decide (switch = other) || shorter.has other) := by
  obtain ⟨front, back, hshorter, hlonger⟩ := h.options
  rw [Arguments.has, Arguments.has, hshorter, hlonger, List.any_append, List.any_append, List.any_cons,
    Bool.or_left_comm]

theorem information?_eq_some {a : Arguments} {i : Invocation} (h : a.information? = some i) :
    i = .help ∨ i = .version := by
  obtain ⟨⟨named, value⟩, -, hsome⟩ := List.exists_of_findSome?_eq_some h
  cases named with
  | help => exact .inl (Option.some.inj hsome).symm
  | version => exact .inr (Option.some.inj hsome).symm
  | _ => cases hsome

section Presentation
variable (hswitch : switch = .verbose ∨ switch = .stdout)
include hswitch

theorem Inserted.strictLabels? (h : Inserted switch shorter longer) :
    longer.strictLabels? = shorter.strictLabels? := by
  obtain ⟨front, back, hshorter, hlonger⟩ := h.options
  rw [Arguments.strictLabels?, Arguments.strictLabels?, hshorter, hlonger]
  rcases hswitch with rfl | rfl <;> simp [List.findSome?_append]

theorem Inserted.information? (h : Inserted switch shorter longer) :
    longer.information? = shorter.information? := by
  obtain ⟨front, back, hshorter, hlonger⟩ := h.options
  rw [Arguments.information?, Arguments.information?, hshorter, hlonger]
  rcases hswitch with rfl | rfl <;> simp [List.findSome?_append]

theorem Inserted.value?_of_takesValue (h : Inserted switch shorter longer) (hother : other.takesValue = true) :
    longer.value? other = shorter.value? other := by
  apply h.value?
  rintro rfl
  rcases hswitch with rfl | rfl <;> cases hother

theorem Inserted.outputFault? (h : Inserted switch shorter longer) (tree : FileTree) :
    longer.outputFault? tree = shorter.outputFault? tree := by
  have hvalue : ∀ other : Switch, other.takesValue = true → longer.value? other = shorter.value? other :=
    fun other => h.value?_of_takesValue hswitch
  have hvalueless : switch.takesValue = false := by
    rcases hswitch with rfl | rfl <;> rfl
  obtain ⟨front, back, hshorter, hlonger⟩ := h.options
  unfold Arguments.outputFault?
  rw [hshorter, hlonger]
  simp +contextual only [List.findSome?_append, List.findSome?_cons, hvalueless, hvalue, Bool.false_eq_true,
    if_false]

theorem Inserted.invocation (h : Inserted switch shorter longer) {tree : FileTree} {i : Invocation}
    (hinvocation : shorter.invocation tree = .ok i) : longer.invocation tree = .ok (i.adding switch) := by
  have hinput : longer.input tree = shorter.input tree := by
    rw [Arguments.input, Arguments.input, h.positional]
  have hvalue : ∀ other : Switch, other.takesValue = true → longer.value? other = shorter.value? other :=
    fun other => h.value?_of_takesValue hswitch
  unfold Arguments.invocation at hinvocation ⊢
  rw [h.information? hswitch, h.outputFault? hswitch, hinput, h.strictLabels? hswitch, h.has, h.has,
    hvalue .output rfl, hvalue .symbols rfl, hvalue .listing rfl]
  cases hinformation : shorter.information? with
  | some information =>
    rw [hinformation] at hinvocation
    obtain rfl := Except.ok.inj hinvocation
    rcases information?_eq_some hinformation with rfl | rfl <;> rfl
  | none =>
    rw [hinformation] at hinvocation
    dsimp only at hinvocation ⊢
    cases hfault : shorter.outputFault? tree with
    | some f =>
      rw [hfault] at hinvocation
      cases hinvocation
    | none =>
      rw [hfault] at hinvocation
      dsimp only at hinvocation ⊢
      cases hpath : shorter.input tree with
      | error f =>
        rw [hpath] at hinvocation
        cases hinvocation
      | ok path =>
        rw [hpath] at hinvocation
        obtain rfl := Except.ok.inj hinvocation
        rfl

end Presentation

end Insertion

end Arguments

/-- A command line that can be read stays so, and asks for the same with the switch on. -/
theorem parse_of_added {option : Text} {switch : Switch} (hoption : Names option switch)
    (hswitch : switch = .verbose ∨ switch = .stdout) {arguments more : List Text} (h : Added option arguments more)
    {tree : FileTree} {i : Invocation} (hparse : parse tree arguments = .ok i) :
    parse tree more = .ok (i.adding switch) := by
  unfold parse at hparse ⊢
  cases hread : Arguments.read arguments with
  | error f =>
    rw [hread] at hparse
    cases hparse
  | ok shorter =>
    rw [hread] at hparse
    obtain ⟨longer, hmore, hinserted⟩ := Arguments.exists_read_of_added hoption h hread
    rw [hmore]
    exact hinserted.invocation hswitch hparse

end HackAssembler.CommandLine
