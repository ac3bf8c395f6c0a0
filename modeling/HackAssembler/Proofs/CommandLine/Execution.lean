import HackAssembler.Proofs.Assembly
import HackAssembler.Proofs.CommandLine.Delivery

/-! How an assembly run of the command line ends: early, when nothing has been written, or at its outputs. -/
namespace HackAssembler

namespace Assembly
open Program

/-- No operating system is asked about a source text that is there. -/
theorem ofSource_ne_file (strict : Bool) (file source : Text) (f : FileFault) :
    ofSource strict file source ≠ .error (.file f) := by
  intro h
  rw [ofSource] at h
  rcases ofSourceLines_cases strict file (Source.clean source) with
    ⟨i, name, -, -, -, hrun⟩ | ⟨-, g, hcollect, hrun⟩ | ⟨-, words, table, -, hrun⟩
  · rw [h] at hrun
    cases hrun
  · rw [h] at hrun
    obtain ⟨i, line, -, houtcome, -⟩ := collect_outcomes_eq_error_iff.1 hcollect
    rcases outcome_eq_error_iff.1 houtcome with ⟨-, rfl⟩ | ⟨-, cause, -, rfl⟩ <;> cases hrun
  · rw [h] at hrun
    cases hrun

end Assembly

theorem FileTree.readText_eq_file_iff {tree : FileTree} {path : Text} {f : FileFault} :
    tree.readText path = .error (.file f) ↔ tree.read path = .error f := by
  unfold readText
  cases tree.read path with
  | error g => simp
  | ok bytes => cases hdecode : Utf8.decode bytes <;> simp [hdecode]

/-- The refusals for which the arguments are to blame. -/
def Refusal.isForeseen : Refusal → Bool
  | .notFound | .notPermitted | .isADirectory => true
  | .notADirectory | .nameTooLong | .embeddedNull | .other => false

theorem Failure.exitCode_file (f : FileFault) :
    (Failure.file f).exitCode = if f.refusal.isForeseen then .invalidArgs else .internalError := by
  rcases f with ⟨refusal, report⟩
  cases refusal <;> rfl

theorem Failure.exitCode_ne_success (f : Failure) : f.exitCode ≠ .success := by
  intro h
  cases f with
  | file f =>
    rw [exitCode_file] at h
    split at h <;> cases h
  | _ => cases h

namespace CommandLine

theorem Execution.exitCode_eq_success_iff {e : Execution} : e.exitCode = .success ↔ e.failure = none := by
  unfold exitCode
  cases e.failure with
  | none => simp
  | some f => simp [f.exitCode_ne_success]

namespace Request

/-- Whether a repeated label is an error: as the command line says, else as the settings say. -/
def strict (r : Request) (settings : Settings) : Bool := r.strictLabels.getD settings.strictLabels

/-- The settings can be used, the input holds a text, and this is what the text assembles to. -/
structure Assembles (r : Request) (environment : Environment) (tree : FileTree) (settings : Settings)
    (source : Text) (a : Assembly) : Prop where
  configured : Settings.ofEnvironment environment = .ok settings
  read : tree.readText (plain r.input) = .ok source
  assembled : Assembly.ofSource (r.strict settings) (plain r.input) source = .ok a

/-- What ends a run before any output is opened. -/
inductive FailsEarly (r : Request) (environment : Environment) (tree : FileTree) : Failure → Prop where
  | setting {f : SettingFault} (h : Settings.ofEnvironment environment = .error f) :
      FailsEarly r environment tree (.setting f)
  | input {settings : Settings} {f : Failure} (h : Settings.ofEnvironment environment = .ok settings)
      (hread : tree.readText (plain r.input) = .error f) : FailsEarly r environment tree f
  | program {settings : Settings} {source : Text} {f : Failure}
      (h : Settings.ofEnvironment environment = .ok settings)
      (hread : tree.readText (plain r.input) = .ok source)
      (hrun : Assembly.ofSource (r.strict settings) (plain r.input) source = .error f) :
      FailsEarly r environment tree f
  | suffix {settings : Settings} {source : Text} {a : Assembly} {f : Path.SuffixFault}
      (h : r.Assembles environment tree settings source a)
      (hpath : r.wordsPath settings = .error (.suffix f)) : FailsEarly r environment tree (.suffix f)

variable {r : Request} {environment : Environment} {tree : FileTree} {settings : Settings} {source : Text}
  {a : Assembly} {words : Option Text} {events : List Event} {f : Failure}

theorem Assembles.unique {settings' : Settings} {source' : Text} {a' : Assembly}
    (h : r.Assembles environment tree settings source a)
    (h' : r.Assembles environment tree settings' source' a') :
    settings = settings' ∧ source = source' ∧ a = a' := by
  obtain rfl := Except.ok.inj (h.configured.symm.trans h'.configured)
  obtain rfl := Except.ok.inj (h.read.symm.trans h'.read)
  exact ⟨rfl, rfl, Except.ok.inj (h.assembled.symm.trans h'.assembled)⟩

theorem wordsPath_eq_error (h : r.wordsPath settings = .error f) : ∃ g, f = .suffix g := by
  unfold wordsPath at h
  split at h
  · cases h
  · split at h
    · cases h
    · split at h
      · cases h
      · exact ⟨_, (Except.error.inj h).symm⟩

theorem wordsPath_eq_none_iff (h : r.wordsPath settings = .ok words) : words = none ↔ r.toStdout = true := by
  unfold wordsPath at h
  cases hstdout : r.toStdout with
  | true =>
    rw [hstdout, if_pos rfl] at h
    obtain rfl := Except.ok.inj h
    simp
  | false =>
    rw [hstdout, if_neg Bool.false_ne_true] at h
    split at h
    · obtain rfl := Except.ok.inj h
      simp
    · split at h
      · obtain rfl := Except.ok.inj h
        simp
      · cases h

theorem assembled_eq (r : Request) (settings : Settings) (tree : FileTree) :
    (r.assembled settings tree).stdout = [] ∧ (r.assembled settings tree).tree = tree ∧
      (r.assembled settings tree).failure = none := by
  simp [assembled, Execution.log]

/-- A session that has just begun, on an input that can be read. -/
theorem assembleFile_start (r : Request) (settings : Settings) (hread : tree.readText (plain r.input) = .ok source) :
    (Session.start settings r.strictLabels).assembleFile tree r.input =
      match Assembly.ofSource (r.strict settings) (plain r.input) source with
      | .error f => (.error f, Session.start settings r.strictLabels)
      | .ok a => (.ok a.words, (Session.start settings r.strictLabels).keep a) := by
  have hplain : (Path.ofText r.input).text = plain r.input := rfl
  rw [Session.assembleFile, hplain, hread]
  rfl

/-- A run without early failure has written its outputs, or those in front of one that was refused. -/
theorem execute_cases (r : Request) (environment : Environment) (tree : FileTree) :
    (∃ f, r.FailsEarly environment tree f ∧ (r.execute environment tree).stdout = [] ∧
      (r.execute environment tree).tree = tree ∧ (r.execute environment tree).failure = some f) ∨
    ∃ settings source a words, r.Assembles environment tree settings source a ∧
      r.wordsPath settings = .ok words ∧
      (r.execute environment tree).stdout = (if r.toStdout then Output.words a.words else []) ∧
      (r.execute environment tree).tree = (save tree (r.artifacts words a)).1 ∧
      (r.execute environment tree).failure = (save tree (r.artifacts words a)).2 := by
  cases hsettings : Settings.ofEnvironment environment with
  | error f =>
    refine .inl ⟨.setting f, .setting hsettings, ?_⟩
    simp only [execute, hsettings, and_self]
  | ok settings =>
    obtain ⟨hstdout, htree, hgoes⟩ := r.assembled_eq settings tree
    cases hread : tree.readText (plain r.input) with
    | error f =>
      refine .inl ⟨f, .input hsettings hread, ?_⟩
      simp only [execute, hsettings, Session.assembleFile_of_unreadable _ hread]
      exact ⟨hstdout, htree, rfl⟩
    | ok source =>
      have hassemble := r.assembleFile_start settings hread
      cases hrun : Assembly.ofSource (r.strict settings) (plain r.input) source with
      | error f =>
        refine .inl ⟨f, .program hsettings hread hrun, ?_⟩
        simp only [execute, hsettings, hassemble, hrun]
        exact ⟨hstdout, htree, rfl⟩
      | ok a =>
        have hassembles : r.Assembles environment tree settings source a := ⟨hsettings, hread, hrun⟩
        simp only [execute, hsettings, hassemble, hrun]
        cases hpath : r.wordsPath settings with
        | error f =>
          obtain ⟨g, rfl⟩ := wordsPath_eq_error hpath
          refine .inl ⟨.suffix g, .suffix hassembles hpath, ?_⟩
          simp only [deliver, hpath]
          exact ⟨hstdout, htree, rfl⟩
        | ok words =>
          have hdelivered := deliver_keep hpath (Session.start settings r.strictLabels) a hstdout hgoes
          rw [htree] at hdelivered
          exact .inr ⟨settings, source, a, words, hassembles, hpath, hdelivered⟩

theorem Assembles.not_failsEarly (h : r.Assembles environment tree settings source a)
    (hpath : r.wordsPath settings = .ok words) (f : Failure) : ¬r.FailsEarly environment tree f := by
  obtain ⟨hconfigured, hread, hassembled⟩ := h
  intro hfails
  cases hfails with
  | setting h' =>
    rw [hconfigured] at h'
    cases h'
  | input h' hread' =>
    rw [hread] at hread'
    cases hread'
  | program h' hread' hrun' =>
    obtain rfl := Except.ok.inj (hconfigured.symm.trans h')
    obtain rfl := Except.ok.inj (hread.symm.trans hread')
    rw [hassembled] at hrun'
    cases hrun'
  | suffix h' hpath' =>
    obtain rfl := Except.ok.inj (hconfigured.symm.trans h'.configured)
    rw [hpath] at hpath'
    cases hpath'

/-- Where an assembly is at hand and the words have a place to go, a run comes to its outputs. -/
theorem execute_of_assembles (h : r.Assembles environment tree settings source a)
    (hpath : r.wordsPath settings = .ok words) :
    (r.execute environment tree).stdout = (if r.toStdout then Output.words a.words else []) ∧
      (r.execute environment tree).tree = (save tree (r.artifacts words a)).1 ∧
      (r.execute environment tree).failure = (save tree (r.artifacts words a)).2 := by
  rcases r.execute_cases environment tree with
    ⟨f, hfails, -⟩ | ⟨settings', source', a', words', h', hpath', hstdout, htree, hfailure⟩
  · exact absurd hfails (h.not_failsEarly hpath f)
  · obtain ⟨rfl, rfl, rfl⟩ := h.unique h'
    obtain rfl := Except.ok.inj (hpath.symm.trans hpath')
    exact ⟨hstdout, htree, hfailure⟩

end Request

/-! ### Runs -/

variable {tree : FileTree} {arguments : List Text} {r : Request}

theorem run_of_contradictory (h : parse tree arguments = .ok (.assemble r)) (hboth : r.isContradictory = true)
    (environment : Environment) :
    run environment tree arguments =
      .ok { exitCode := .invalidArgs, stderr := contradictionText, tree } := by
  rw [run, h, Except.map, Invocation.outcome, if_pos hboth]

theorem run_of_request (h : parse tree arguments = .ok (.assemble r)) (hboth : r.isContradictory = false)
    (environment : Environment) :
    run environment tree arguments = .ok ((r.execute environment tree).outcome r.verbose) := by
  rw [run, h, Except.map, Invocation.outcome, hboth, if_neg Bool.false_ne_true]

/-- An assembly source under a name of one letter. -/
def sourceTree : FileTree where
  files := [([['p']], Utf8.encode ['@', 'x', '\n'])]

end CommandLine

end HackAssembler
