import HackAssembler.Proofs.CommandLine.Execution
import HackAssembler.Proofs.Files.Refusal

/-! Runs of the command line that end because the operating system refuses a file: which exit code answers them, what
is said, and what is left in the files. -/
namespace HackAssembler

namespace FileFault

/-- The words for a refused path hold nothing that a terminal would take for a control. -/
theorem escape_not_mem_message (refusal : Refusal) (path : Text) :
    Text.escape ∉ (FileFault.of refusal path).message := by
  have hquote : Text.escape ∉ Text.quote path := by
    intro h
    have hvisible := Text.isInvisible_of_mem_quote h
    rw [Text.isInvisible_of_control (by decide)] at hvisible
    cases hvisible
  have hopening : ∀ code ∈ ([2, 13, 20, 21, 36, 5] : List Int), Text.escape ∉ Numeral.decimal code := by decide
  cases refusal <;>
    simp [FileFault.of, Refusal.report, message, Text.ofString_eq, Text.escape, hquote, hopening]

end FileFault

namespace Failure

/-- What is said about a refused path: that it is an error, and the words of the operating system. -/
def refusalText (refusal : Refusal) (path : Text) (verbose : Bool) : Text :=
  (if refusal.isForeseen then ("Error: " : Text) else "Internal error: ") ++
    (FileFault.of refusal path).message ++ ['\n'] ++
    (if verbose && !refusal.isForeseen then traceMark else [])

theorem report_file (refusal : Refusal) (path : Text) (verbose : Bool) (kind : Option Text) :
    (Failure.file (.of refusal path)).report verbose kind = refusalText refusal path verbose := by
  have hmessage := FileFault.escape_not_mem_message refusal path
  have hcode := exitCode_file (.of refusal path)
  unfold report refusalText
  cases hforeseen : refusal.isForeseen with
  | true =>
    have hcode : (Failure.file (.of refusal path)).exitCode = .invalidArgs := by
      rw [hcode]
      exact if_pos hforeseen
    have hplain : Text.escape ∉ ("Error: " : Text) ++ (FileFault.of refusal path).message := by
      simp [hmessage, Text.escape, Text.ofString_eq]
    rw [hcode]
    simp [message, Text.dropControls_eq_self hplain]
  | false =>
    have hcode : (Failure.file (.of refusal path)).exitCode = .internalError := by
      rw [hcode]
      exact if_neg (ne_true_of_eq_false hforeseen)
    have hplain : Text.escape ∉ ("Internal error: " : Text) ++ (FileFault.of refusal path).message := by
      simp [hmessage, Text.escape, Text.ofString_eq]
    rw [hcode]
    simp [message, Text.dropControls_eq_self hplain]

theorem exists_file_of_invalidArgs {f : Failure} (h : f.exitCode = .invalidArgs) :
    ∃ g, f = .file g ∧ g.refusal.isForeseen = true := by
  cases f with
  | file g =>
    rw [exitCode_file] at h
    split at h
    next hforeseen => exact ⟨g, rfl, hforeseen⟩
    next => cases h
  | _ => cases h

end Failure

namespace CommandLine

namespace Request

/-- The operating system refuses a path of a run: the input cannot be read, or an output cannot be written when all
outputs in front of it have been. `left` are the files at that time. -/
inductive Refused (r : Request) (environment : Environment) (tree : FileTree) :
    FileTree → Text → Refusal → Prop where
  | input {settings : Settings} {refusal : Refusal} (hboth : r.isContradictory = false)
      (h : Settings.ofEnvironment environment = .ok settings)
      (hread : tree.read (plain r.input) = .error (.of refusal (plain r.input))) :
      Refused r environment tree tree (plain r.input) refusal
  | output {settings : Settings} {source : Text} {a : Assembly} {words : Option Text}
      {written rest : List Artifact} {artifact : Artifact} {left : FileTree} {refusal : Refusal}
      (hboth : r.isContradictory = false) (h : r.Assembles environment tree settings source a)
      (hpath : r.wordsPath settings = .ok words)
      (hsplit : r.artifacts words a = written ++ artifact :: rest) (hwritten : Written tree written left)
      (htarget : left.target artifact.path = .error (.of refusal artifact.path)) :
      Refused r environment tree left artifact.path refusal

variable {r : Request} {environment : Environment} {tree left : FileTree} {path : Text} {refusal : Refusal}
  {settings : Settings} {source : Text} {a : Assembly} {words : Option Text}

theorem FailsEarly.eq_of_unreadable {f g : Failure} (h : Settings.ofEnvironment environment = .ok settings)
    (hread : tree.readText (plain r.input) = .error f) (hfails : r.FailsEarly environment tree g) : g = f := by
  cases hfails with
  | setting h' =>
    rw [h] at h'
    cases h'
  | input h' hread' => exact Except.error.inj (hread'.symm.trans hread)
  | program h' hread' hrun' =>
    rw [hread] at hread'
    cases hread'
  | suffix h' hpath' =>
    have hread' := h'.read
    rw [hread] at hread'
    cases hread'

/-- A run ends at the path that is refused, and leaves what it had written. -/
theorem execute_of_refused (h : r.Refused environment tree left path refusal) :
    (r.execute environment tree).tree = left ∧
      (r.execute environment tree).failure = some (.file (.of refusal path)) := by
  cases h with
  | input hboth h hread =>
    have hunreadable := FileTree.readText_eq_file_iff.2 hread
    rcases r.execute_cases environment tree with
      ⟨f, hfails, -, htree, hfailure⟩ | ⟨settings, source, a, words, hassembles, -, -, -, -⟩
    · obtain rfl := hfails.eq_of_unreadable h hunreadable
      exact ⟨htree, hfailure⟩
    · have htext := hassembles.read
      rw [hunreadable] at htext
      cases htext
  | output hboth h hpath hsplit hwritten htarget =>
    obtain ⟨-, htree, hfailure⟩ := execute_of_assembles h hpath
    rw [hsplit, hwritten.save_append, save_cons_of_refused htarget] at htree hfailure
    exact ⟨htree, hfailure⟩

/-- Nothing but a refused path ends a run with a fault of files. -/
theorem refused_of_execute {f : FileFault} (hboth : r.isContradictory = false)
    (h : (r.execute environment tree).failure = some (.file f)) :
    ∃ left path refusal, f = .of refusal path ∧ r.Refused environment tree left path refusal := by
  rcases r.execute_cases environment tree with
    ⟨g, hfails, -, -, hfailure⟩ | ⟨settings, source, a, words, hassembles, hpath, -, -, hfailure⟩
  · obtain rfl : g = .file f := Option.some.inj (hfailure.symm.trans h)
    cases hfails with
    | input h' hread' =>
      have hread := FileTree.readText_eq_file_iff.1 hread'
      obtain ⟨refusal, rfl⟩ := FileTree.exists_refusal_of_read hread
      exact ⟨tree, plain r.input, refusal, rfl, .input hboth h' hread⟩
    | program h' hread' hrun' => exact absurd hrun' (Assembly.ofSource_ne_file _ _ _ f)
  · rw [hfailure] at h
    rcases save_cases tree (r.artifacts words a) with
      ⟨final, -, hsave⟩ | ⟨written, artifact, rest, left, g, hsplit, hwritten, htarget, hsave⟩
    · rw [hsave] at h
      cases h
    · rw [hsave] at h
      obtain rfl := Failure.file.inj (Option.some.inj h)
      obtain ⟨refusal, rfl⟩ := FileTree.exists_refusal_of_target htarget
      exact ⟨left, artifact.path, refusal, rfl, .output hboth hassembles hpath hsplit hwritten htarget⟩

theorem refusal_of_passesFile (h : r.Refused environment tree left path refusal) (hfile : left.PassesFile path) :
    refusal = .notADirectory := by
  cases h with
  | input _ _ hread =>
    have hnot := FileTree.read_of_passesFile hfile
    exact (FileFault.mk.inj (Except.error.inj (hread.symm.trans hnot))).1
  | output _ _ _ _ _ htarget =>
    have hnot := FileTree.target_eq_notADirectory_iff.2 hfile
    exact (FileFault.mk.inj (Except.error.inj (htarget.symm.trans hnot))).1

theorem Refused.isContradictory_eq_false (h : r.Refused environment tree left path refusal) :
    r.isContradictory = false := by
  cases h with
  | input hboth => exact hboth
  | output hboth => exact hboth

theorem stderr_of_refused (h : r.Refused environment tree left path refusal) (verbose : Bool) :
    ∃ progress, (verbose = false → progress = []) ∧
      ((r.execute environment tree).outcome verbose).stderr =
        progress ++ Failure.refusalText refusal path verbose := by
  obtain ⟨-, hfailure⟩ := execute_of_refused h
  simp only [Execution.outcome, hfailure, Failure.report_file]
  refine ⟨_, ?_, rfl⟩
  intro hquiet
  exact if_neg (ne_true_of_eq_false hquiet)

/-- Only a refused path makes a run blame its arguments. -/
theorem refused_of_invalidArgs (hboth : r.isContradictory = false)
    (h : (r.execute environment tree).exitCode = .invalidArgs) :
    ∃ left path refusal, r.Refused environment tree left path refusal ∧ refusal.isForeseen = true := by
  unfold Execution.exitCode at h
  cases hfailure : (r.execute environment tree).failure with
  | none =>
    rw [hfailure] at h
    cases h
  | some f =>
    rw [hfailure] at h
    obtain ⟨g, rfl, hforeseen⟩ := Failure.exists_file_of_invalidArgs h
    obtain ⟨left, path, refusal, rfl, hrefused⟩ := refused_of_execute hboth hfailure
    exact ⟨left, path, refusal, hrefused, hforeseen⟩

end Request

/-- A refused path ends a run with what was written before it, and the message names the refusal. The arguments are to
blame if something is missing, not permitted or a directory. Any other refusal counts as an internal error, above all
that of a path that goes on behind a regular file. -/
theorem answer_of_refusal {tree : FileTree} {arguments : List Text} {r : Request}
    (h : parse tree arguments = .ok (.assemble r)) (environment : Environment) :
    ∃ o, run environment tree arguments = .ok o ∧
      (∀ left path refusal, r.Refused environment tree left path refusal →
        o.tree = left ∧
        o.exitCode = (if refusal.isForeseen then .invalidArgs else .internalError) ∧
        (left.PassesFile path → o.exitCode = .internalError) ∧
        ∃ progress, (r.verbose = false → progress = []) ∧
          o.stderr = progress ++ Failure.refusalText refusal path r.verbose) ∧
      (o.exitCode = .invalidArgs → r.isContradictory = true ∨
        ∃ left path refusal, r.Refused environment tree left path refusal ∧ refusal.isForeseen = true) := by
  cases hboth : r.isContradictory with
  | true =>
    refine ⟨_, run_of_contradictory h hboth environment, ?_, fun _ => .inl rfl⟩
    intro left path refusal hrefused
    rw [hrefused.isContradictory_eq_false] at hboth
    cases hboth
  | false =>
    refine ⟨_, run_of_request h hboth environment, ?_, ?_⟩
    · intro left path refusal hrefused
      obtain ⟨htree, hfailure⟩ := Request.execute_of_refused hrefused
      have hexit : (r.execute environment tree).exitCode =
          if refusal.isForeseen then .invalidArgs else .internalError := by
        rw [Execution.exitCode, hfailure]
        exact Failure.exitCode_file (.of refusal path)
      refine ⟨htree, hexit, fun hfile => ?_, Request.stderr_of_refused hrefused r.verbose⟩
      obtain rfl := Request.refusal_of_passesFile hrefused hfile
      exact hexit
    · intro hexit
      exact .inr (Request.refused_of_invalidArgs hboth hexit)

/-- The words are to go behind the source, as if it were a directory. -/
def throughInput : Request where
  input := ['p']
  output := some ['p', '/', 'h']

theorem answer_of_throughInput :
    ∃ o, run {} sourceTree [['p'], ['-', 'o'], ['p', '/', 'h']] = .ok o ∧
      throughInput.Refused {} sourceTree sourceTree ['p', '/', 'h'] .notADirectory ∧
      sourceTree.PassesFile ['p', '/', 'h'] ∧ o.exitCode = .internalError ∧
      o.stderr = ("Internal error: " : Text) ++
        (FileFault.of .notADirectory ['p', '/', 'h']).message ++ ['\n'] := by
  have hparse : parse sourceTree [['p'], ['-', 'o'], ['p', '/', 'h']] = .ok (.assemble throughInput) := by
    decide +kernel
  have htarget : sourceTree.target ['p', '/', 'h'] = .error (.of .notADirectory ['p', '/', 'h']) := by
    decide +kernel
  have hread : sourceTree.readText ['p'] = .ok ['@', 'x', '\n'] := by decide +kernel
  have hok : (Assembly.ofSource false ['p'] ['@', 'x', '\n']).isOk = true := by decide +kernel
  cases hrun : Assembly.ofSource false ['p'] ['@', 'x', '\n'] with
  | error f =>
    rw [hrun] at hok
    cases hok
  | ok a =>
    have hassembles : throughInput.Assembles {} sourceTree {} ['@', 'x', '\n'] a := ⟨rfl, hread, hrun⟩
    have hpath : throughInput.wordsPath {} = .ok (some ['p', '/', 'h']) := by decide +kernel
    have hsplit : throughInput.artifacts (some ['p', '/', 'h']) a =
        [] ++ [⟨['p', '/', 'h'], Output.words a.words⟩] := rfl
    have hrefused : throughInput.Refused {} sourceTree sourceTree ['p', '/', 'h'] .notADirectory :=
      .output rfl hassembles hpath hsplit .nil htarget
    obtain ⟨o, hrun, hanswer, -⟩ := answer_of_refusal hparse {}
    obtain ⟨-, hexit, -, progress, hquiet, hstderr⟩ := hanswer _ _ _ hrefused
    refine ⟨o, hrun, hrefused, FileTree.target_eq_notADirectory_iff.1 htarget, hexit, ?_⟩
    rw [hstderr, hquiet rfl]
    simp [Failure.refusalText, Refusal.isForeseen, throughInput]

/-- A source beside a file that may be read but not written. -/
def protectedTree : FileTree :=
  { sourceTree.put [['h']] ByteArray.empty with unwritable := [([['h']], .permission)] }

example : protectedTree.target ['h'] = .error (.of .notPermitted ['h']) ∧
    (run {} protectedTree [['p'], ['-', 'o'], ['h']]).map Outcome.exitCode = .ok .invalidArgs := by
  decide +kernel

end CommandLine

end HackAssembler
