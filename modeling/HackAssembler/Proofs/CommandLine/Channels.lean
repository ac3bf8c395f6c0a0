import HackAssembler.Proofs.CommandLine.Effects
import HackAssembler.Proofs.CommandLine.Verbosity

/-! Verbosity and the channel of the words change what is shown and where, and not what comes out: two runs that
differ in nothing else, side by side. -/
namespace HackAssembler

/-- A full report is the short one with more behind it. -/
theorem Failure.report_prefix_verbose (f : Failure) (kind : Option Text) :
    f.report false kind <+: f.report true kind := by
  refine ⟨if f.exitCode = .internalError then traceMark else [], ?_⟩
  simp [report]

namespace CommandLine

/-- What is shown of a run that is not verbose is shown of a verbose one too. -/
theorem Execution.Amplifies.outcome {loud quiet : Execution} (h : loud.Amplifies quiet) :
    (loud.outcome true).exitCode = (quiet.outcome false).exitCode ∧
      (loud.outcome true).stdout = (quiet.outcome false).stdout ∧
      (loud.outcome true).tree = (quiet.outcome false).tree ∧
      (quiet.outcome false).stderr <:+: (loud.outcome true).stderr := by
  refine ⟨?_, h.stdout, h.tree, ?_⟩
  · simp only [Execution.outcome, Execution.exitCode, h.failure]
  · simp only [Execution.outcome, h.failure]
    cases quiet.failure with
    | none => exact List.nil_infix
    | some f => exact (f.report_prefix_verbose (some "Assembly")).isInfix.trans (List.suffix_append _ _).isInfix

namespace Request

variable {r : Request} {environment : Environment} {tree : FileTree}

/-- The words are the first output, if they go to a file; the others do not depend on it. -/
theorem artifacts_some (r : Request) (path : Text) (a : Assembly) :
    r.artifacts (some path) a =
      ⟨path, Output.words a.words⟩ :: (r.adding .stdout).artifacts none a := rfl

/-- The outputs beside the words. -/
def sidePaths (r : Request) : List Text := (r.symbols.map plain).toList ++ (r.listing.map plain).toList

theorem paths_artifacts_none (a : Assembly) :
    ((r.adding .stdout).artifacts none a).map Artifact.path = r.sidePaths := by
  rw [paths_artifacts]
  rfl

/-- With the words on the standard output a run succeeds as well, and all that it writes is what it would write in
any case. -/
theorem execute_adding_stdout (hfile : r.toStdout = false)
    (hsuccess : (r.execute environment tree).exitCode = .success)
    (hapart : (r.outputPaths environment).Pairwise (Apart tree)) :
    ∃ path, r.mainOutput? environment = some path ∧
      ((r.adding .stdout).execute environment tree).exitCode = .success ∧
      (r.execute environment tree).tree.read path =
        .ok (Utf8.encode ((r.adding .stdout).execute environment tree).stdout) ∧
      (∀ side ∈ r.sidePaths, ((r.adding .stdout).execute environment tree).tree.read side =
        (r.execute environment tree).tree.read side) ∧
      ∀ place,
        (tree.target path = .ok place →
          ((r.adding .stdout).execute environment tree).tree.content? place = tree.content? place) ∧
        (tree.target path ≠ .ok place →
          ((r.adding .stdout).execute environment tree).tree.content? place =
            (r.execute environment tree).tree.content? place) := by
  obtain ⟨settings, source, a, words, hassembles, hpath, -, hwritten⟩ := execute_of_success hsuccess
  obtain ⟨path, rfl⟩ : ∃ path, words = some path := by
    cases words with
    | none =>
      rw [(wordsPath_eq_none_iff hpath).1 rfl] at hfile
      cases hfile
    | some path => exact ⟨path, rfl⟩
  have hmain : r.mainOutput? environment = some path := by simp only [mainOutput?, hassembles.configured, hpath]
  rw [← paths_artifacts_eq_outputPaths hassembles.configured hpath a] at hapart
  rw [artifacts_some] at hwritten hapart
  obtain ⟨hwords, hside⟩ := List.pairwise_cons.1 hapart
  -- The other run writes the same outputs but the first.
  obtain ⟨final, hrest, hsame⟩ := hwritten.exists_tail
  have hassembles' : (r.adding .stdout).Assembles environment tree settings source a :=
    ⟨hassembles.configured, hassembles.read, hassembles.assembled⟩
  have hpath' : (r.adding .stdout).wordsPath settings = .ok none := rfl
  obtain ⟨hstdout, htree, hfailure⟩ := execute_of_assembles hassembles' hpath'
  rw [hrest.save_eq] at htree hfailure
  rw [hstdout, htree]
  refine ⟨path, hmain, Execution.exitCode_eq_success_iff.2 hfailure,
    hwritten.read_eq hapart List.mem_cons_self, fun side hmem => ?_, fun place => ⟨fun hplace => ?_, hsame place⟩⟩
  · rw [← paths_artifacts_none a] at hmem
    obtain ⟨artifact, hartifact, rfl⟩ := List.mem_map.1 hmem
    rw [hrest.read_eq hside hartifact, hwritten.read_eq hapart (List.mem_cons_of_mem _ hartifact)]
  · exact hrest.content?_eq fun artifact hartifact =>
      hwords artifact.path (List.mem_map_of_mem hartifact) place hplace

end Request

/-- Whatever a run comes to, a verbose one comes to the same and only tells more. -/
theorem Invocation.outcome_adding_verbose (i : Invocation) (environment : Environment) (tree : FileTree) :
    ((i.adding .verbose).outcome environment tree).exitCode = (i.outcome environment tree).exitCode ∧
      ((i.adding .verbose).outcome environment tree).stdout = (i.outcome environment tree).stdout ∧
      ((i.adding .verbose).outcome environment tree).tree = (i.outcome environment tree).tree ∧
      (i.outcome environment tree).stderr <:+: ((i.adding .verbose).outcome environment tree).stderr := by
  cases i with
  | help => exact ⟨rfl, rfl, rfl, List.infix_rfl⟩
  | version => exact ⟨rfl, rfl, rfl, List.infix_rfl⟩
  | assemble r =>
    have hcontradictory : (r.adding .verbose).isContradictory = r.isContradictory := rfl
    cases hverbose : r.verbose with
    | true =>
      have hsame : r.adding .verbose = r := by
        simp [Request.adding, ← hverbose]
      rw [adding, hsame]
      exact ⟨rfl, rfl, rfl, List.infix_rfl⟩
    | false =>
      rw [adding, outcome, outcome, hcontradictory, hverbose]
      cases r.isContradictory with
      | true => exact ⟨rfl, rfl, rfl, List.infix_rfl⟩
      | false => exact (Request.amplifies_execute hverbose environment tree).outcome

/-- A verbose run ends with the same exit code and leaves the same output and the same files. One that prints the words
succeeds where the run that writes them does, if the outputs are different files: it prints what the other one writes,
leaves that file alone, and all other files are the same. Only options count that stand where one is looked for. -/
theorem run_of_added_switch {tree : FileTree} {arguments : List Text} {i : Invocation}
    (h : parse tree arguments = .ok i) (environment : Environment) :
    ∃ o, run environment tree arguments = .ok o ∧
      (∀ option ∈ ([['-', 'v'], "--verbose"] : List Text), ∀ more, Added option arguments more →
        ∃ o', run environment tree more = .ok o' ∧ o'.exitCode = o.exitCode ∧ o'.stdout = o.stdout ∧
          o'.tree = o.tree ∧ o.stderr <:+: o'.stderr) ∧
      ∀ more, Added "--stdout" arguments more →
        match i with
        | .help | .version => run environment tree more = .ok o
        | .assemble r =>
          r.output = none → r.toStdout = false → o.exitCode = .success →
          (r.outputPaths environment).Pairwise (Apart tree) →
          ∃ o' path, run environment tree more = .ok o' ∧ o'.exitCode = .success ∧
            r.mainOutput? environment = some path ∧ o.tree.read path = .ok (Utf8.encode o'.stdout) ∧
            (∀ side ∈ r.sidePaths, o'.tree.read side = o.tree.read side) ∧
            ∀ place, (tree.target path = .ok place → o'.tree.content? place = tree.content? place) ∧
              (tree.target path ≠ .ok place → o'.tree.content? place = o.tree.content? place) := by
  have hrun : ∀ {more : List Text} {j : Invocation}, parse tree more = .ok j →
      run environment tree more = .ok (j.outcome environment tree) := by
    intro more j hj
    rw [run, hj]
    rfl
  refine ⟨i.outcome environment tree, hrun h, fun option hoption more hadded => ?_, fun more hadded => ?_⟩
  · have hmore := parse_of_added (names_verbose hoption) (.inl rfl) hadded h
    exact ⟨_, hrun hmore, i.outcome_adding_verbose environment tree⟩
  · have hmore := parse_of_added names_stdout (.inr rfl) hadded h
    cases i with
    | help => exact hrun hmore
    | version => exact hrun hmore
    | assemble r =>
      intro houtput hfile hsuccess hapart
      have hshown : ∀ q : Request, q.output = none →
          (Invocation.assemble q).outcome environment tree = (q.execute environment tree).outcome q.verbose := by
        intro q hq
        rw [Invocation.outcome, Request.isContradictory, hq, Option.isSome_none, Bool.false_and,
          if_neg Bool.false_ne_true]
      rw [hshown r houtput] at hsuccess ⊢
      obtain ⟨path, hmain, hexit, hprinted, hside, hplaces⟩ := Request.execute_adding_stdout hfile hsuccess hapart
      have hmore' := (hrun hmore).trans (congrArg Except.ok (hshown (r.adding .stdout) houtput))
      exact ⟨_, path, hmore', hexit, hmain, hprinted, hside, hplaces⟩

/-- The words beside the source, and the symbols. -/
def withSymbols : Request where
  input := ['p']
  symbols := some ['s']

def symbolsLine : List Text := [['p'], ['-', 's'], ['s']]

def besideSource : Text := ['p', '.', 'h', 'a', 'c', 'k']

theorem run_of_added_switch_to_symbolsLine :
    ∃ o, run {} sourceTree symbolsLine = .ok o ∧ o.exitCode = .success ∧
      (∃ o', run {} sourceTree [['p'], ['-', 'v'], ['-', 's'], ['s']] = .ok o' ∧ o'.exitCode = .success ∧
        o'.stdout = o.stdout ∧ o'.tree = o.tree) ∧
      ∃ o', run {} sourceTree [['p'], ['-', 's'], ['s'], "--stdout"] = .ok o' ∧ o'.exitCode = .success ∧
        o.tree.read besideSource = .ok (Utf8.encode o'.stdout) ∧ o'.tree.read ['s'] = o.tree.read ['s'] ∧
        o'.tree.content? [besideSource] = none := by
  have hparse : parse sourceTree symbolsLine = .ok (.assemble withSymbols) := by decide +kernel
  have hpositional : isOption ['p'] = false := by decide
  have hoption : isOption ['-', 's'] = true := by decide
  have hvalue : readOption ['-', 's'] = .ok { waiting := some (.symbols, ['-', 's']) } := by decide +kernel
  have hverbose : Added ['-', 'v'] symbolsLine [['p'], ['-', 'v'], ['-', 's'], ['s']] :=
    .behindPositional hpositional .here
  have hstdout : Added "--stdout" symbolsLine [['p'], ['-', 's'], ['s'], "--stdout"] :=
    .behindPositional hpositional (.behindValue hoption (by decide) hvalue .here)
  have hwords : sourceTree.target besideSource = .ok [besideSource] := by decide +kernel
  have hapart : (withSymbols.outputPaths {}).Pairwise (Apart sourceTree) := by
    have hpaths : withSymbols.outputPaths {} = [besideSource, ['s']] := by decide +kernel
    have hsymbols : sourceTree.target ['s'] = .ok [['s']] := by decide +kernel
    rw [hpaths, List.pairwise_pair]
    intro place hplace
    obtain rfl := Except.ok.inj (hwords.symm.trans hplace)
    rw [hsymbols]
    nofun
  have hsuccess : (run {} sourceTree symbolsLine).map Outcome.exitCode = .ok .success := by decide +kernel
  have hmain : withSymbols.mainOutput? {} = some besideSource := by decide +kernel
  obtain ⟨o, hrun, hverboseRuns, hstdoutRuns⟩ := run_of_added_switch hparse {}
  rw [hrun] at hsuccess
  have hexit : o.exitCode = .success := Except.ok.inj hsuccess
  obtain ⟨o', hrun', hexit', hsame, htree, -⟩ := hverboseRuns ['-', 'v'] List.mem_cons_self _ hverbose
  obtain ⟨o'', path, hrun'', hexit'', hpath, hprinted, hside, hplaces⟩ :=
    hstdoutRuns _ hstdout rfl rfl hexit hapart
  obtain rfl : path = besideSource := Option.some.inj (hpath.symm.trans hmain)
  refine ⟨o, hrun, hexit, ⟨o', hrun', hexit'.trans hexit, hsame, htree⟩, o'', hrun'', hexit'', hprinted, ?_, ?_⟩
  · exact hside ['s'] (by decide +kernel)
  · rw [(hplaces [besideSource]).1 hwords]
    decide +kernel

end CommandLine

end HackAssembler
