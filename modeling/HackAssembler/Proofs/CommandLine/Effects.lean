import HackAssembler.Proofs.CommandLine.Execution
import HackAssembler.Proofs.Output.Symbols
import HackAssembler.Proofs.Suffix

/-! What an assembly run of the command line leaves behind for each exit code. The words, symbols and listing that it
was asked for are those of the input as it was, even where an output takes the place of the input. -/
namespace HackAssembler

namespace CommandLine

namespace Request

/-- The file that the words go to, if they go to one. -/
def mainOutput? (r : Request) (environment : Environment) : Option Text :=
  match Settings.ofEnvironment environment with
  | .error _ => none
  | .ok settings =>
    match r.wordsPath settings with
    | .error _ => none
    | .ok path => path

/-- Every path that a run may write to. -/
def outputPaths (r : Request) (environment : Environment) : List Text :=
  (r.mainOutput? environment).toList ++ (r.symbols.map plain).toList ++ (r.listing.map plain).toList

variable {r : Request} {environment : Environment} {tree final : FileTree} {settings : Settings}
  {source : Text} {a : Assembly} {words : Option Text}

theorem paths_artifacts_eq_outputPaths (h : Settings.ofEnvironment environment = .ok settings)
    (hpath : r.wordsPath settings = .ok words) (a : Assembly) :
    (r.artifacts words a).map Artifact.path = r.outputPaths environment := by
  have hmain : r.mainOutput? environment = words := by simp only [mainOutput?, h, hpath]
  rw [paths_artifacts, outputPaths, hmain]

theorem execute_of_success (h : (r.execute environment tree).exitCode = .success) :
    ∃ settings source a words, r.Assembles environment tree settings source a ∧
      r.wordsPath settings = .ok words ∧
      (r.execute environment tree).stdout = (if r.toStdout then Output.words a.words else []) ∧
      Written tree (r.artifacts words a) (r.execute environment tree).tree := by
  rw [Execution.exitCode_eq_success_iff] at h
  rcases r.execute_cases environment tree with
    ⟨f, -, -, -, hfailure⟩ | ⟨settings, source, a, words, hassembles, hpath, hstdout, htree, hfailure⟩
  · rw [hfailure] at h
    cases h
  · refine ⟨settings, source, a, words, hassembles, hpath, hstdout, ?_⟩
    rcases save_cases tree (r.artifacts words a) with
      ⟨final, hwritten, hsave⟩ | ⟨written, artifact, rest, left, f, -, -, -, hsave⟩
    · rw [htree, hsave]
      exact hwritten
    · rw [h, hsave] at hfailure
      cases hfailure

end Request

end CommandLine

end HackAssembler
