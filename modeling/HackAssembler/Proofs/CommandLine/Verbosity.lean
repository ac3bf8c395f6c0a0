import HackAssembler.Proofs.CommandLine.Delivery
import HackAssembler.Proofs.CommandLine.Switches

/-! A verbose run beside the same run without that switch: step by step it does the same and tells more. -/
namespace HackAssembler

/-- What a run needs that counts the symbols in the end: an assembly that succeeds leaves a table. -/
theorem Session.exists_table_of_assembleFile {s after : Session} {tree : FileTree} {path : Text} {words : List Text}
    (h : s.assembleFile tree path = (.ok words, after)) : ∃ table, after.table? = some table := by
  rw [assembleFile] at h
  cases hread : tree.readText (Path.ofText path).text with
  | error f =>
    rw [hread] at h
    cases h
  | ok source =>
    rw [hread] at h
    simp only [assembleSource, assemble_eq] at h
    obtain ⟨hwords, rfl⟩ := Prod.mk.inj h
    cases hrun : Assembly.ofSourceLines s.strictLabels (Path.ofText path).text (Source.clean source) with
    | error f =>
      rw [hrun] at hwords
      cases hwords
    | ok a => exact ⟨a.table, rfl⟩

namespace CommandLine

/-- Two runs that differ in nothing but what they tell; the first of them leaves out nothing of the second. -/
structure Execution.Amplifies (loud quiet : Execution) : Prop where
  events : quiet.events.Sublist loud.events
  stdout : loud.stdout = quiet.stdout
  tree : loud.tree = quiet.tree
  failure : loud.failure = quiet.failure

namespace Execution.Amplifies

variable {loud quiet : Execution}

theorem refl (e : Execution) : e.Amplifies e := ⟨List.Sublist.refl _, rfl, rfl, rfl⟩

section Steps
variable (h : loud.Amplifies quiet)
include h

theorem log (events : List Event) : (loud.log events).Amplifies (quiet.log events) :=
  ⟨h.events.append (List.Sublist.refl events), h.stdout, h.tree, h.failure⟩

/-- Here the two runs part. -/
theorem tell (events : List Event) : (loud.tell true events).Amplifies (quiet.tell false events) :=
  ⟨h.events.trans (List.sublist_append_left _ _), h.stdout, h.tree, h.failure⟩

theorem fail (f : Failure) : (loud.fail f).Amplifies (quiet.fail f) := ⟨h.events, h.stdout, h.tree, rfl⟩

theorem print (text : Text) : (loud.print text).Amplifies (quiet.print text) :=
  ⟨h.events, congrArg (· ++ text) h.stdout, h.tree, h.failure⟩

theorem next {step step' : Execution → Execution} (hstep : (step loud).Amplifies (step' quiet)) :
    (loud.next step).Amplifies (quiet.next step') := by
  cases hfailure : quiet.failure with
  | none => rwa [next_of_none (h.failure.trans hfailure), next_of_none hfailure]
  | some f => rwa [next_of_failure (h.failure.trans hfailure), next_of_failure hfailure]

theorem write (s : Session) (output : Product × Text) :
    (Execution.write s true loud output).Amplifies (Execution.write s false quiet output) := by
  obtain ⟨product, path⟩ := output
  rw [Execution.write, Execution.write, h.tree]
  cases product.write s quiet.tree path with
  | error f => exact h.fail (.file f)
  | ok tree =>
    have hput : Amplifies { loud with tree } { quiet with tree } := ⟨h.events, h.stdout, rfl, h.failure⟩
    exact (hput.log [.wrote product path]).tell [.reported product path]

theorem writeAll (s : Session) (outputs : List (Product × Text)) :
    (loud.writeAll s true outputs).Amplifies (quiet.writeAll s false outputs) := by
  induction outputs generalizing loud quiet with
  | nil => exact h
  | cons output rest ih => exact ih (h.next (h.write s output))

theorem summarize {s : Session} {table : SymbolTable} (htable : s.table? = some table) (wordCount : Nat) :
    (Execution.summarize s true wordCount loud).Amplifies (Execution.summarize s false wordCount quiet) := by
  simp only [Execution.summarize, htable]
  exact h.tell _

end Steps

end Execution.Amplifies

namespace Request

variable {r : Request} (h : r.verbose = false)
include h

theorem amplifies_deliver {s : Session} {table : SymbolTable} (htable : s.table? = some table) (settings : Settings)
    (words : List Text) {loud quiet : Execution} (hbefore : loud.Amplifies quiet) :
    ((r.adding .verbose).deliver settings s words loud).Amplifies (r.deliver settings s words quiet) := by
  have hpath : (r.adding .verbose).wordsPath settings = r.wordsPath settings := rfl
  have hverbose : (r.adding .verbose).verbose = true := rfl
  have hprints : (r.adding .verbose).toStdout = r.toStdout := rfl
  have houtputs : ∀ path, (r.adding .verbose).outputs path words.length = r.outputs path words.length :=
    fun _ => rfl
  rw [deliver, deliver, hpath, hverbose, h, hprints]
  cases r.wordsPath settings with
  | error f => exact hbefore.fail f
  | ok path =>
    dsimp only
    rw [houtputs]
    have hprinted : (if r.toStdout then loud.print (Output.words words) else loud).Amplifies
        (if r.toStdout then quiet.print (Output.words words) else quiet) := by
      cases r.toStdout with
      | true => exact hbefore.print _
      | false => exact hbefore
    have hwritten := hprinted.writeAll s (r.outputs path words.length)
    exact hwritten.next (hwritten.summarize htable words.length)

theorem amplifies_assembled (settings : Settings) (tree : FileTree) :
    ((r.adding .verbose).assembled settings tree).Amplifies (r.assembled settings tree) := by
  have hverbose : (r.adding .verbose).verbose = true := rfl
  rw [assembled, assembled, h, hverbose]
  exact ((Execution.Amplifies.refl _).tell _).log _

/-- Whatever a run comes to, a verbose one comes to the same. -/
theorem amplifies_execute (environment : Environment) (tree : FileTree) :
    ((r.adding .verbose).execute environment tree).Amplifies (r.execute environment tree) := by
  have hstrict : (r.adding .verbose).strictLabels = r.strictLabels := rfl
  have hinput : (r.adding .verbose).input = r.input := rfl
  rw [execute, execute, hstrict, hinput]
  cases Settings.ofEnvironment environment with
  | error f => exact .refl _
  | ok settings =>
    have hassembled := amplifies_assembled h settings tree
    dsimp only
    cases hrun : (Session.start settings r.strictLabels).assembleFile tree r.input with
    | mk answer session =>
      cases answer with
      | error f => exact hassembled.fail f
      | ok words =>
        obtain ⟨table, htable⟩ := Session.exists_table_of_assembleFile hrun
        exact amplifies_deliver h htable settings words hassembled

end Request

end CommandLine

end HackAssembler
