import HackAssembler.Proofs.Table
import HackAssembler.Session.Call

/-! What a session holds after any sequence of calls: the results of the last run, whatever came before it and
whatever has been read, written or refused since. -/
namespace HackAssembler

/-- The run that a call starts among the files of a tree. Nothing runs if the call assembles nothing or if its file
holds no text that can be read. -/
def Call.run? (strict : Bool) (tree : FileTree) : Call → Option (Except Failure Assembly)
  | .assembleSource file source => some (Assembly.ofSource strict file source)
  | .assembleLines file lines => some (Assembly.ofLines strict file lines)
  | .assembleFile path =>
    match tree.readText (Path.ofText path).text with
    | .error _ => none
    | .ok source => some (Assembly.ofSource strict (Path.ofText path).text source)
  | .settings | .words | .symbols | .table | .listing => none
  | .writeWords _ | .writeSymbols _ _ | .writeListing _ => none

/-- What a session holds: words, table and source lines. -/
abbrev Results := List Text × Option SymbolTable × List SourceLine

/-- What is left of a run: all of it, or nothing if it failed. -/
def Results.ofRun : Except Failure Assembly → Results
  | .ok a => (a.words, some a.table, a.lines)
  | .error _ => ([], none, [])

namespace Session

def results (s : Session) : Results := (s.words, s.table?, s.lines)

theorem results_record (s : Session) (run : Except Failure Assembly) :
    (s.record run).results = .ofRun run := by
  cases run <;> rfl

end Session

namespace Workplace

/-- The calls that start a run, in order, each with the files that it finds. -/
def attempts (w : Workplace) : List Call → List (FileTree × Call)
  | [] => []
  | call :: rest =>
    let later := (w.perform call).2.attempts rest
    if (call.run? w.session.strictLabels w.tree).isSome then (w.tree, call) :: later else later

/-! ### One call -/

theorem perform_of_run {w : Workplace} {call : Call} {run : Except Failure Assembly}
    (h : call.run? w.session.strictLabels w.tree = some run) :
    w.perform call = (run.map fun a => .words a.words, { w with session := w.session.record run }) := by
  have hanswer : (run.map Assembly.words).map Answer.words = run.map fun a => .words a.words := by
    cases run <;> rfl
  rw [← hanswer]
  cases call with
  | assembleSource file source =>
    obtain rfl := Option.some.inj h
    rw [perform, Session.assembleSource, Session.assemble_eq]
    rfl
  | assembleLines file lines =>
    obtain rfl := Option.some.inj h
    rw [perform, Session.assembleLines, Session.assemble_eq]
    rfl
  | assembleFile path =>
    unfold Call.run? at h
    cases hread : w.tree.readText (Path.ofText path).text with
    | error f => simp [hread] at h
    | ok source =>
      simp only [hread] at h
      obtain rfl := Option.some.inj h
      simp only [perform, Session.assembleFile, hread, Session.assembleSource, Session.assemble_eq]
      rfl
  | settings | words | symbols | table | listing | writeWords | writeSymbols | writeListing => cases h

/-- A call that starts no run leaves the session as it is, whether it is answered or fails. -/
theorem session_of_no_run {w : Workplace} {call : Call}
    (h : call.run? w.session.strictLabels w.tree = none) : (w.perform call).2.session = w.session := by
  cases call with
  | assembleSource | assembleLines => cases h
  | assembleFile path =>
    unfold Call.run? at h
    cases hread : w.tree.readText (Path.ofText path).text with
    | error f =>
      rw [perform, Session.assembleFile_of_unreadable _ hread]
      rfl
    | ok source => simp [hread] at h
  | settings | words | symbols | table | listing => rfl
  | writeWords path =>
    rw [perform]
    cases w.session.writeWords w.tree path <;> rfl
  | writeSymbols path withPredefined =>
    rw [perform]
    cases w.session.writeSymbols w.tree path withPredefined <;> rfl
  | writeListing path =>
    rw [perform]
    cases w.session.writeListing w.tree path <;> rfl

theorem strictLabels_perform (w : Workplace) (call : Call) :
    (w.perform call).2.session.strictLabels = w.session.strictLabels := by
  cases h : call.run? w.session.strictLabels w.tree with
  | none => rw [session_of_no_run h]
  | some run => rw [perform_of_run h, Session.strictLabels_record]

/-! ### Many calls -/

theorem strictLabels_performAll (w : Workplace) (calls : List Call) :
    (w.performAll calls).session.strictLabels = w.session.strictLabels := by
  induction calls generalizing w with
  | nil => rfl
  | cons call rest ih => rw [performAll_cons, ih, strictLabels_perform]

/-- The last run decides, and without a run everything stays. -/
theorem results_of_attempts (w : Workplace) (calls : List Call) :
    ((w.attempts calls).getLast? = none ∧ (w.performAll calls).session.results = w.session.results) ∨
      ∃ files call run, (w.attempts calls).getLast? = some (files, call) ∧
        call.run? w.session.strictLabels files = some run ∧
        (w.performAll calls).session.results = .ofRun run := by
  -- On the calls, from any workplace: the run of the first one counts if none of the others starts one.
  induction calls generalizing w with
  | nil => exact .inl ⟨rfl, rfl⟩
  | cons call rest ih =>
    have hstrict := strictLabels_perform w call
    rw [performAll_cons, attempts]
    cases hrun : call.run? w.session.strictLabels w.tree with
    | none =>
      have hrest := ih (w.perform call).2
      rwa [hstrict, session_of_no_run hrun] at hrest
    | some run =>
      simp only [Option.isSome_some, if_true, List.getLast?_cons]
      right
      rcases ih (w.perform call).2 with ⟨hnone, hresults⟩ | ⟨files, last, run', hlast, hrun', hresults⟩
      · refine ⟨w.tree, call, run, by rw [hnone]; rfl, hrun, ?_⟩
        rw [hresults, perform_of_run hrun, Session.results_record]
      · rw [hstrict] at hrun'
        exact ⟨files, last, run', by rw [hlast]; rfl, hrun', hresults⟩

end Workplace

namespace Call

theorem exists_sourceLines_of_run {strict : Bool} {tree : FileTree} {call : Call}
    {run : Except Failure Assembly} (h : call.run? strict tree = some run) :
    ∃ file lines, Assembly.ofSourceLines strict file lines = run := by
  cases call with
  | assembleSource file source | assembleLines file lines => exact ⟨file, _, Option.some.inj h⟩
  | assembleFile path =>
    simp only [run?] at h
    cases hread : tree.readText (Path.ofText path).text with
    | error f => simp [hread] at h
    | ok source =>
      simp only [hread] at h
      exact ⟨_, _, Option.some.inj h⟩
  | settings | words | symbols | table | listing | writeWords | writeSymbols | writeListing => cases h

end Call

namespace Results

/-- Words and lines fit together, and without a table there are neither. -/
def Coherent (results : Results) : Prop :=
  results.1.length = (Labels.instructions (Program.texts results.2.2)).length ∧
    (results.2.1 = none → results.1 = [] ∧ results.2.2 = [])

theorem coherent_ofRun {strict : Bool} {file : Text} {lines : List SourceLine} :
    Coherent (ofRun (Assembly.ofSourceLines strict file lines)) := by
  cases hrun : Assembly.ofSourceLines strict file lines with
  | error f => exact ⟨rfl, fun _ => ⟨rfl, rfl⟩⟩
  | ok a =>
    obtain ⟨-, -, -, -, hlines⟩ := Assembly.exists_labels_of_ofSourceLines hrun
    refine ⟨?_, nofun⟩
    change a.words.length = (Labels.instructions (Program.texts a.lines)).length
    rw [hlines, Assembly.length_words hrun]

end Results

namespace Session

/-- After any calls a session holds the results of the last call that had a text to assemble, as a new session does
that has made this call alone, and nothing if there was none. Every other call leaves the results as they are. -/
theorem results_of_performAll (settings : Settings) (strictLabels : Option Bool) (tree : FileTree)
    (calls : List Call) :
    let w : Workplace := ⟨start settings strictLabels, tree⟩
    let s := (w.performAll calls).session
    ((w.attempts calls).getLast? = none → s.results = ([], none, [])) ∧
    (∀ files call, (w.attempts calls).getLast? = some (files, call) →
      ∃ run, call.run? w.session.strictLabels files = some run ∧ s.results = .ofRun run ∧
        ∀ other : Settings,
          let alone := Workplace.perform ⟨start other (some w.session.strictLabels), files⟩ call
          alone.1 = run.map (fun a => .words a.words) ∧ alone.2.session.results = s.results) ∧
    (∀ call, call.run? w.session.strictLabels (w.performAll calls).tree = none →
      ((w.performAll calls).perform call).2.session.results = s.results) ∧
    s.words.length = (Labels.instructions (Program.texts s.lines)).length ∧
    (s.table? = none → s.words = [] ∧ s.lines = []) := by
  intro w s
  have hcases := w.results_of_attempts calls
  refine ⟨?_, ?_, ?_, ?_⟩
  · intro hnone
    rcases hcases with ⟨-, hresults⟩ | ⟨files, call, run, hlast, -, -⟩
    · exact hresults
    · rw [hnone] at hlast
      cases hlast
  · intro files call hlast
    rcases hcases with ⟨hnone, -⟩ | ⟨files', call', run, hlast', hrun, hresults⟩
    · rw [hnone] at hlast
      cases hlast
    · rw [hlast] at hlast'
      obtain ⟨rfl, rfl⟩ := Prod.mk.inj (Option.some.inj hlast')
      refine ⟨run, hrun, hresults, fun other => ?_⟩
      have halone := @Workplace.perform_of_run
        ⟨start other (some w.session.strictLabels), files⟩ call run hrun
      rw [halone, hresults]
      exact ⟨rfl, results_record _ run⟩
  · intro call hcall
    rw [← w.strictLabels_performAll calls] at hcall
    rw [Workplace.session_of_no_run hcall]
  · have hcoherent : s.results.Coherent := by
      rcases hcases with ⟨-, hresults⟩ | ⟨files, call, run, -, hrun, hresults⟩
      · rw [hresults]
        exact ⟨rfl, fun _ => ⟨rfl, rfl⟩⟩
      · obtain ⟨file, lines, rfl⟩ := Call.exists_sourceLines_of_run hrun
        rw [hresults]
        exact Results.coherent_ofRun
    exact hcoherent

def singleFile : FileTree where
  files := [([['p']], Utf8.encode (Line.address ['3']))]

/-- A run that succeeds, one that fails, and one more that succeeds, before a file that is missing and one that is
overwritten. -/
def interruptedCalls : List Call :=
  [.assembleFile ['p'], .assembleLines ['f'] [['?']],
    .assembleSource ['f'] (Line.label ['L'] ++ '\n' :: Line.address ['L']), .assembleFile ['q'],
    .writeWords ['p'], .listing]

theorem results_of_interruptedCalls :
    let s := (Workplace.performAll ⟨start {} none, singleFile⟩ interruptedCalls).session
    s.words = [Word.ofBits 0] ∧ s.lines.map SourceLine.text = [Line.label ['L'], Line.address ['L']] := by
  intro s
  have hlast : ((Workplace.attempts ⟨start {} none, singleFile⟩ interruptedCalls).getLast?.map
      Prod.snd) = some (.assembleSource ['f'] (Line.label ['L'] ++ '\n' :: Line.address ['L'])) := by
    decide +kernel
  obtain ⟨⟨files, call⟩, hfiles, rfl⟩ := Option.map_eq_some_iff.1 hlast
  obtain ⟨run, hrun, hresults, -⟩ :=
    (results_of_performAll {} none singleFile interruptedCalls).2.1 files _ hfiles
  have hresults : s.results = .ofRun run := hresults
  clear_value s
  obtain rfl := Option.some.inj hrun
  have hwords := congrArg Prod.fst hresults
  have hlines := congrArg (fun results : Results => results.2.2.map SourceLine.text) hresults
  exact ⟨hwords.trans (by decide +kernel), hlines.trans (by decide +kernel)⟩

end Session

end HackAssembler
