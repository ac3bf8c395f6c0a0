import HackAssembler.Proofs.CommandLine.Saving

/-! The steps by which a run delivers an assembly. Each output is written by the session, and together they come to
what `save` leaves. -/
namespace HackAssembler.CommandLine

/-- What an output of an assembly holds. -/
def Product.content (a : Assembly) : Product → Text
  | .words _ => Output.words a.words
  | .symbols => Output.symbols (a.table.sorted false)
  | .listing => Output.listing a.words a.lines (a.table.sorted false) ++ ['\n']

/-- A session writes what its last run came to. -/
theorem Product.write_keep (s : Session) (a : Assembly) (tree : FileTree) (path : Text) (product : Product) :
    product.write (s.keep a) tree path = tree.write path (Utf8.encode (product.content a)) := by
  cases product <;> rfl

namespace Execution

theorem next_of_failure {e : Execution} {failure : Failure} (h : e.failure = some failure)
    (step : Execution → Execution) : e.next step = e := by
  rw [next, h]

theorem next_of_none {e : Execution} (h : e.failure = none) (step : Execution → Execution) :
    e.next step = step e := by
  rw [next, h]

@[simp] theorem stdout_tell (e : Execution) (verbose : Bool) (events : List Event) :
    (e.tell verbose events).stdout = e.stdout := by
  cases verbose <;> rfl

@[simp] theorem tree_tell (e : Execution) (verbose : Bool) (events : List Event) :
    (e.tell verbose events).tree = e.tree := by
  cases verbose <;> rfl

@[simp] theorem failure_tell (e : Execution) (verbose : Bool) (events : List Event) :
    (e.tell verbose events).failure = e.failure := by
  cases verbose <;> rfl

theorem writeAll_of_failure {e : Execution} {failure : Failure} (h : e.failure = some failure) (s : Session)
    (verbose : Bool) (outputs : List (Product × Text)) : e.writeAll s verbose outputs = e := by
  induction outputs with
  | nil => rfl
  | cons output rest ih =>
    rw [writeAll, List.foldl_cons, next_of_failure h]
    exact ih

/-- The outputs of a run that goes on are saved in order, and nothing is printed meanwhile. -/
theorem writeAll_eq_save {e : Execution} (h : e.failure = none) (s : Session) (a : Assembly) (verbose : Bool)
    (outputs : List (Product × Text)) :
    (e.writeAll (s.keep a) verbose outputs).stdout = e.stdout ∧
      ((e.writeAll (s.keep a) verbose outputs).tree, (e.writeAll (s.keep a) verbose outputs).failure) =
        save e.tree (outputs.map fun output => ⟨output.2, output.1.content a⟩) := by
  induction outputs generalizing e with
  | nil => exact ⟨rfl, congrArg (e.tree, ·) h⟩
  | cons output rest ih =>
    obtain ⟨product, path⟩ := output
    rw [writeAll, List.foldl_cons, next_of_none h, ← writeAll, write, Product.write_keep, List.map_cons, save]
    cases e.tree.write path (Utf8.encode (product.content a)) with
    | error f =>
      rw [writeAll_of_failure rfl]
      exact ⟨rfl, rfl⟩
    | ok tree =>
      have hgoes : (({ e with tree }.log [.wrote product path]).tell verbose [.reported product path]).failure =
          none := (failure_tell ..).trans h
      have hrest := ih hgoes
      simpa only [stdout_tell, tree_tell, log] using hrest

/-- The last step leaves everything but the record alone, since a run that comes to it has a table. -/
theorem next_summarize_keep (e : Execution) (s : Session) (a : Assembly) (verbose : Bool) (wordCount : Nat) :
    (e.next (summarize (s.keep a) verbose wordCount)).stdout = e.stdout ∧
      (e.next (summarize (s.keep a) verbose wordCount)).tree = e.tree ∧
      (e.next (summarize (s.keep a) verbose wordCount)).failure = e.failure := by
  cases h : e.failure with
  | some f =>
    rw [next_of_failure h]
    exact ⟨rfl, rfl, h⟩
  | none =>
    rw [next_of_none h]
    cases verbose <;> exact ⟨rfl, rfl, h⟩

end Execution

namespace Request

/-- The files that a run on an assembly writes, in order; `words` is where the words go. -/
def artifacts (r : Request) (words : Option Text) (a : Assembly) : List Artifact :=
  let symbols := a.table.sorted false
  words.toList.map (⟨·, Output.words a.words⟩) ++ r.symbols.toList.map (⟨plain ·, Output.symbols symbols⟩) ++
    r.listing.toList.map (⟨plain ·, Output.listing a.words a.lines symbols ++ ['\n']⟩)

theorem artifacts_eq_map_outputs (r : Request) (words : Option Text) (a : Assembly) (wordCount : Nat) :
    r.artifacts words a =
      (r.outputs words wordCount).map fun output => ⟨output.2, output.1.content a⟩ := by
  rw [outputs, List.map_append, List.map_append, List.map_map, List.map_map, List.map_map]
  rfl

theorem paths_artifacts (r : Request) (words : Option Text) (a : Assembly) :
    (r.artifacts words a).map Artifact.path =
      words.toList ++ (r.symbols.map plain).toList ++ (r.listing.map plain).toList := by
  unfold artifacts
  rcases words with _ | _ <;> rcases r.symbols with _ | _ <;> rcases r.listing with _ | _ <;> rfl

/-- With an assembly at hand and a place for the words, a run prints them if they are to be printed, and saves its
outputs. -/
theorem deliver_keep {r : Request} {settings : Settings} {words : Option Text}
    (hpath : r.wordsPath settings = .ok words) (s : Session) (a : Assembly) {e : Execution}
    (hstdout : e.stdout = []) (h : e.failure = none) :
    (r.deliver settings (s.keep a) a.words e).stdout = (if r.toStdout then Output.words a.words else []) ∧
      (r.deliver settings (s.keep a) a.words e).tree = (save e.tree (r.artifacts words a)).1 ∧
      (r.deliver settings (s.keep a) a.words e).failure = (save e.tree (r.artifacts words a)).2 := by
  let printed := if r.toStdout then e.print (Output.words a.words) else e
  have hprinted : printed.stdout = (if r.toStdout then Output.words a.words else []) ∧ printed.tree = e.tree ∧
      printed.failure = none := by
    cases hprints : r.toStdout with
    | true => simp [printed, hprints, Execution.print, hstdout, h]
    | false => simp [printed, hprints, hstdout, h]
  obtain ⟨hwords, htree, hgoes⟩ := hprinted
  obtain ⟨hsaved, hsave⟩ :=
    Execution.writeAll_eq_save hgoes s a r.verbose (r.outputs words a.words.length)
  rw [← artifacts_eq_map_outputs, htree] at hsave
  obtain ⟨hsummary, hleft, hends⟩ := (printed.writeAll (s.keep a) r.verbose
    (r.outputs words a.words.length)).next_summarize_keep s a r.verbose a.words.length
  rw [deliver, hpath, ← hsave]
  exact ⟨hsummary.trans (hsaved.trans hwords), hleft, hends⟩

end Request

end HackAssembler.CommandLine
