import HackAssembler.CommandLine.Run
import HackAssembler.Proofs.Files.Writing

/-! Outputs written one after the other: what stands in each of them in the end, and what is left if one of them is
refused. -/
namespace HackAssembler.CommandLine

/-- An output file and what it is to hold. -/
structure Artifact where
  path : Text
  content : Text

/-- Writes the outputs one after the other, up to the first that is refused. -/
def save : FileTree → List Artifact → FileTree × Option Failure
  | tree, [] => (tree, none)
  | tree, artifact :: rest =>
    match tree.write artifact.path (Utf8.encode artifact.content) with
    | .error f => (tree, some (.file f))
    | .ok tree => save tree rest

/-- The tree `final` comes from `tree` by writing the outputs in order, none of them refused. -/
inductive Written : FileTree → List Artifact → FileTree → Prop where
  | nil {tree : FileTree} : Written tree [] tree
  | cons {tree final : FileTree} {artifact : Artifact} {rest : List Artifact} {place : Place}
      (target : tree.target artifact.path = .ok place)
      (later : Written (tree.put place (Utf8.encode artifact.content)) rest final) :
      Written tree (artifact :: rest) final

variable {tree between final : FileTree} {artifact : Artifact} {artifacts written rest : List Artifact}
  {place : Place} {path : Text} {f : FileFault}

theorem save_cons_of_target (h : tree.target artifact.path = .ok place) (rest : List Artifact) :
    save tree (artifact :: rest) = save (tree.put place (Utf8.encode artifact.content)) rest := by
  have hwrite : tree.write artifact.path (Utf8.encode artifact.content) =
      .ok (tree.put place (Utf8.encode artifact.content)) :=
    FileTree.write_eq_ok_iff.2 ⟨place, h, rfl⟩
  rw [save, hwrite]

theorem save_cons_of_refused (h : tree.target artifact.path = .error f) (rest : List Artifact) :
    save tree (artifact :: rest) = (tree, some (.file f)) := by
  have hwrite : tree.write artifact.path (Utf8.encode artifact.content) = .error f :=
    FileTree.write_eq_error_iff.2 h
  rw [save, hwrite]

namespace Written

theorem save_append (h : Written tree written between) (rest : List Artifact) :
    save tree (written ++ rest) = save between rest := by
  induction h with
  | nil => rfl
  | cons htarget _ ih => rw [List.cons_append, save_cons_of_target htarget, ih]

theorem save_eq (h : Written tree artifacts final) : save tree artifacts = (final, none) := by
  have happend := h.save_append []
  rwa [List.append_nil] at happend

/-- No path leads elsewhere than before. -/
theorem target_iff (h : Written tree artifacts final) :
    final.target path = .ok place ↔ tree.target path = .ok place := by
  induction h with
  | nil => rfl
  | cons htarget _ ih => rw [ih, FileTree.target_put_iff htarget]

/-- A place that no output leads to keeps its content, or stays without one. -/
theorem content?_eq (h : Written tree artifacts final)
    (hplace : ∀ artifact ∈ artifacts, tree.target artifact.path ≠ .ok place) :
    final.content? place = tree.content? place := by
  induction h with
  | nil => rfl
  | @cons tree final artifact rest here htarget _ ih =>
    have hhere : place ≠ here := fun heq => hplace artifact List.mem_cons_self (heq ▸ htarget)
    rw [ih, FileTree.content?_put_of_ne tree hhere]
    intro other hother hmoved
    rw [FileTree.target_put_iff htarget] at hmoved
    exact hplace other (List.mem_cons_of_mem artifact hother) hmoved

/-- What stands at a place depends only on what stood there and on what was written to it. -/
theorem content?_congr {tree' final' : FileTree} (h : Written tree artifacts final)
    (h' : Written tree' artifacts final')
    (htarget : ∀ path place, tree'.target path = .ok place ↔ tree.target path = .ok place)
    (hplace : tree'.content? place = tree.content? place) : final'.content? place = final.content? place := by
  induction h generalizing tree' with
  | nil =>
    cases h'
    exact hplace
  | @cons tree final artifact rest here hhere _ ih =>
    cases h' with
    | @cons _ _ _ _ here' hhere' hrest' =>
      obtain rfl : here = here' := Except.ok.inj (hhere.symm.trans ((htarget _ _).1 hhere'))
      refine ih hrest' (fun path place => ?_) ?_
      · rw [FileTree.target_put_iff hhere, FileTree.target_put_iff hhere', htarget]
      · by_cases heq : place = here
        · rw [heq, FileTree.content?_put_self, FileTree.content?_put_self]
        · rw [FileTree.content?_put_of_ne tree' heq, FileTree.content?_put_of_ne tree heq, hplace]

end Written

/-- All outputs are written if each of them has a place when the first is opened. -/
theorem exists_written_iff :
    (∃ final, Written tree artifacts final) ↔
      ∀ artifact ∈ artifacts, ∃ place, tree.target artifact.path = .ok place := by
  constructor
  · rintro ⟨final, hwritten⟩
    induction hwritten with
    | nil => nofun
    | cons htarget _ ih =>
      rw [List.forall_mem_cons]
      refine ⟨⟨_, htarget⟩, fun artifact hmem => ?_⟩
      obtain ⟨place, hplace⟩ := ih artifact hmem
      exact ⟨place, (FileTree.target_put_iff htarget _).1 hplace⟩
  · intro h
    induction artifacts generalizing tree with
    | nil => exact ⟨tree, .nil⟩
    | cons artifact rest ih =>
      obtain ⟨⟨here, htarget⟩, hrest⟩ := List.forall_mem_cons.1 h
      obtain ⟨final, hwritten⟩ := @ih (tree.put here (Utf8.encode artifact.content)) fun other hmem => by
        obtain ⟨place, hplace⟩ := hrest other hmem
        exact ⟨place, (FileTree.target_put_iff htarget _).2 hplace⟩
      exact ⟨final, .cons htarget hwritten⟩

/-- Without the first output the others are written all the same, since no write moves a path, and every other place
holds the same in the end. -/
theorem Written.exists_tail (h : Written tree (artifact :: rest) final) :
    ∃ final', Written tree rest final' ∧
      ∀ place, tree.target artifact.path ≠ .ok place → final'.content? place = final.content? place := by
  have hreached := exists_written_iff.1 ⟨final, h⟩
  obtain ⟨final', hrest⟩ := exists_written_iff.2 (List.forall_mem_cons.1 hreached).2
  cases h with
  | @cons _ _ _ _ here htarget hlater =>
    refine ⟨final', hrest, fun place hplace => hlater.content?_congr hrest (fun path place => ?_) ?_⟩
    · exact (FileTree.target_put_iff htarget _).symm
    · have hother : place ≠ here := by
        rintro rfl
        exact hplace htarget
      rw [FileTree.content?_put_of_ne tree hother]

/-- Two paths do not lead to the same place. -/
def Apart (tree : FileTree) (path other : Text) : Prop :=
  ∀ place, tree.target path = .ok place → tree.target other ≠ .ok place

namespace Written

/-- Outputs apart from each other hold what was written to them, whichever of them came last. -/
theorem read_eq (h : Written tree artifacts final)
    (hapart : (artifacts.map Artifact.path).Pairwise (Apart tree)) (hmem : artifact ∈ artifacts) :
    final.read artifact.path = .ok (Utf8.encode artifact.content) := by
  induction h with
  | nil => cases hmem
  | @cons tree final first rest here htarget hrest ih =>
    obtain ⟨hfirst, hlater⟩ := List.pairwise_cons.1 hapart
    rcases List.mem_cons.1 hmem with rfl | hmem
    · have hkept : final.content? here = some (Utf8.encode artifact.content) := by
        rw [hrest.content?_eq, FileTree.content?_put_self]
        intro other hother hmoved
        rw [FileTree.target_put_iff htarget] at hmoved
        exact hfirst other.path (List.mem_map_of_mem hother) here htarget hmoved
      refine FileTree.read_of_target ?_ hkept
      rw [hrest.target_iff, FileTree.target_put_iff htarget]
      exact htarget
    · refine ih (hlater.imp fun hpair place hmoved => ?_) hmem
      rw [ne_eq, FileTree.target_put_iff htarget]
      exact hpair place ((FileTree.target_put_iff htarget _).1 hmoved)

end Written

/-- Either all outputs are written, or those in front of the first that is refused. -/
theorem save_cases (tree : FileTree) (artifacts : List Artifact) :
    (∃ final, Written tree artifacts final ∧ save tree artifacts = (final, none)) ∨
      ∃ written artifact rest left f, artifacts = written ++ artifact :: rest ∧
        Written tree written left ∧ left.target artifact.path = .error f ∧
        save tree artifacts = (left, some (.file f)) := by
  induction artifacts generalizing tree with
  | nil => exact .inl ⟨tree, .nil, rfl⟩
  | cons artifact rest ih =>
    cases htarget : tree.target artifact.path with
    | error f =>
      exact .inr ⟨[], artifact, rest, tree, f, rfl, .nil, htarget, save_cons_of_refused htarget rest⟩
    | ok place =>
      rw [save_cons_of_target htarget]
      rcases ih (tree.put place (Utf8.encode artifact.content)) with
        ⟨final, hwritten, hsave⟩ | ⟨written, refused, later, left, f, rfl, hwritten, hrefused, hsave⟩
      · exact .inl ⟨final, .cons htarget hwritten, hsave⟩
      · exact .inr ⟨artifact :: written, refused, later, left, f, rfl, .cons htarget hwritten, hrefused, hsave⟩

end HackAssembler.CommandLine
