import Mathlib.Tactic.Common
import HackAssembler.Files.Tree

/-! What writing a file leaves alone. A write changes the content of one place, and every path leads to the same
place as before. -/
namespace HackAssembler.FileTree

/-- The place where a path can be written, if it leads to one. -/
def Found.place? : Found → Option Place
  | .file place _ => some place
  | .vacant place => some place
  | .directory => none
  | .notDirectory _ => none

/-- The place that a walk ends at, if a file is or can be there. -/
def ending? : Except Refusal Found → Option Place
  | .ok found => found.place?
  | .error _ => none

variable {tree : FileTree} {place here other : Place} {content : ByteArray}

theorem target_eq_ok_iff {path : Text} :
    tree.target path = .ok place ↔
      ending? (tree.resolve path) = some place ∧ tree.writeDenial? place = none := by
  unfold target
  cases tree.resolve path with
  | error refusal => simp [ending?]
  | ok found =>
    cases found with
    | file there content | vacant there =>
      simp only [ending?, Found.place?, opened_eq_ok_iff, Option.some.injEq]
      constructor
      · rintro ⟨hopen, rfl⟩
        exact ⟨rfl, hopen⟩
      · rintro ⟨rfl, hopen⟩
        exact ⟨hopen, rfl⟩
    | directory | notDirectory => simp [ending?, Found.place?]

/-! ### Directories -/

theorem isDirectoryAt_above (h : other <+: here) (hhere : tree.isDirectoryAt here = true) :
    tree.isDirectoryAt other = true := by
  simp only [isDirectoryAt, Bool.or_eq_true, List.any_eq_true, List.isPrefixOf_iff_prefix] at hhere ⊢
  rcases hhere with (hwork | ⟨d, hd, hprefix⟩) | ⟨f, hf, hprefix⟩
  · exact .inl (.inl (h.trans hwork))
  · exact .inl (.inr ⟨d, hd, h.trans hprefix⟩)
  · exact .inr ⟨f, hf, h.trans hprefix⟩

/-- Writing makes a directory of nothing but what leads to the place. -/
theorem isDirectoryAt_put (tree : FileTree) (place : Place) (content : ByteArray) (other : Place) :
    (tree.put place content).isDirectoryAt other = true ↔
      tree.isDirectoryAt other = true ∨ other <+: place := by
  simp only [isDirectoryAt, put, Bool.or_eq_true, List.any_eq_true, List.isPrefixOf_iff_prefix,
    List.mem_cons, List.mem_filter, decide_eq_true_eq]
  constructor
  · rintro ((hwork | hd) | ⟨f, rfl | ⟨hf, -⟩, hprefix⟩)
    · exact .inl (.inl (.inl hwork))
    · exact .inl (.inl (.inr hd))
    · exact .inr hprefix
    · exact .inl (.inr ⟨f, hf, hprefix⟩)
  · rintro (((hwork | hd) | ⟨f, hf, hprefix⟩) | hprefix)
    · exact .inl (.inl hwork)
    · exact .inl (.inr hd)
    · by_cases hplace : f.1 = place
      · rw [hplace] at hprefix
        exact .inr ⟨(place, content), .inl rfl, hprefix⟩
      · exact .inr ⟨f, .inr ⟨hf, by simpa using hplace⟩, hprefix⟩
    · exact .inr ⟨(place, content), .inl rfl, hprefix⟩

/-- Everything on the way to a place is a directory. -/
def IsOpen (tree : FileTree) (place : Place) : Prop :=
  ∀ other, other <+: place → other ≠ place → tree.isDirectoryAt other = true

theorem isOpen_concat (h : tree.isDirectoryAt here = true) (segment : Text) :
    tree.IsOpen (here ++ [segment]) := by
  intro other hprefix hne
  rcases List.prefix_concat_iff.1 hprefix with heq | hhere
  · exact absurd heq hne
  · exact isDirectoryAt_above hhere h

/-! ### Nodes -/

theorem isDirectoryAt_of_node? (h : tree.node? place = some .directory) :
    tree.isDirectoryAt place = true := by
  unfold node? at h
  cases hcontent : tree.content? place with
  | some content => simp [hcontent] at h
  | none => simpa [hcontent] using h

@[simp] theorem node?_put_self (tree : FileTree) (place : Place) (content : ByteArray) :
    (tree.put place content).node? place = some (.file content) := by
  simp [node?]

/-- Writing at an open place changes nothing at any other. -/
theorem node?_put_of_ne (hopen : tree.IsOpen place) (h : other ≠ place) (content : ByteArray) :
    (tree.put place content).node? other = tree.node? other := by
  have hdirectory : (tree.put place content).isDirectoryAt other = tree.isDirectoryAt other := by
    rw [Bool.eq_iff_iff, isDirectoryAt_put]
    constructor
    · rintro (hold | hprefix)
      · exact hold
      · exact hopen other hprefix h
    · exact .inl
  unfold node?
  rw [content?_put_of_ne tree h, hdirectory]

/-! ### Walks -/

@[simp] theorem ending?_blocked (refusal : Refusal) (rest : List Text) :
    ending? (blocked refusal rest) = none := by
  unfold blocked
  split <;> rfl

/-- What a walk finds is there, and the way to it is open. -/
theorem walk_spec {segments : List Text} (hhere : tree.isDirectoryAt here = true)
    (h : ending? (tree.walk here segments) = some place) :
    tree.IsOpen place ∧ tree.node? place ≠ some .directory ∧
      ∀ content, tree.content? place = some content →
        tree.walk here segments = .ok (.file place content) := by
  fun_induction walk tree here segments with
  | case1 => cases h
  | case2 here segment rest _ ih => exact ih hhere h
  | case3 here rest _ ih => exact ih (isDirectoryAt_above (List.dropLast_prefix here) hhere) h
  | case4 => simp at h
  | case5 here segment rest _ _ _ hnode ih => exact ih (isDirectoryAt_of_node? hnode) h
  | case6 here segment rest _ _ _ found hnode =>
    obtain rfl : here ++ [segment] = place := Option.some.inj h
    refine ⟨isOpen_concat hhere segment, by simp [hnode], fun content hcontent => ?_⟩
    obtain rfl : content = found := by simpa [node?, hcontent] using hnode
    rfl
  | case7 => simp at h
  | case8 here segment rest _ _ _ hnode =>
    obtain rfl : here ++ [segment] = place := Option.some.inj h
    refine ⟨isOpen_concat hhere segment, by simp [hnode], fun content hcontent => ?_⟩
    simp [node?, hcontent] at hnode
  | case9 => simp at h

/-- A name that is not passed over leads on, or the way ends there. -/
theorem ending?_walk_cons {segment : Text} (hidle : ¬Path.isIdle segment = true)
    (hup : segment ≠ ['.', '.']) (hlong : ¬maxNameBytes < (Utf8.encode segment).size) (rest : List Text) :
    ending? (tree.walk here (segment :: rest)) =
      match tree.node? (here ++ [segment]) with
      | some .directory => ending? (tree.walk (here ++ [segment]) rest)
      | _ => if rest.isEmpty then some (here ++ [segment]) else none := by
  rw [walk, if_neg hidle, if_neg hup, if_neg hlong]
  rcases tree.node? (here ++ [segment]) with _ | _ | content
  · cases rest.isEmpty
    · exact ending?_blocked _ _
    · rfl
  · rfl
  · cases rest.isEmpty
    · exact ending?_blocked _ _
    · rfl

/-- A way ends at the same place before and after a write. -/
theorem ending?_walk_put (hopen : tree.IsOpen place) (hplace : tree.node? place ≠ some .directory)
    (content : ByteArray) (here : Place) (segments : List Text) :
    ending? ((tree.put place content).walk here segments) = ending? (tree.walk here segments) := by
  induction segments generalizing here with
  | nil => rfl
  | cons segment rest ih =>
    by_cases hidle : Path.isIdle segment = true
    · rw [walk, walk, if_pos hidle, if_pos hidle, ih]
    · by_cases hup : segment = ['.', '.']
      · rw [walk, walk, if_neg hidle, if_neg hidle, if_pos hup, if_pos hup, ih]
      · by_cases hlong : maxNameBytes < (Utf8.encode segment).size
        · rw [walk, walk, if_neg hidle, if_neg hidle, if_neg hup, if_neg hup, if_pos hlong, if_pos hlong]
        · rw [ending?_walk_cons hidle hup hlong, ending?_walk_cons hidle hup hlong, ih]
          by_cases hnext : here ++ [segment] = place
          · rw [hnext, node?_put_self]
            rcases hnode : tree.node? place with _ | _ | found
            · rfl
            · exact absurd hnode hplace
            · rfl
          · rw [node?_put_of_ne hopen hnext]

/-! ### Paths -/

/-- Where the way of a path starts. -/
def start (tree : FileTree) (path : Text) : Place :=
  if path.head? = some Path.separator then [] else tree.workingDirectory

theorem isDirectoryAt_start (tree : FileTree) (path : Text) : tree.isDirectoryAt (tree.start path) = true := by
  have hwork : tree.isDirectoryAt tree.workingDirectory = true := by simp [isDirectoryAt]
  unfold start
  split
  · exact isDirectoryAt_above List.nil_prefix hwork
  · exact hwork

/-- A path is refused on every tree, or it is followed on every tree. -/
theorem resolve_cases (path : Text) :
    (∃ refusal, ∀ tree : FileTree, tree.resolve path = .error refusal) ∨
      ∀ tree : FileTree, tree.resolve path = tree.walk (tree.start path) (Path.segments path) := by
  unfold resolve
  by_cases hnull : path.contains '\x00' = true
  · exact .inl ⟨.embeddedNull, fun _ => if_pos hnull⟩
  · by_cases hempty : path.isEmpty = true
    · exact .inl ⟨.notFound, fun _ => by rw [if_neg hnull, if_pos hempty]⟩
    · by_cases hlong : maxPathBytes < (Utf8.encode path).size
      · exact .inl ⟨.nameTooLong, fun _ => by rw [if_neg hnull, if_neg hempty, if_pos hlong]⟩
      · exact .inr fun _ => by rw [if_neg hnull, if_neg hempty, if_neg hlong, start]

theorem target_spec {path : Text} (h : tree.target path = .ok place) :
    tree.IsOpen place ∧ tree.node? place ≠ some .directory ∧
      ∀ content, tree.content? place = some content → tree.read path = .ok content := by
  obtain ⟨hends, hwritable⟩ := target_eq_ok_iff.1 h
  rcases resolve_cases path with ⟨refusal, hrefused⟩ | hwalk
  · rw [hrefused] at hends
    cases hends
  · rw [hwalk] at hends
    obtain ⟨hopen, hplace, hfound⟩ := walk_spec (tree.isDirectoryAt_start path) hends
    refine ⟨hopen, hplace, fun content hcontent => ?_⟩
    rw [read, hwalk, hfound content hcontent]
    exact opened_eq_ok_iff.2 ⟨readDenial?_eq_none hwritable, rfl⟩

/-- What stands at the place that a path is written to is what is read under the path. -/
theorem read_of_target {path : Text} (h : tree.target path = .ok place)
    (hcontent : tree.content? place = some content) : tree.read path = .ok content :=
  (target_spec h).2.2 content hcontent

/-- A write moves no path, neither its own nor another one. -/
theorem target_put_iff {path other : Text} {place' : Place} (h : tree.target path = .ok place)
    (content : ByteArray) :
    (tree.put place content).target other = .ok place' ↔ tree.target other = .ok place' := by
  obtain ⟨hopen, hplace, -⟩ := target_spec h
  rw [target_eq_ok_iff, target_eq_ok_iff, writeDenial?_put]
  rcases resolve_cases other with ⟨refusal, hrefused⟩ | hwalk
  · rw [hrefused, hrefused]
  · have hstart : (tree.put place content).start other = tree.start other := rfl
    rw [hwalk, hwalk, hstart, ending?_walk_put hopen hplace]

/-- What is written to a path is read under it. -/
theorem read_put {path : Text} (h : tree.target path = .ok place) (content : ByteArray) :
    (tree.put place content).read path = .ok content :=
  read_of_target ((target_put_iff h content).2 h) (content?_put_self tree place content)

theorem write_eq_ok_iff {path : Text} {after : FileTree} :
    tree.write path content = .ok after ↔
      ∃ place, tree.target path = .ok place ∧ after = tree.put place content := by
  unfold write
  cases tree.target path <;> simp [Except.map, eq_comm]

theorem write_eq_error_iff {path : Text} {f : FileFault} :
    tree.write path content = .error f ↔ tree.target path = .error f := by
  unfold write
  cases tree.target path <;> simp [Except.map]

end HackAssembler.FileTree
