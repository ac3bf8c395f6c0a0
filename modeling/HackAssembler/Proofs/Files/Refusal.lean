import HackAssembler.Proofs.Files.Writing

/-! How paths are refused, above all those that go on behind a regular file. -/
namespace HackAssembler.FileTree

/-- A segment that names something, in no more bytes than a name can have. -/
def IsName (segment : Text) : Prop :=
  Path.isIdle segment = false ∧ segment ≠ ['.', '.'] ∧ (Utf8.encode segment).size ≤ maxNameBytes

/-- The segments lead from one place to another, through directories only. -/
inductive Leads (tree : FileTree) : Place → List Text → Place → Prop where
  | nil {here : Place} : Leads tree here [] here
  | idle {here there : Place} {segment : Text} {rest : List Text} (h : Path.isIdle segment = true)
      (later : Leads tree here rest there) : Leads tree here (segment :: rest) there
  | up {here there : Place} {rest : List Text} (later : Leads tree here.dropLast rest there) :
      Leads tree here (['.', '.'] :: rest) there
  | down {here there : Place} {segment : Text} {rest : List Text} (h : IsName segment)
      (directory : tree.node? (here ++ [segment]) = some .directory)
      (later : Leads tree (here ++ [segment]) rest there) : Leads tree here (segment :: rest) there

variable {tree : FileTree} {here there : Place} {segment : Text} {front rest segments : List Text}

theorem content?_of_node? {place : Place} {content : ByteArray}
    (h : tree.node? place = some (.file content)) : tree.content? place = some content := by
  unfold node? at h
  cases hcontent : tree.content? place with
  | some found => simpa [hcontent] using h
  | none => simp [hcontent] at h

theorem walk_of_directory (h : IsName segment) (hnode : tree.node? (here ++ [segment]) = some .directory)
    (rest : List Text) : tree.walk here (segment :: rest) = tree.walk (here ++ [segment]) rest := by
  obtain ⟨hidle, hup, hshort⟩ := h
  rw [walk, hidle, if_neg Bool.false_ne_true, if_neg hup, if_neg (Nat.not_lt.2 hshort), hnode]

theorem walk_of_file {content : ByteArray} (h : IsName segment)
    (hnode : tree.node? (here ++ [segment]) = some (.file content)) (hrest : rest ≠ []) :
    tree.walk here (segment :: rest) = blocked .notADirectory rest := by
  obtain ⟨hidle, hup, hshort⟩ := h
  have hempty : ¬rest.isEmpty = true := by simpa using hrest
  rw [walk, hidle, if_neg Bool.false_ne_true, if_neg hup, if_neg (Nat.not_lt.2 hshort), hnode]
  exact if_neg hempty

theorem walk_append_of_leads (h : tree.Leads here front there) (rest : List Text) :
    tree.walk here (front ++ rest) = tree.walk there rest := by
  induction h with
  | nil => rfl
  | idle hidle _ ih => rw [List.cons_append, walk, if_pos hidle, ih]
  | up _ ih =>
    have hidle : ¬Path.isIdle ['.', '.'] = true := by decide
    rw [List.cons_append, walk, if_neg hidle, if_pos rfl, ih]
  | down hname hdirectory _ ih =>
    rw [List.cons_append, walk_of_directory hname hdirectory, ih]

theorem blocked_eq_error_iff {refusal refusal' : Refusal} (h : rest ≠ []) :
    blocked refusal rest = .error refusal' ↔ refusal = refusal' ∧ ∃ name ∈ rest, name ≠ [] := by
  have hlast : (!rest.isEmpty && rest.all List.isEmpty) = true ↔ ¬∃ name ∈ rest, name ≠ [] := by simp [h]
  unfold blocked
  by_cases hname : ∃ name ∈ rest, name ≠ []
  · rw [if_neg fun hall => hlast.1 hall hname]
    simp only [Except.error.injEq, and_iff_left hname]
  · rw [if_pos (hlast.2 hname)]
    simp [hname]

/-- A regular file stands where the segments ask for a directory. -/
theorem walk_eq_notADirectory_iff :
    tree.walk here segments = .error .notADirectory ↔
      ∃ front segment rest there content, segments = front ++ segment :: rest ∧
        tree.Leads here front there ∧ IsName segment ∧
        tree.content? (there ++ [segment]) = some content ∧ ∃ name ∈ rest, name ≠ [] := by
  constructor
  · intro h
    fun_induction walk tree here segments with
    | case1 => cases h
    | case2 here segment rest hidle ih =>
      obtain ⟨front, name, later, there, content, rfl, hleads, hfile⟩ := ih h
      exact ⟨segment :: front, name, later, there, content, rfl, .idle hidle hleads, hfile⟩
    | case3 here rest _ ih =>
      obtain ⟨front, name, later, there, content, rfl, hleads, hfile⟩ := ih h
      exact ⟨['.', '.'] :: front, name, later, there, content, rfl, .up hleads, hfile⟩
    | case4 here segment rest =>
      unfold blocked at h
      split at h <;> cases h
    | case5 here segment rest hidle hup hshort hnode ih =>
      have hname : IsName segment := ⟨eq_false_of_ne_true hidle, hup, Nat.not_lt.1 hshort⟩
      obtain ⟨front, name, later, there, content, rfl, hleads, hfile⟩ := ih h
      exact ⟨segment :: front, name, later, there, content, rfl, .down hname hnode hleads, hfile⟩
    | case6 => cases h
    | case7 here segment rest hidle hup hshort content hnode hrest =>
      have hname : IsName segment := ⟨eq_false_of_ne_true hidle, hup, Nat.not_lt.1 hshort⟩
      have hcontent : tree.content? (here ++ [segment]) = some content := content?_of_node? hnode
      rw [blocked_eq_error_iff (by simpa using hrest)] at h
      exact ⟨[], segment, rest, here, content, rfl, .nil, hname, hcontent, h.2⟩
    | case8 => cases h
    | case9 here segment rest =>
      unfold blocked at h
      split at h <;> cases h
  · rintro ⟨front, segment, rest, there, content, rfl, hleads, hname, hcontent, hrest⟩
    have hnode : tree.node? (there ++ [segment]) = some (.file content) := by simp [node?, hcontent]
    have hne : rest ≠ [] := by
      obtain ⟨name, hmem, -⟩ := hrest
      exact List.ne_nil_of_mem hmem
    rw [walk_append_of_leads hleads, walk_of_file hname hnode hne, blocked_eq_error_iff hne]
    exact ⟨rfl, hrest⟩

/-- A regular file stands where the path goes on to something else. -/
def PassesFile (tree : FileTree) (path : Text) : Prop :=
  '\x00' ∉ path ∧ (Utf8.encode path).size ≤ maxPathBytes ∧
    ∃ front segment rest place content, Path.segments path = front ++ segment :: rest ∧
      tree.Leads (tree.start path) front place ∧ IsName segment ∧
      tree.content? (place ++ [segment]) = some content ∧ ∃ name ∈ rest, name ≠ []

theorem resolve_eq_notADirectory_iff {path : Text} :
    tree.resolve path = .error .notADirectory ↔ tree.PassesFile path := by
  unfold resolve PassesFile
  rw [← walk_eq_notADirectory_iff]
  by_cases hnull : '\x00' ∈ path
  · simp [hnull]
  · by_cases hempty : path = []
    · subst hempty
      have hidle : Path.isIdle [] = true := rfl
      simp [walk, hidle]
    · by_cases hlong : maxPathBytes < (Utf8.encode path).size
      · simp [hnull, hempty, hlong, Nat.not_le.2 hlong]
      · simp [hnull, hempty, hlong, start, Nat.not_lt.1 hlong]

/-- Writing under such a path is refused for the file, and so is reading. -/
theorem target_eq_notADirectory_iff {path : Text} :
    tree.target path = .error (.of .notADirectory path) ↔ tree.PassesFile path := by
  have hdenied : ∀ place, opened (tree.writeDenial? place) path place ≠ .error (.of .notADirectory path) := by
    intro place hplace
    obtain ⟨denial, -, hrefusal⟩ := opened_eq_error_iff.1 hplace
    rw [FileFault.of_inj] at hrefusal
    cases denial <;> cases hrefusal
  rw [← resolve_eq_notADirectory_iff]
  unfold target
  cases tree.resolve path with
  | error refusal => cases refusal <;> simp [FileFault.of]
  | ok found =>
    cases found with
    | file place content | vacant place => simp [hdenied place]
    | directory | notDirectory refusal => simp [FileFault.of]

theorem read_of_passesFile {path : Text} (h : tree.PassesFile path) :
    tree.read path = .error (.of .notADirectory path) := by
  rw [read, resolve_eq_notADirectory_iff.2 h]

theorem exists_refusal_of_read {path : Text} {f : FileFault} (h : tree.read path = .error f) :
    ∃ refusal, f = .of refusal path := by
  unfold read at h
  split at h
  · obtain ⟨denial, -, hrefusal⟩ := opened_eq_error_iff.1 h
    exact ⟨_, hrefusal⟩
  all_goals exact ⟨_, (Except.error.inj h).symm⟩

theorem exists_refusal_of_target {path : Text} {f : FileFault} (h : tree.target path = .error f) :
    ∃ refusal, f = .of refusal path := by
  unfold target at h
  split at h
  · obtain ⟨denial, -, hrefusal⟩ := opened_eq_error_iff.1 h
    exact ⟨_, hrefusal⟩
  · obtain ⟨denial, -, hrefusal⟩ := opened_eq_error_iff.1 h
    exact ⟨_, hrefusal⟩
  all_goals exact ⟨_, (Except.error.inj h).symm⟩

/-! ### Denials -/

/-- No way is refused as a place is denied: what is missing, too long or no directory is no matter of permission. -/
theorem walk_ne_denial (tree : FileTree) (here : Place) (segments : List Text) (denial : Denial) :
    tree.walk here segments ≠ .error denial.refusal := by
  have hblocked : ∀ refusal ∈ [Refusal.notFound, .notADirectory, .nameTooLong], ∀ rest : List Text,
      blocked refusal rest ≠ .error denial.refusal := by
    intro refusal hmem rest h
    unfold blocked at h
    split at h
    · cases h
    · rw [Except.error.inj h] at hmem
      cases denial <;> exact absurd hmem (by decide)
  fun_induction walk tree here segments with
  | case1 | case6 | case8 =>
    intro h
    cases h
  | case2 _ _ _ _ ih | case3 _ _ _ ih | case5 _ _ _ _ _ _ _ ih => exact ih
  | case4 | case7 | case9 => exact hblocked _ (by simp) _

/-- A place is denied to writing exactly where a path that leads to it is refused for that reason. -/
theorem target_eq_denial_iff {path : Text} {denial : Denial} :
    tree.target path = .error (.of denial.refusal path) ↔
      ∃ place, ending? (tree.resolve path) = some place ∧ tree.writeDenial? place = some denial := by
  have hway : tree.resolve path ≠ .error denial.refusal := by
    unfold resolve
    split
    · intro h
      cases denial <;> cases h
    · split
      · intro h
        cases denial <;> cases h
      · split
        · intro h
          cases denial <;> cases h
        · exact tree.walk_ne_denial _ _ denial
  unfold target
  cases hresolve : tree.resolve path with
  | error refusal =>
    simp only [ending?, Except.error.injEq, FileFault.of_inj]
    constructor
    · rintro rfl
      exact absurd hresolve hway
    · rintro ⟨place, hplace, -⟩
      cases hplace
  | ok found =>
    cases found with
    | file place content | vacant place =>
      simp only [opened_eq_error_iff, ending?, Found.place?, Option.some.injEq, exists_eq_left', FileFault.of_inj,
        Denial.refusal_injective.eq_iff, exists_eq_right']
    | directory | notDirectory =>
      simp only [ending?, Found.place?, Except.error.injEq, FileFault.of_inj]
      cases denial <;> simp [Denial.refusal]

end HackAssembler.FileTree
