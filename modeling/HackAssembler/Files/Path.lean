import HackAssembler.Text.Basic

/-! Paths as text: their segments, their plain form, and their file-name extension. -/
namespace HackAssembler

/-- A path in plain form: a root or none, and the names below it, none of which is empty or a single dot. -/
structure Path where
  root : Text
  parts : List Text
  deriving DecidableEq, Repr

namespace Path

abbrev separator : Char := '/'

private def addToSegments (c : Char) (segments : List Text) : List Text :=
  if c = separator then [] :: segments
  else
    match segments with
    | [] => [[c]]
    | segment :: rest => (c :: segment) :: rest

/-- The texts between the separators, empty ones included. -/
def segments (t : Text) : List Text := t.foldr addToSegments [[]]

/-- A segment that leads nowhere else. -/
def isIdle (segment : Text) : Bool := segment.isEmpty || segment = ['.']

/-- The separators that a rooted path opens with count as one, except that two are kept as two. -/
private def rootOf (t : Text) : Text :=
  match t.takeWhile (· = separator) with
  | [] => []
  | [_, _] => [separator, separator]
  | _ => [separator]

def ofText (t : Text) : Path := ⟨rootOf t, (segments t).filter (!isIdle ·)⟩

/-- The plain form as text. A path without root and parts is the current directory. -/
def text (p : Path) : Text :=
  if p.root.isEmpty && p.parts.isEmpty then ['.']
  else p.root ++ List.intercalate [separator] p.parts

/-- The last part, empty if there is none. -/
def name (p : Path) : Text := p.parts.getLast?.getD []

/-- A file name cut in front of its last dot. A dot that is the first or the last character opens no extension. -/
def splitExtension (name : Text) : Text × Text :=
  let extension := (name.reverse.takeWhile (· ≠ '.')).reverse
  let stem := name.take (name.length - extension.length - 1)
  if stem.isEmpty || extension.isEmpty then (name, []) else (stem, '.' :: extension)

/-- Why a path cannot be given another extension. -/
inductive SuffixFault where
  | invalid (suffix : Text)
  | noName (path : Path)
  deriving DecidableEq, Repr

/-- A suffix is a dot and something behind it, or empty, and stays within one name. -/
def isSuffix (suffix : Text) : Bool :=
  !suffix.contains separator && (suffix.isEmpty || (suffix.head? = some '.' && suffix ≠ ['.']))

/-- The path with the extension of its name replaced, or with a suffix added to a name that has none. -/
def withSuffix (p : Path) (suffix : Text) : Except SuffixFault Path :=
  if !isSuffix suffix then .error (.invalid suffix)
  else if p.name.isEmpty then .error (.noName p)
  else .ok { p with parts := p.parts.dropLast ++ [(splitExtension p.name).1 ++ suffix] }

@[simp] theorem segments_nil : segments [] = [[]] := rfl

theorem segments_cons_separator (t : Text) : segments (separator :: t) = [] :: segments t := by
  simp [segments, addToSegments]

theorem segments_cons {c : Char} (hc : c ≠ separator) (t : Text) :
    segments (c :: t) = (match segments t with
      | [] => [[c]]
      | segment :: rest => (c :: segment) :: rest) := by
  simp only [segments, List.foldr_cons, addToSegments, if_neg hc]

theorem separator_not_mem_of_mem_segments {t segment : Text} (h : segment ∈ segments t) :
    separator ∉ segment := by
  induction t generalizing segment with
  | nil =>
    rw [List.mem_singleton.1 h]
    exact List.not_mem_nil
  | cons c t ih =>
    by_cases hc : c = separator
    · rw [hc, segments_cons_separator] at h
      rcases List.mem_cons.1 h with rfl | h
      · exact List.not_mem_nil
      · exact ih h
    · rw [segments_cons hc] at h
      cases hsegments : segments t with
      | nil =>
        rw [hsegments] at h
        rw [List.mem_singleton.1 h, List.mem_singleton]
        exact Ne.symm hc
      | cons first rest =>
        rw [hsegments] at h ih
        rcases List.mem_cons.1 h with rfl | h
        · rw [List.mem_cons, not_or]
          exact ⟨Ne.symm hc, ih List.mem_cons_self⟩
        · exact ih (List.mem_cons_of_mem first h)

theorem eq_separator_of_mem_root {t : Text} {c : Char} (h : c ∈ (ofText t).root) : c = separator := by
  simp only [ofText, rootOf] at h
  split at h <;> simp_all

end Path

end HackAssembler
