import HackAssembler.Files.Fault
import HackAssembler.Files.Path
import HackAssembler.Text.Utf8

/-! A tree of files as a value: finding, reading and writing by path. -/
namespace HackAssembler

/-- The names that lead from the root to a file or directory. -/
abbrev Place := List Text

/-- Files with their content, some directories, and where relative paths start. Whatever has something below it
is a directory too. Some places cannot be written, whether or not a file is there, and some cannot be opened at all. -/
structure FileTree where
  workingDirectory : Place := []
  directories : List Place := []
  files : List (Place × ByteArray) := []
  unwritable : List (Place × Denial) := []
  closed : List (Place × Denial) := []

namespace FileTree

inductive Node where
  | directory
  | file (content : ByteArray)

def content? (tree : FileTree) (place : Place) : Option ByteArray :=
  (tree.files.find? (·.1 = place)).map Prod.snd

def isDirectoryAt (tree : FileTree) (place : Place) : Bool :=
  place.isPrefixOf tree.workingDirectory || tree.directories.any (place.isPrefixOf ·) ||
    tree.files.any (place.isPrefixOf ·.1)

def node? (tree : FileTree) (place : Place) : Option Node :=
  match tree.content? place with
  | some content => some (.file content)
  | none => if tree.isDirectoryAt place then some .directory else none

/-- What keeps a place from being read. -/
def readDenial? (tree : FileTree) (place : Place) : Option Denial := tree.closed.lookup place

/-- What keeps a place from being written. -/
def writeDenial? (tree : FileTree) (place : Place) : Option Denial :=
  (tree.readDenial? place).or (tree.unwritable.lookup place)

/-- Gives a place new content, as an overwritten file or as a new one. -/
def put (tree : FileTree) (place : Place) (content : ByteArray) : FileTree :=
  { tree with files := (place, content) :: tree.files.filter (·.1 ≠ place) }

/-- What a path leads to. -/
inductive Found where
  | directory
  | file (place : Place) (content : ByteArray)
  /-- Nothing, in a directory that exists. -/
  | vacant (place : Place)
  /-- No directory, although separators behind the last name ask for one. Reading is refused as given, and nothing
  can be written there. -/
  | notDirectory (reading : Refusal)

/-- A name of more bytes than this belongs to no file. -/
abbrev maxNameBytes : Nat := 255

/-- A path takes at most this many bytes. -/
abbrev maxPathBytes : Nat := 4095

/-- The end of a way on which `rest` is still to go. If only separators are left, reading and writing are refused
in different ways. -/
def blocked (refusal : Refusal) (rest : List Text) : Except Refusal Found :=
  if !rest.isEmpty && rest.all List.isEmpty then .ok (.notDirectory refusal) else .error refusal

/-- Follows segments from a directory. Every name but the last has to lead to a directory, also in front of an
idle segment, and two dots lead to the directory that holds the present one. -/
def walk (tree : FileTree) : Place → List Text → Except Refusal Found
  | _, [] => .ok .directory
  | here, segment :: rest =>
    if Path.isIdle segment then walk tree here rest
    else if segment = ['.', '.'] then walk tree here.dropLast rest
    else if maxNameBytes < (Utf8.encode segment).size then blocked .nameTooLong rest
    else
      match tree.node? (here ++ [segment]) with
      | some .directory => walk tree (here ++ [segment]) rest
      | some (.file content) =>
        if rest.isEmpty then .ok (.file (here ++ [segment]) content) else blocked .notADirectory rest
      | none => if rest.isEmpty then .ok (.vacant (here ++ [segment])) else blocked .notFound rest

/-- What a path leads to from the working directory or, with a leading separator, from the root. -/
def resolve (tree : FileTree) (path : Text) : Except Refusal Found :=
  if path.contains '\x00' then .error .embeddedNull
  else if path.isEmpty then .error .notFound
  else if maxPathBytes < (Utf8.encode path).size then .error .nameTooLong
  else
    let start := if path.head? = some Path.separator then [] else tree.workingDirectory
    tree.walk start (Path.segments path)

/-- What stands where a path leads. A path that leads nowhere is no fault, but a text that can be no path is one. -/
def look (tree : FileTree) (path : Text) : Except FileFault (Option Node) :=
  match tree.resolve path with
  | .ok .directory => .ok (some .directory)
  | .ok (.file _ content) => .ok (some (.file content))
  | .error .embeddedNull => .error (.of .embeddedNull path)
  | .ok (.vacant _) | .ok (.notDirectory _) | .error _ => .ok none

/-- Whether a file that a path leads to may be read, as far as permissions go. -/
def permitsReading (tree : FileTree) (path : Text) : Bool :=
  match tree.resolve path with
  | .ok (.file place _) => tree.readDenial? place ≠ some .permission
  | .ok .directory | .ok (.vacant _) | .ok (.notDirectory _) | .error _ => true

/-- What opening a path gives if nothing denies it. -/
def opened {α : Type} (denial : Option Denial) (path : Text) (value : α) : Except FileFault α :=
  match denial with
  | none => .ok value
  | some denial => .error (.of denial.refusal path)

/-- The content of an existing file. -/
def read (tree : FileTree) (path : Text) : Except FileFault ByteArray :=
  match tree.resolve path with
  | .ok (.file place content) => opened (tree.readDenial? place) path content
  | .ok .directory => .error (.of .isADirectory path)
  | .ok (.vacant _) => .error (.of .notFound path)
  | .ok (.notDirectory refusal) | .error refusal => .error (.of refusal path)

/-- Where writing to a path puts its content. -/
def target (tree : FileTree) (path : Text) : Except FileFault Place :=
  match tree.resolve path with
  | .ok (.file place _) | .ok (.vacant place) => opened (tree.writeDenial? place) path place
  | .ok .directory | .ok (.notDirectory _) => .error (.of .isADirectory path)
  | .error refusal => .error (.of refusal path)

/-- Creates or overwrites a file. -/
def write (tree : FileTree) (path : Text) (content : ByteArray) : Except FileFault FileTree :=
  (tree.target path).map (tree.put · content)

/-- The files that are new or have other content than before. -/
def changedFrom (tree before : FileTree) : List (Place × ByteArray) :=
  tree.files.filter fun (place, content) =>
    match before.content? place with
    | none => true
    | some earlier => !(earlier == content)

/-- A place below the working directory as a path from there. -/
def relative? (tree : FileTree) (place : Place) : Option Text :=
  if tree.workingDirectory.isPrefixOf place then
    some (List.intercalate [Path.separator] (place.drop tree.workingDirectory.length))
  else none

@[simp] theorem content?_put_self (tree : FileTree) (place : Place) (content : ByteArray) :
    (tree.put place content).content? place = some content := by
  simp [content?, put]

theorem content?_put_of_ne (tree : FileTree) {place other : Place} (h : other ≠ place)
    (content : ByteArray) : (tree.put place content).content? other = tree.content? other := by
  have hfind : (tree.files.filter (·.1 ≠ place)).find? (·.1 = other) =
      tree.files.find? (·.1 = other) := by
    rw [List.find?_filter]
    congr 1
    funext f
    by_cases hf : f.1 = other
    · simp [hf, h]
    · simp [hf]
  have hplace : decide (place = other) = false := by simpa using Ne.symm h
  rw [content?, put, List.find?_cons]
  simp only [hplace, hfind, content?]

theorem opened_eq_ok_iff {α : Type} {denial : Option Denial} {path : Text} {value result : α} :
    opened denial path value = .ok result ↔ denial = none ∧ value = result := by
  cases denial <;> simp [opened]

theorem opened_eq_error_iff {α : Type} {denial? : Option Denial} {path : Text} {value : α} {f : FileFault} :
    opened denial? path value = .error f ↔ ∃ denial, denial? = some denial ∧ f = .of denial.refusal path := by
  cases denial? <;> simp [opened, eq_comm]

/-- What is open to writing is open to reading. -/
theorem readDenial?_eq_none {tree : FileTree} {place : Place} (h : tree.writeDenial? place = none) :
    tree.readDenial? place = none :=
  (Option.or_eq_none_iff.1 h).1

@[simp] theorem workingDirectory_put (tree : FileTree) (place : Place) (content : ByteArray) :
    (tree.put place content).workingDirectory = tree.workingDirectory := rfl

@[simp] theorem writeDenial?_put (tree : FileTree) (place : Place) (content : ByteArray) :
    (tree.put place content).writeDenial? = tree.writeDenial? := rfl

end FileTree

end HackAssembler
