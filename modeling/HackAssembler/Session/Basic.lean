import HackAssembler.Output.Listing
import HackAssembler.Program.Assembly

/-! An assembler that keeps the results of its last run for reading and writing. -/
namespace HackAssembler

/-- Settings, and what the last run has left: words, table and source lines, or nothing if it failed. -/
structure Session where
  settings : Settings
  strictLabels : Bool
  words : List Text := []
  table? : Option SymbolTable := none
  lines : List SourceLine := []

namespace Session

/-- A session without results. What is said about repeated labels goes before the settings. -/
def start (settings : Settings) (strictLabels : Option Bool) : Session where
  settings := settings
  strictLabels := strictLabels.getD settings.strictLabels

/-! ### Results -/

/-- The symbols in binding order, none before there is a table. -/
def symbols (s : Session) : List Symbol :=
  match s.table? with
  | none => []
  | some table => table.symbols

def sortedSymbols (s : Session) (withPredefined : Bool) : List Symbol :=
  match s.table? with
  | none => []
  | some table => table.sorted withPredefined

def listing (s : Session) : Text := Output.listing s.words s.lines (s.sortedSymbols false)

/-! ### Runs -/

/-- Forgets all results. -/
def reset (s : Session) : Session := { s with words := [], table? := none, lines := [] }

/-- Takes over the results of a run. -/
def keep (s : Session) (a : Assembly) : Session :=
  { s with words := a.words, table? := some a.table, lines := a.lines }

/-- A run. The results of the one before it go first, and new ones come only when nothing can fail any more. -/
def assemble (s : Session) (file : Text) (lines : List SourceLine) : Except Failure (List Text) × Session :=
  let cleared := s.reset
  match Assembly.ofSourceLines cleared.strictLabels file lines with
  | .error f => (.error f, cleared)
  | .ok a => (.ok a.words, cleared.keep a)

def assembleLines (s : Session) (file : Text) (lines : List Text) :
    Except Failure (List Text) × Session :=
  s.assemble file (Source.ofLines lines)

def assembleSource (s : Session) (file source : Text) : Except Failure (List Text) × Session :=
  s.assemble file (Source.clean source)

/-- Assembles a file. If it holds no text that can be read, there is no run, and the earlier results stay. -/
def assembleFile (s : Session) (tree : FileTree) (path : Text) : Except Failure (List Text) × Session :=
  let plain := (Path.ofText path).text
  match tree.readText plain with
  | .error f => (.error f, s)
  | .ok source => s.assembleSource plain source

/-! ### Output files -/

def writeWords (s : Session) (tree : FileTree) (path : Text) : Except FileFault FileTree :=
  tree.write path (Utf8.encode (Output.words s.words))

def writeSymbols (s : Session) (tree : FileTree) (path : Text) (withPredefined : Bool) :
    Except FileFault FileTree :=
  tree.write path (Utf8.encode (Output.symbols (s.sortedSymbols withPredefined)))

def writeListing (s : Session) (tree : FileTree) (path : Text) : Except FileFault FileTree :=
  tree.write path (Utf8.encode (s.listing ++ ['\n']))

/-- The session behind a run: whatever it held before, all that it holds comes from this run. -/
def record (s : Session) : Except Failure Assembly → Session
  | .error _ => s.reset
  | .ok a => s.reset.keep a

@[simp] theorem strictLabels_record (s : Session) (run : Except Failure Assembly) :
    (s.record run).strictLabels = s.strictLabels := by
  cases run <;> rfl

theorem assemble_eq (s : Session) (file : Text) (lines : List SourceLine) :
    s.assemble file lines =
      ((Assembly.ofSourceLines s.strictLabels file lines).map Assembly.words,
        s.record (Assembly.ofSourceLines s.strictLabels file lines)) := by
  have hstrict : s.reset.strictLabels = s.strictLabels := rfl
  rw [assemble, hstrict]
  cases Assembly.ofSourceLines s.strictLabels file lines <;> rfl

theorem assembleFile_of_unreadable (s : Session) {tree : FileTree} {path : Text} {f : Failure}
    (h : tree.readText (Path.ofText path).text = .error f) :
    s.assembleFile tree path = (.error f, s) := by
  simp [assembleFile, h]

end Session

end HackAssembler
