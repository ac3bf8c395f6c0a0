import HackAssembler.CommandLine.Run

/-! The executable: it takes the mentioned files from disk, runs the command line on them, and carries out what it
answers. -/
namespace HackAssembler.Executable

/-- A place as a path from the root. -/
def absolute (place : Place) : String :=
  "/" ++ "/".intercalate (place.map String.ofList)

/-- Whether a directory or a file stands at a place on disk, if anything does. -/
def isDirectory? (place : Place) : IO (Option Bool) := do
  try
    let path ← IO.FS.realPath ⟨absolute place⟩
    return some (← path.isDir)
  catch _ => return none

/-- What keeps a file on disk from being opened. -/
def denial? (place : Place) (mode : IO.FS.Mode) : IO (Option Denial) := do
  try
    discard (IO.FS.Handle.mk ⟨absolute place⟩ mode)
    return none
  catch
    | .permissionDenied .. => return some .permission
    | _ => return some .failure

/-- Adds a file on disk to a tree. One that cannot be read has no content there. -/
def takeFile (tree : FileTree) (place : Place) : IO FileTree := do
  match ← denial? place .read with
  | some denial => return { tree.put place ByteArray.empty with closed := (place, denial) :: tree.closed }
  | none =>
    let tree := tree.put place (← IO.FS.readBinFile ⟨absolute place⟩)
    match ← denial? place .readWrite with
    | some denial => return { tree with unwritable := (place, denial) :: tree.unwritable }
    | none => return tree

/-- Adds to a tree what a path meets on disk, segment by segment. -/
def takeAlong (tree : FileTree) (here : Place) : List Text → IO FileTree
  | [] => return tree
  | segment :: rest => do
    if Path.isIdle segment then takeAlong tree here rest
    else if segment = ['.', '.'] then takeAlong tree here.dropLast rest
    else
      let place := here ++ [segment]
      match ← isDirectory? place with
      | some true => takeAlong { tree with directories := place :: tree.directories } place rest
      | some false => takeFile tree place
      | none => return tree

/-- The part of the disk that the paths mention. -/
def snapshot (paths : List Text) : IO FileTree := do
  let workingDirectory := (Path.ofText (toString (← IO.currentDir)).toList).parts
  let mut tree : FileTree := { workingDirectory }
  for path in paths do
    let start := if path.head? = some Path.separator then [] else workingDirectory
    tree ← takeAlong tree start (Path.segments path)
  return tree

/-- Writes the files that a run has changed. -/
def store (before after : FileTree) : IO Unit :=
  (after.changedFrom before).forM fun (place, content) => IO.FS.writeBinFile ⟨absolute place⟩ content

def environment : IO Environment := do
  let get (name : Text) : IO (Option Text) := do
    return (← IO.getEnv (String.ofList name)).map String.toList
  return {
    strictLabels := ← get Environment.strictLabelsVariable
    outputSuffix := ← get Environment.outputSuffixVariable }

end HackAssembler.Executable

open HackAssembler in
def main (arguments : List String) : IO UInt32 := do
  let environment ← Executable.environment
  let arguments := arguments.map String.toList
  let tree ← Executable.snapshot (CommandLine.mentionedPaths environment arguments)
  match CommandLine.run environment tree arguments with
  | .error fault =>
    IO.eprint (String.ofList (CommandLine.usageLine ++ "\nTry 'hackasm --help' for help.\n\nError: " ++
      fault.message ++ "\n"))
    return ExitCode.invalidArgs.number.toUInt32
  | .ok outcome =>
    IO.eprint (String.ofList outcome.stderr)
    IO.print (String.ofList outcome.stdout)
    try
      Executable.store tree outcome.tree
      return outcome.exitCode.number.toUInt32
    catch fault =>
      IO.eprintln s!"Error: {fault}"
      return ExitCode.invalidArgs.number.toUInt32
