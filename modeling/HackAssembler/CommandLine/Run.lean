import HackAssembler.CommandLine.Help
import HackAssembler.CommandLine.Options
import HackAssembler.CommandLine.Progress
import HackAssembler.Session.Basic

/-! A whole run of the command line as a function of the environment, the files and the arguments. -/
namespace HackAssembler.CommandLine

/-- Writes an output of a session. -/
def Product.write (s : Session) (tree : FileTree) (path : Text) : Product → Except FileFault FileTree
  | .words _ => s.writeWords tree path
  | .symbols => s.writeSymbols tree path false
  | .listing => s.writeListing tree path

/-- An assembly run so far: what it has logged and said, printed and written, and why it has ended, if it has. -/
structure Execution where
  events : List Event := []
  stdout : Text := []
  tree : FileTree
  failure : Option Failure := none

namespace Execution

/-- The assembler logs its steps in every run. -/
def log (e : Execution) (events : List Event) : Execution := { e with events := e.events ++ events }

/-- What the command line has to say itself, it says only in a verbose run. -/
def tell (e : Execution) (verbose : Bool) (events : List Event) : Execution :=
  if verbose then e.log events else e

def fail (e : Execution) (f : Failure) : Execution := { e with failure := some f }

/-- Takes one more step, unless the run has ended. -/
def next (e : Execution) (step : Execution → Execution) : Execution :=
  match e.failure with
  | none => step e
  | some _ => e

def print (e : Execution) (text : Text) : Execution := { e with stdout := e.stdout ++ text }

/-- Writes one output of a session. -/
def write (s : Session) (verbose : Bool) (e : Execution) (output : Product × Text) : Execution :=
  let (product, path) := output
  match product.write s e.tree path with
  | .error f => e.fail (.file f)
  | .ok tree => ({ e with tree }.log [.wrote product path]).tell verbose [.reported product path]

/-- Writes outputs one after the other, up to the first that is refused. -/
def writeAll (s : Session) (verbose : Bool) (e : Execution) (outputs : List (Product × Text)) : Execution :=
  outputs.foldl (fun e output => e.next (write s verbose · output)) e

/-- In the end a verbose run counts the symbols, for which there has to be a table. -/
def summarize (s : Session) (verbose : Bool) (wordCount : Nat) (e : Execution) : Execution :=
  if verbose then
    match s.table? with
    | none => e.fail (.unexpected "'NoneType' object has no attribute 'symbols'")
    | some table =>
      e.log [.completed wordCount (table.ofKind .label).length (table.ofKind .variable).length]
  else e

end Execution

namespace Request

/-- The plain form of a path that was given. -/
def plain (path : Text) : Text := (Path.ofText path).text

/-- Words go to a file or to the standard output. -/
def isContradictory (r : Request) : Bool := r.output.isSome && r.toStdout

/-- Where the words go, if not to the standard output: by default beside the input. -/
def wordsPath (r : Request) (settings : Settings) : Except Failure (Option Text) :=
  if r.toStdout then .ok none
  else
    match r.output with
    | some path => .ok (some (plain path))
    | none =>
      match (Path.ofText r.input).withSuffix settings.outputSuffix with
      | .ok path => .ok (some path.text)
      | .error f => .error (.suffix f)

/-- The outputs of a run in the order in which they are written; `words` is where the words go. -/
def outputs (r : Request) (words : Option Text) (wordCount : Nat) : List (Product × Text) :=
  words.toList.map (.words wordCount, ·) ++ r.symbols.toList.map (.symbols, plain ·) ++
    r.listing.toList.map (.listing, plain ·)

/-- Prints or writes the words that were assembled, and writes the other outputs. -/
def deliver (r : Request) (settings : Settings) (s : Session) (words : List Text) (e : Execution) : Execution :=
  match r.wordsPath settings with
  | .error f => e.fail f
  | .ok path =>
    let printed := if r.toStdout then e.print (Output.words words) else e
    (printed.writeAll s r.verbose (r.outputs path words.length)).next
      (Execution.summarize s r.verbose words.length)

/-- The run up to the point where its input is assembled, or cannot be. -/
def assembled (r : Request) (settings : Settings) (tree : FileTree) : Execution :=
  let strict := (Session.start settings r.strictLabels).strictLabels
  let start : Execution := { tree }
  (start.tell r.verbose (.started (plain r.input) :: if strict then [.strictLabels] else [])).log
    (fileEvents strict tree (plain r.input))

/-- Reads the settings and the input, assembles, and writes the outputs. The first fault ends the run. -/
def execute (r : Request) (environment : Environment) (tree : FileTree) : Execution :=
  match Settings.ofEnvironment environment with
  | .error f => { tree, failure := some (.setting f) }
  | .ok settings =>
    match (Session.start settings r.strictLabels).assembleFile tree r.input with
    | (.error f, _) => (r.assembled settings tree).fail f
    | (.ok words, session) => r.deliver settings session words (r.assembled settings tree)

end Request

/-- What a command line leaves behind. -/
structure Outcome where
  exitCode : ExitCode
  stdout : Text := []
  stderr : Text := []
  tree : FileTree

namespace Execution

def exitCode (e : Execution) : ExitCode :=
  match e.failure with
  | none => .success
  | some f => f.exitCode

/-- The outcome as it is shown: a verbose one tells of all events before the failure. -/
def outcome (e : Execution) (verbose : Bool) : Outcome where
  exitCode := e.exitCode
  stdout := e.stdout
  stderr :=
    (if verbose then Output.terminated (e.events.map Event.line) else []) ++
      match e.failure with
      | none => []
      | some f => f.report verbose (some "Assembly")
  tree := e.tree

end Execution

def contradictionText : Text := "Error: -o/--output and --stdout are mutually exclusive\n"

/-- Carries out what a command line asks for. -/
def Invocation.outcome (environment : Environment) (tree : FileTree) : Invocation → Outcome
  | .help => { exitCode := .success, stdout := helpText, tree }
  | .version => { exitCode := .success, stdout := versionText, tree }
  | .assemble request =>
    if request.isContradictory then
      { exitCode := .invalidArgs, stderr := contradictionText, tree }
    else (request.execute environment tree).outcome request.verbose

/-- Every path that a run on these arguments can look at or write, the default output included. -/
def mentionedPaths (environment : Environment) (arguments : List Text) : List Text :=
  match Arguments.read arguments with
  | .error _ => []
  | .ok a =>
    let given := a.positional ++ (a.options.filter (·.1.takesValue)).map Prod.snd
    let derived :=
      match Settings.ofEnvironment environment with
      | .error _ => []
      | .ok settings =>
        a.positional.filterMap fun path =>
          ((Path.ofText path).withSuffix settings.outputSuffix).toOption.map Path.text
    given ++ derived

/-- A run of the command line. -/
def run (environment : Environment) (tree : FileTree) (arguments : List Text) :
    Except UsageFault Outcome :=
  (parse tree arguments).map (Invocation.outcome environment tree)

end HackAssembler.CommandLine
