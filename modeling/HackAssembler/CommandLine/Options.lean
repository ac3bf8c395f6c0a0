import HackAssembler.Files.Tree

/-! Arguments of the command line: which options they name, and the request that they make. -/
namespace HackAssembler.CommandLine

/-- Everything that an argument can switch or set. -/
inductive Switch where
  | output
  | symbols
  | listing
  | stdout
  | strictLabels
  | noStrictLabels
  | verbose
  | version
  | help
  deriving DecidableEq, Repr

namespace Switch

/-- Options that are followed by a file. -/
def takesValue : Switch → Bool
  | .output | .symbols | .listing => true
  | .stdout | .strictLabels | .noStrictLabels | .verbose | .version | .help => false

def ofLong? (name : Text) : Option Switch :=
  let table : List (Text × Switch) :=
    [("--output", .output), ("--symbols", .symbols), ("--listing", .listing), ("--stdout", .stdout),
      ("--strict-labels", .strictLabels), ("--no-strict-labels", .noStrictLabels),
      ("--verbose", .verbose), ("--version", .version), ("--help", .help)]
  table.lookup name

def ofShort? : Char → Option Switch
  | 'o' => some .output
  | 's' => some .symbols
  | 'l' => some .listing
  | 'v' => some .verbose
  | _ => none

/-- Both names of an option with a file, as a message shows them. -/
def names : Switch → Text
  | .output => "'-o' / '--output'"
  | .symbols => "'-s' / '--symbols'"
  | .listing => "'-l' / '--listing'"
  | _ => []

end Switch

/-- Why arguments make no request. -/
inductive UsageFault where
  | noSuchOption (name : Text)
  | missingValue (name : Text)
  | unwantedValue (name : Text)
  | missingInput
  /-- A file that has to exist does not; `parameter` is what it was given for. -/
  | absentFile (parameter path : Text)
  /-- A directory where a file has to be. -/
  | directory (parameter path : Text)
  /-- A file that may not be read, be it the input or an output that is there already. -/
  | unreadable (parameter path : Text)
  | extraArguments (arguments : List Text)
  /-- A path that cannot even be looked at. -/
  | unusablePath (fault : FileFault)
  deriving DecidableEq, Repr

def UsageFault.message : UsageFault → Text
  | .noSuchOption name => "No such option: " ++ name
  | .missingValue name => "Option " ++ Text.quote name ++ " requires an argument."
  | .unwantedValue name => "Option " ++ Text.quote name ++ " does not take a value."
  | .missingInput => "Missing argument 'INPUT_FILE'."
  | .absentFile parameter path =>
    "Invalid value for " ++ parameter ++ ": File " ++ Text.quote path ++ " does not exist."
  | .directory parameter path =>
    "Invalid value for " ++ parameter ++ ": File " ++ Text.quote path ++ " is a directory."
  | .unreadable parameter path =>
    "Invalid value for " ++ parameter ++ ": File " ++ Text.quote path ++ " is not readable."
  | .extraArguments arguments =>
    (if arguments.length = 1 then "Got unexpected extra argument (" else "Got unexpected extra arguments (") ++
      List.intercalate [' '] arguments ++ ")"
  | .unusablePath fault => fault.message

/-- The arguments sorted into options, with their values and in order, and the rest. -/
structure Arguments where
  options : List (Switch × Text) := []
  positional : List Text := []
  deriving DecidableEq, Repr

/-- What one argument settles: options, and perhaps one more that waits for the next argument, under the name it
was written with. -/
structure Settled where
  options : List (Switch × Text) := []
  waiting : Option (Switch × Text) := none
  deriving DecidableEq, Repr

/-- Reads single-letter options behind one dash. Behind one that takes a value, the rest is the value. -/
def readCluster : List Char → Except UsageFault Settled
  | [] => .ok {}
  | c :: rest =>
    match Switch.ofShort? c with
    | none => .error (.noSuchOption ['-', c])
    | some switch =>
      if switch.takesValue then
        if rest.isEmpty then .ok { waiting := some (switch, ['-', c]) }
        else .ok { options := [(switch, rest)] }
      else
        match readCluster rest with
        | .error f => .error f
        | .ok settled => .ok { settled with options := (switch, []) :: settled.options }

/-- Reads an argument that opens with a dash. Whole names go before clusters of letters, and only a name behind two
dashes must be whole. -/
def readOption (argument : Text) : Except UsageFault Settled :=
  let name := Text.before '=' argument
  match Switch.ofLong? name with
  | some switch =>
    if switch.takesValue then
      if '=' ∈ argument then .ok { options := [(switch, Text.after '=' argument)] }
      else .ok { waiting := some (switch, name) }
    else if '=' ∈ argument then .error (.unwantedValue name)
    else .ok { options := [(switch, [])] }
  | none =>
    if argument.take 2 = ['-', '-'] then .error (.noSuchOption name)
    else readCluster argument.tail

/-- A lone dash is no option. -/
def isOption (argument : Text) : Bool := argument.head? = some '-' && 1 < argument.length

/-- Sorts arguments, which may come in any order. Two dashes end the options. -/
def Arguments.read : List Text → Except UsageFault Arguments
  | [] => .ok {}
  | argument :: rest =>
    if argument = ['-', '-'] then .ok { positional := rest }
    else if isOption argument then
      match readOption argument with
      | .error f => .error f
      | .ok settled =>
        match settled.waiting, rest with
        | none, rest =>
          match Arguments.read rest with
          | .error f => .error f
          | .ok more => .ok { more with options := settled.options ++ more.options }
        | some (_, name), [] => .error (.missingValue name)
        | some (switch, _), value :: rest =>
          match Arguments.read rest with
          | .error f => .error f
          | .ok more =>
            .ok { more with options := settled.options ++ (switch, value) :: more.options }
    else
      match Arguments.read rest with
      | .error f => .error f
      | .ok more => .ok { more with positional := argument :: more.positional }

/-- The files and modes of an assembly run. -/
structure Request where
  input : Text
  output : Option Text := none
  symbols : Option Text := none
  listing : Option Text := none
  toStdout : Bool := false
  strictLabels : Option Bool := none
  verbose : Bool := false
  deriving DecidableEq, Repr

/-- What a command line asks for. -/
inductive Invocation where
  | help
  | version
  | assemble (request : Request)
  deriving DecidableEq, Repr

namespace Arguments

/-- The value of an option, the last one if it is repeated. -/
def value? (a : Arguments) (switch : Switch) : Option Text :=
  (a.options.reverse.find? (·.1 = switch)).map Prod.snd

def has (a : Arguments) (switch : Switch) : Bool := a.options.any (·.1 = switch)

/-- The last word on repeated labels. -/
def strictLabels? (a : Arguments) : Option Bool :=
  a.options.reverse.findSome? fun
    | (.strictLabels, _) => some true
    | (.noStrictLabels, _) => some false
    | _ => none

/-- The first request for help or version. -/
def information? (a : Arguments) : Option Invocation :=
  a.options.findSome? fun
    | (.help, _) => some .help
    | (.version, _) => some .version
    | _ => none

/-- No output may be a directory or a file without permission to read. Options are looked at in the order in which they first occur. -/
def outputFault? (a : Arguments) (tree : FileTree) : Option UsageFault :=
  a.options.findSome? fun (switch, _) =>
    if switch.takesValue then
      match a.value? switch with
      | none => none
      | some path =>
        match tree.look path with
        | .error f => some (.unusablePath f)
        | .ok (some .directory) => some (.directory switch.names path)
        | .ok (some (.file _)) =>
          if tree.permitsReading path then none else some (.unreadable switch.names path)
        | .ok none => none
    else none

/-- The one argument that is no option is a file that exists and may be read. -/
def input (a : Arguments) (tree : FileTree) : Except UsageFault Text :=
  match a.positional with
  | [] => .error .missingInput
  | path :: extra =>
    match tree.look path with
    | .error f => .error (.unusablePath f)
    | .ok (some .directory) => .error (.directory "'INPUT_FILE'" path)
    | .ok none => .error (.absentFile "'INPUT_FILE'" path)
    | .ok (some (.file _)) =>
      if !tree.permitsReading path then .error (.unreadable "'INPUT_FILE'" path)
      else if extra.isEmpty then .ok path
      else .error (.extraArguments extra)

/-- Help and version go before every check of files. -/
def invocation (a : Arguments) (tree : FileTree) : Except UsageFault Invocation :=
  match a.information? with
  | some information => .ok information
  | none =>
    match a.outputFault? tree with
    | some f => .error f
    | none =>
      match a.input tree with
      | .error f => .error f
      | .ok input =>
        .ok (.assemble {
          input
          output := a.value? .output
          symbols := a.value? .symbols
          listing := a.value? .listing
          toStdout := a.has .stdout
          strictLabels := a.strictLabels?
          verbose := a.has .verbose })

end Arguments

/-- Reads a command line on a tree of files. -/
def parse (tree : FileTree) (arguments : List Text) : Except UsageFault Invocation :=
  match Arguments.read arguments with
  | .error f => .error f
  | .ok a => a.invocation tree

end HackAssembler.CommandLine
