import HackAssembler.Program.Assembly

/-! The progress of a run, step by step, as a verbose command line shows it. -/
namespace HackAssembler.CommandLine

/-- The kinds of output that a run can have. -/
inductive Product where
  | words (count : Nat)
  | symbols
  | listing
  deriving DecidableEq, Repr

def Product.text : Product → Text
  | .words count => Numeral.decimal count ++ " words"
  | .symbols => "symbols"
  | .listing => "listing"

/-- The steps worth telling. -/
inductive Event where
  | started (path : Text)
  | strictLabels
  | reading (path : Text)
  | labelBound (name : Text) (address : Int)
  | labelIgnored (name : Text) (address : Int)
  | labelsDone (wordCount labelCount : Nat)
  | variableBound (name : Text) (address : Int)
  | wordsDone (wordCount : Nat) (variableCount : Int)
  | wrote (product : Product) (path : Text)
  /-- The command line says itself what the assembler has written. -/
  | reported (product : Product) (path : Text)
  | completed (wordCount labelCount variableCount : Nat)
  deriving DecidableEq, Repr

namespace Event

private def debug (logger message : Text) : Text := "DEBUG hackasm.assembler." ++ logger ++ ": " ++ message

private def info (logger message : Text) : Text := "INFO hackasm.assembler." ++ logger ++ ": " ++ message

/-- What the command line says itself, which holds no control sequences. -/
private def told (message : Text) : Text := Text.dropControls message

/-- The line that tells of an event. -/
def line : Event → Text
  | .started path => told ("Assembling " ++ path ++ "...")
  | .strictLabels => "Strict label checking: enabled"
  | .reading path => info "assembler" ("Assembling " ++ path)
  | .labelBound name address =>
    debug "symbols" ("Label '" ++ name ++ "' -> ROM " ++ Numeral.decimal address)
  | .labelIgnored name address =>
    debug "symbols" ("Label '" ++ name ++ "' already bound to " ++ Numeral.decimal address ++ ", ignored")
  | .labelsDone wordCount labelCount =>
    info "symbols" ("Pass 1: " ++ Numeral.decimal wordCount ++ " instructions, " ++
      Numeral.decimal labelCount ++ " labels")
  | .variableBound name address =>
    debug "encoder" ("Variable '" ++ name ++ "' -> RAM " ++ Numeral.decimal address)
  | .wordsDone wordCount variableCount =>
    info "encoder" ("Pass 2: " ++ Numeral.decimal wordCount ++ " words, " ++
      Numeral.decimal variableCount ++ " variables")
  | .wrote product path => info "assembler" ("Wrote " ++ product.text ++ " to " ++ path)
  | .reported product path => told ("Wrote " ++ product.text ++ " to " ++ path)
  | .completed wordCount labelCount variableCount =>
    "Assembly complete: " ++ Numeral.decimal wordCount ++ " instructions, " ++
      Numeral.decimal labelCount ++ " labels, " ++ Numeral.decimal variableCount ++ " variables"

end Event

/-- What becomes of each label declaration, up to the first that is refused. -/
def labelEvents (strict : Bool) : List Text → (address : Nat) → SymbolTable → Array Event → List Event
  | [], _, _, events => events.toList
  | line :: rest, address, table, events =>
    if Line.isLabel line then
      let name := Line.labelName line
      match table.lookup name with
      | none =>
        labelEvents strict rest address (table.bind ⟨name, address, .label⟩).2
          (events.push (.labelBound name address))
      | some bound =>
        if strict then events.toList
        else labelEvents strict rest address table (events.push (.labelIgnored name bound.address))
    else labelEvents strict rest (address + 1) table events

/-- The steps of an assembly, as far as it gets. -/
def assemblyEvents (strict : Bool) (lines : List Text) : List Event :=
  let instructions := Labels.instructions lines
  labelEvents strict lines 0 .initial #[] ++
    match Labels.bind strict lines with
    | .error _ => []
    | .ok labels =>
      let (words, context) := Encoding.program labels instructions
      .labelsDone instructions.length (labels.ofKind .label).length ::
        (context.table.symbols.drop labels.size).map (fun s => .variableBound s.name s.address) ++
        match words with
        | .error _ => []
        | .ok words => [.wordsDone words.length (context.nextVariable - Symbol.variableBase)]

/-- The steps of an assembly that begins with reading a file. -/
def fileEvents (strict : Bool) (tree : FileTree) (path : Text) : List Event :=
  .reading path ::
    match tree.readText path with
    | .error _ => []
    | .ok source => assemblyEvents strict ((Source.clean source).map SourceLine.text)

end HackAssembler.CommandLine
