import HackAssembler.Program.Encoding
import HackAssembler.Program.Labels

/-! Assembly of a whole program: labels first, then words, with every fault pointed at its source line. -/
namespace HackAssembler

/-- What a program is assembled to, with the source lines it came from. -/
structure Assembly where
  words : List Text
  table : SymbolTable
  lines : List SourceLine

namespace Assembly

/-- The source lines that become words. -/
def instructionLines (lines : List SourceLine) : List SourceLine :=
  lines.filter (!Line.isLabel ·.text)

/-- A fault of the labels is sought among all lines, one of the words among the instructions. -/
def ofSourceLines (strict : Bool) (file : Text) (lines : List SourceLine) : Except Failure Assembly :=
  let texts := lines.map SourceLine.text
  match Labels.bind strict texts with
  | .error d => .error (.diagnostic (d.locate file lines))
  | .ok labels =>
    match Encoding.program labels (Labels.instructions texts) with
    | (.error f, _) => .error (f.locate file (instructionLines lines))
    | (.ok words, context) => .ok ⟨words, context.table, lines⟩

/-- Assembles lines that are clean already. -/
def ofLines (strict : Bool) (file : Text) (lines : List Text) : Except Failure Assembly :=
  ofSourceLines strict file (Source.ofLines lines)

/-- Assembles source text. -/
def ofSource (strict : Bool) (file : Text) (source : Text) : Except Failure Assembly :=
  ofSourceLines strict file (Source.clean source)

end Assembly

/-- The text of a file, with its line ends unified. -/
def FileTree.readText (tree : FileTree) (path : Text) : Except Failure Text :=
  match tree.read path with
  | .error f => .error (.file f)
  | .ok bytes =>
    match Utf8.decode bytes with
    | .error f => .error (.undecodable f)
    | .ok text => .ok (Text.unifyBreaks text)

/-- Assembles a file under the plain form of its path. -/
def Assembly.ofFile (strict : Bool) (tree : FileTree) (path : Text) : Except Failure Assembly :=
  let plain := (Path.ofText path).text
  match tree.readText plain with
  | .error f => .error f
  | .ok source => Assembly.ofSource strict plain source

end HackAssembler
