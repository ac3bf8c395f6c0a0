import HackAssembler.Instruction.Dest

/-! The text of a compute instruction, cut into its fields. -/
namespace HackAssembler

/-- The parts of a compute instruction that name something, in the order in which they are looked up. -/
inductive Field where
  | comp
  | dest
  | jump
  deriving DecidableEq, Repr

def Field.name : Field → Text
  | .comp => ['c', 'o', 'm', 'p']
  | .dest => ['d', 'e', 's', 't']
  | .jump => ['j', 'u', 'm', 'p']

/-- What is written for each field; a field that is left out holds its mnemonic `omitted`. -/
structure Fields where
  dest : Text
  comp : Text
  jump : Text
  deriving DecidableEq, Repr

namespace Fields

abbrev assignMark : Char := '='

abbrev jumpMark : Char := ';'

/-- Cuts at the first assignment mark and at the first jump mark. If the jump mark comes first, nothing is left
between them for the computation. -/
def split (line : Text) : Fields where
  dest := if assignMark ∈ line then Text.before assignMark line else omitted
  comp :=
    let body := Text.before jumpMark line
    if assignMark ∈ body then Text.after assignMark body
    else if assignMark ∈ line then []
    else body
  jump := if jumpMark ∈ line then Text.after jumpMark line else omitted

def get (fields : Fields) : Field → Text
  | .comp => fields.comp
  | .dest => fields.dest
  | .jump => fields.jump

end Fields

end HackAssembler
