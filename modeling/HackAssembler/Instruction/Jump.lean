import HackAssembler.Instruction.Dest

/-! Jump conditions on the sign of the result. -/
namespace HackAssembler

inductive Jump where
  | never
  | positive
  | zero
  | nonnegative
  | negative
  | nonzero
  | nonpositive
  | always
  deriving DecidableEq, Repr

namespace Jump

def mnemonic : Jump → Text
  | .never => omitted
  | .positive => ['J', 'G', 'T']
  | .zero => ['J', 'E', 'Q']
  | .nonnegative => ['J', 'G', 'E']
  | .negative => ['J', 'L', 'T']
  | .nonzero => ['J', 'N', 'E']
  | .nonpositive => ['J', 'L', 'E']
  | .always => ['J', 'M', 'P']

/-- One bit each for a result below, at and above zero. -/
def bits : Jump → Text
  | .never => ['0', '0', '0']
  | .positive => ['0', '0', '1']
  | .zero => ['0', '1', '0']
  | .nonnegative => ['0', '1', '1']
  | .negative => ['1', '0', '0']
  | .nonzero => ['1', '0', '1']
  | .nonpositive => ['1', '1', '0']
  | .always => ['1', '1', '1']

/-- Every condition, counted up by its bits. -/
def all : List Jump :=
  [.never, .positive, .zero, .nonnegative, .negative, .nonzero, .nonpositive, .always]

private theorem mem_all (jump : Jump) : jump ∈ all := by
  cases jump <;> decide

private theorem mnemonic_injective_on_all :
    ∀ b ∈ all, ∀ c ∈ all, b.mnemonic = c.mnemonic → b = c := by
  decide

instance : FieldValue Jump where
  mnemonic := mnemonic
  bits := bits
  all := all
  mem_all := mem_all
  mnemonic_injective := mnemonic_injective_on_all _ (mem_all _) _ (mem_all _)

end Jump

end HackAssembler
