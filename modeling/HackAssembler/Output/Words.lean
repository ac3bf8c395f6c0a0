import HackAssembler.Text.Basic

/-! Machine code as text. -/
namespace HackAssembler.Output

/-- Lines that each end in a line feed. -/
def terminated (lines : List Text) : Text := lines.flatMap (· ++ ['\n'])

/-- One word to a line. -/
def words (words : List Text) : Text := terminated words

@[simp] theorem terminated_nil : terminated [] = [] := rfl

@[simp] theorem terminated_cons (line : Text) (lines : List Text) :
    terminated (line :: lines) = line ++ '\n' :: terminated lines := by
  simp [terminated]

end HackAssembler.Output
