import HackAssembler.Text.Basic

/-! The three kinds of line. The choice is made by the first and the last character alone. -/
namespace HackAssembler

inductive LineKind where
  | label
  | address
  | compute
  deriving DecidableEq, Repr

namespace Line

abbrev labelOpen : Char := '('

abbrev labelClose : Char := ')'

abbrev addressMark : Char := '@'

def isLabel (line : Text) : Bool :=
  line.head? = some labelOpen && line.getLast? = some labelClose

def isAddress (line : Text) : Bool := line.head? = some addressMark

def kind (line : Text) : LineKind :=
  if isLabel line then .label
  else if isAddress line then .address
  else .compute

/-- The text between the first and the last character. -/
def labelName (line : Text) : Text := line.tail.dropLast

/-- The text behind the first character. -/
def operand (line : Text) : Text := line.tail

/-- The declaration of a label. -/
def label (name : Text) : Text := labelOpen :: (name ++ [labelClose])

/-- The instruction that loads an operand. -/
def address (operand : Text) : Text := addressMark :: operand

@[simp] theorem isLabel_label (name : Text) : isLabel (label name) = true := by
  simp [isLabel, label, List.getLast?_cons]

@[simp] theorem labelName_label (name : Text) : labelName (label name) = name := by
  simp [labelName, label]

theorem isLabel_iff {line : Text} : isLabel line = true ↔ line = label (labelName line) := by
  constructor
  · intro h
    simp only [isLabel, Bool.and_eq_true, decide_eq_true_eq] at h
    obtain ⟨hopen, hclose⟩ := h
    cases line with
    | nil => simp at hopen
    | cons c rest =>
      obtain rfl : c = labelOpen := by simpa using hopen
      rcases List.eq_nil_or_concat rest with rfl | ⟨name, last, rfl⟩
      · exact absurd hclose (by decide)
      · obtain rfl : last = labelClose := by simpa [List.getLast?_cons] using hclose
        simp [labelName, label]
  · intro h
    rw [h]
    exact isLabel_label _

@[simp] theorem isAddress_address (name : Text) : isAddress (address name) = true := rfl

@[simp] theorem operand_address (name : Text) : operand (address name) = name := rfl

theorem isAddress_iff {line : Text} : isAddress line = true ↔ line = address (operand line) := by
  cases line with
  | nil => simp [isAddress, address]
  | cons c rest => simp [isAddress, address, operand]

/-- No line is both: the first characters differ. -/
theorem not_isLabel_of_isAddress {line : Text} (h : isAddress line = true) : isLabel line = false := by
  have hfirst : line.head? = some addressMark := by simpa [isAddress] using h
  have hmark : addressMark ≠ labelOpen := by decide
  simp [isLabel, hfirst, hmark]

theorem kind_eq_address_iff {line : Text} : kind line = .address ↔ isAddress line = true := by
  unfold kind
  cases haddress : isAddress line with
  | true => simp [not_isLabel_of_isAddress haddress]
  | false => cases isLabel line <;> simp

end Line

end HackAssembler
