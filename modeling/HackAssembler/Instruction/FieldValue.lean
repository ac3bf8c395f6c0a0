import HackAssembler.Text.Basic

/-! Values of the fields of a compute instruction: each has a mnemonic to be read by and bits to be encoded as. -/
namespace HackAssembler

/-- A bit as a character of a word. -/
def bit (b : Bool) : Char := if b then '1' else '0'

/-- The finitely many values of one field, in the order in which they are offered to a reader. -/
class FieldValue (α : Type) where
  mnemonic : α → Text
  bits : α → Text
  all : List α
  mem_all : ∀ v, v ∈ all
  mnemonic_injective : ∀ {v w}, mnemonic v = mnemonic w → v = w

namespace FieldValue

variable {α : Type} [FieldValue α]

theorem forall_of_mem_all {p : α → Prop} (h : ∀ v ∈ (all : List α), p v) (v : α) : p v := h v (mem_all v)

theorem injective_of_all {β : Type} {key : α → β}
    (h : ∀ v ∈ (all : List α), ∀ w ∈ (all : List α), key v = key w → v = w) : Function.Injective key :=
  fun v w => h v (mem_all v) w (mem_all w)

/-- A value is found by every key that tells the values apart. -/
theorem find?_eq_some_iff {β : Type} [DecidableEq β] {key : α → β} (hkey : Function.Injective key) {k : β}
    {v : α} : all.find? (key · = k) = some v ↔ key v = k := by
  constructor
  · intro h
    simpa using List.find?_some h
  · intro h
    cases hf : all.find? (key · = k) with
    | none => exact absurd h (by simpa using List.find?_eq_none.1 hf v (mem_all v))
    | some w =>
      have hw : key w = k := by simpa using List.find?_some hf
      rw [hkey (hw.trans h.symm)]

def ofMnemonic? (t : Text) : Option α := all.find? (mnemonic · = t)

theorem ofMnemonic?_eq_some_iff {t : Text} {v : α} : ofMnemonic? t = some v ↔ mnemonic v = t :=
  find?_eq_some_iff fun _ _ => mnemonic_injective

@[simp] theorem ofMnemonic?_mnemonic (v : α) : ofMnemonic? (mnemonic v) = some v :=
  ofMnemonic?_eq_some_iff.2 rfl

end FieldValue

end HackAssembler
