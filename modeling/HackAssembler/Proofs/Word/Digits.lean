import HackAssembler.Proofs.Text.Numerals
import HackAssembler.Proofs.Word.Bits

/-! Words read back from text: the bits that their digits show, and the number that these write. -/
namespace HackAssembler

theorem bit_injective : Function.Injective bit := by
  have key : ∀ a b, bit a = bit b → a = b := by decide
  exact key

namespace Word

def IsBinary (t : Text) : Prop := ∀ c ∈ t, c = '0' ∨ c = '1'

instance (t : Text) : Decidable (IsBinary t) := List.decidableBAll _ t

theorem isBinary_append {s t : Text} : IsBinary (s ++ t) ↔ IsBinary s ∧ IsBinary t :=
  List.forall_mem_append

theorem bit_eq_zero_or_one (b : Bool) : bit b = '0' ∨ bit b = '1' := by
  cases b <;> decide

theorem isBinary_ofBits (w : BitVec width) : IsBinary (ofBits w) := by
  intro c hc
  obtain ⟨i, -, rfl⟩ := List.mem_map.1 hc
  exact bit_eq_zero_or_one _

/-- The digit of bit `j`, counted from the right. -/
theorem getElem?_of_eq_ofBits {t : Text} {w : BitVec width} (h : t = ofBits w) {j : Nat} (hj : j < width) :
    t[width - 1 - j]? = some (bit (w.getLsbD j)) := by
  have hplace : width - 1 - j < width := by omega
  have hback : width - 1 - (width - 1 - j) = j := by omega
  rw [h, ofBits, List.getElem?_map, List.getElem?_range hplace, Option.map_some, BitVec.getMsbD_eq_getLsbD,
    hback, decide_eq_true hplace, Bool.true_and]

theorem getLsbD_of_digit {t : Text} {w : BitVec width} (h : t = ofBits w) {j : Nat} (hj : j < width)
    {b : Bool} (hdigit : t[width - 1 - j]? = some (bit b)) : w.getLsbD j = b :=
  bit_injective (Option.some.inj ((getElem?_of_eq_ofBits h hj).symm.trans hdigit))

/-- Sixteen binary digits are the text of a word. -/
theorem exists_ofBits {t : Text} (hlength : t.length = width) (hbinary : IsBinary t) :
    ∃ w, t = ofBits w := by
  have hbits : (t.map fun c => decide (c = '1')).length = width := by rw [List.length_map, hlength]
  refine ⟨(BitVec.ofBoolListBE (t.map fun c => decide (c = '1'))).cast hbits, ?_⟩
  apply List.ext_getElem
  · rw [hlength, length_ofBits]
  · intro i hi hi'
    have hdigit : bit (decide (t[i] = '1')) = t[i] := by
      rcases hbinary _ (List.getElem_mem hi) with h | h <;> rw [h] <;> rfl
    simp [ofBits, BitVec.getMsbD_ofBoolListBE, hi, hdigit]

theorem value_ofAddress (n : Nat) : Numeral.value 2 (ofAddress n) = n := by
  rw [ofAddress, Numeral.zeroFilled_of_nonneg (Int.natCast_nonneg _), Int.toNat_natCast,
    Numeral.value_leftpad, Numeral.value_toDigits (by decide) (by decide)]

theorem ofAddress_toNat (w : BitVec width) : ofAddress w.toNat = ofBits w := by
  have hfits : (w.toNat : Int) < 2 ^ width := by exact_mod_cast w.isLt
  rw [ofAddress_eq_ofBits (Int.natCast_nonneg _) hfits, BitVec.ofInt_natCast, BitVec.ofNat_toNat,
    BitVec.setWidth_eq]

end Word

end HackAssembler
