import Mathlib.Algebra.Group.Int.Defs
import Mathlib.Algebra.Group.Nat.Defs
import HackAssembler.Instruction.Word

/-! Address words digit by digit: the text of a word shows the sixteen bits of its address. -/
namespace HackAssembler

namespace Numeral

theorem digitChar_mod_two (n : Nat) : (n % 2).digitChar = bit (n.testBit 0) := by
  rcases Nat.mod_two_eq_zero_or_one n with h | h <;> simp [bit, Nat.testBit_zero, h]

private theorem leftpad_concat (width : Nat) (c d : Char) (t : Text) :
    (t ++ [d]).leftpad (width + 1) c = t.leftpad width c ++ [d] := by
  simp [List.leftpad]

/-- The last digit shows the lowest bit and the others the half. A number without a half is padded instead. -/
private theorem leftpad_toDigits_two_succ (width n : Nat) (hwidth : 0 < width) :
    (Nat.toDigits 2 n).leftpad (width + 1) '0' =
      (Nat.toDigits 2 (n / 2)).leftpad width '0' ++ [bit (n.testBit 0)] := by
  rw [← digitChar_mod_two]
  by_cases h : n < 2
  · have hhalf : n / 2 = 0 := by omega
    have hdigit : n % 2 = n := by omega
    obtain ⟨k, rfl⟩ : ∃ k, width = k + 1 := ⟨width - 1, by omega⟩
    rw [Nat.toDigits_of_lt_base h, hhalf, hdigit, Nat.toDigits_zero]
    simp [List.leftpad, List.replicate_succ']
  · rw [Nat.toDigits_of_base_le (by omega) (by omega), leftpad_concat]

theorem leftpad_toDigits_two {width n : Nat} (hwidth : 0 < width) (h : n < 2 ^ width) :
    (Nat.toDigits 2 n).leftpad width '0' =
      (List.range width).map fun i => bit (n.testBit (width - 1 - i)) := by
  induction width generalizing n with
  | zero => omega
  | succ width ih =>
    rcases Nat.eq_zero_or_pos width with rfl | hpos
    · have hn : n < 2 := by simpa using h
      have hdigit := digitChar_mod_two n
      rw [Nat.mod_eq_of_lt hn] at hdigit
      simp [Nat.toDigits_of_lt_base hn, hdigit, List.leftpad]
    · have hhalf : n / 2 < 2 ^ width := by
        rw [Nat.pow_succ] at h
        omega
      rw [leftpad_toDigits_two_succ width n hpos, ih hpos hhalf, List.range_succ, List.map_append]
      congr 1
      · apply List.map_congr_left
        intro i hi
        have hi : i < width := List.mem_range.1 hi
        rw [Nat.testBit_div_two, show width - 1 - i + 1 = width + 1 - 1 - i by omega]
      · simp

end Numeral

namespace Word

/-- A machine word as text, its highest bit first. -/
def ofBits (w : BitVec width) : Text := (List.range width).map fun i => bit (w.getMsbD i)

@[simp] theorem length_ofBits (w : BitVec width) : (ofBits w).length = width := by
  simp [ofBits]

/-- An address that fits sixteen bits is written with exactly these. -/
theorem ofAddress_eq_ofBits {v : Int} (hnonneg : 0 ≤ v) (hfits : v < 2 ^ width) :
    ofAddress v = ofBits (BitVec.ofInt width v) := by
  obtain ⟨n, rfl⟩ := Int.eq_ofNat_of_zero_le hnonneg
  have hn : n < 2 ^ width := by exact_mod_cast hfits
  rw [ofAddress, Numeral.zeroFilled_of_nonneg hnonneg, Int.toNat_natCast,
    Numeral.leftpad_toDigits_two (by decide) hn, ofBits]
  apply List.map_congr_left
  intro i hi
  have hi : i < width := List.mem_range.1 hi
  have hlow : width - 1 - i < width := by omega
  rw [BitVec.getMsbD, BitVec.ofInt_natCast, BitVec.getLsbD_ofNat]
  simp only [hi, hlow, decide_true, Bool.true_and]

end Word

end HackAssembler
