import Mathlib.Algebra.Group.Int.Defs
import Mathlib.Algebra.Group.Nat.Defs
import Mathlib.Data.Int.Order.Basic
import Mathlib.Tactic.Common
import HackAssembler.Text.Blank
import HackAssembler.Text.Numeral

/-! Numerals read back. A row of digits is read in its base whatever zeros stand in front of it, and a minus sign may
come first. -/
namespace HackAssembler.Numeral

/-- A digit of a base up to ten. -/
def isDigitOf (base : Nat) (c : Char) : Bool := c.isDigit && c.toNat < '0'.toNat + base

/-- The number that a row of digits writes. Other texts write none. -/
def unsigned? (base : Nat) (t : Text) : Option Nat :=
  if !t.isEmpty && t.all (isDigitOf base) then some (value base t) else none

/-- The number that a row of digits writes, with a minus sign in front of it or none. -/
def read? (base : Nat) (t : Text) : Option Int :=
  if t.head? = some '-' then (unsigned? base t.tail).map fun n : Nat => -(n : Int)
  else (unsigned? base t).map fun n : Nat => (n : Int)

variable {base : Nat}

/-! ### Digits -/

theorem isDigitOf_digitChar {d : Nat} (hd : d < base) (hten : base ≤ 10) : isDigitOf base d.digitChar = true := by
  have hzero : '0'.toNat = 48 := rfl
  rw [isDigitOf, Nat.isDigit_digitChar, Nat.toNat_digitChar_of_lt_ten (by omega), hzero]
  simp only [Bool.and_eq_true, decide_eq_true_eq]
  omega

theorem isDigitOf_of_mem_toDigits (hbase : 1 < base) (hten : base ≤ 10) {n : Nat} {c : Char}
    (h : c ∈ Nat.toDigits base n) : isDigitOf base c = true := by
  -- The last digit comes off at the right, and what is left of the number is smaller.
  induction n using Nat.strongRecOn with
  | ind n ih =>
    rw [Nat.toDigits_eq_if hbase] at h
    split at h
    · next hlt =>
      rw [List.mem_singleton.1 h]
      exact isDigitOf_digitChar hlt hten
    · next hge =>
      rcases List.mem_append.1 h with h | h
      · exact ih (n / base) (Nat.div_lt_self (by omega) hbase) h
      · rw [List.mem_singleton.1 h]
        exact isDigitOf_digitChar (Nat.mod_lt n (by omega)) hten

theorem isDigitOf_of_mem_leftpad (hbase : 1 < base) (hten : base ≤ 10) {width n : Nat} {c : Char}
    (h : c ∈ (Nat.toDigits base n).leftpad width '0') : isDigitOf base c = true := by
  rcases List.mem_append.1 h with h | h
  · rw [List.eq_of_mem_replicate h]
    exact isDigitOf_digitChar (d := 0) (by omega) hten
  · exact isDigitOf_of_mem_toDigits hbase hten h

theorem ne_minus_of_isDigitOf {c : Char} (h : isDigitOf base c = true) : c ≠ '-' := by
  rintro rfl
  cases h

theorem isBlank_eq_false_of_isDigitOf {c : Char} (h : isDigitOf base c = true) : Text.isBlank c = false := by
  rw [isDigitOf, Bool.and_eq_true] at h
  exact Text.isBlank_eq_false_of_isDigit h.1

theorem isBlank_eq_false_of_mem_zeroFilled (hbase : 1 < base) (hten : base ≤ 10) {width : Nat} {v : Int} {c : Char}
    (h : c ∈ zeroFilled base width v) : Text.isBlank c = false := by
  by_cases hneg : v < 0
  · rw [zeroFilled_of_neg hneg] at h
    rcases List.mem_cons.1 h with rfl | h
    · decide
    · exact isBlank_eq_false_of_isDigitOf (isDigitOf_of_mem_leftpad hbase hten h)
  · rw [zeroFilled_of_nonneg (by omega)] at h
    exact isBlank_eq_false_of_isDigitOf (isDigitOf_of_mem_leftpad hbase hten h)

theorem leftpad_toDigits_ne_nil (base width n : Nat) : (Nat.toDigits base n).leftpad width '0' ≠ [] :=
  List.append_ne_nil_of_right_ne_nil _ Nat.toDigits_ne_nil

theorem zeroFilled_ne_nil (base width : Nat) (v : Int) : zeroFilled base width v ≠ [] := by
  unfold zeroFilled
  split
  · exact List.cons_ne_nil _ _
  · exact leftpad_toDigits_ne_nil base width _

/-! ### Values -/

/-- Leading zeros do not change a number. -/
theorem value_replicate_zero_append (base n : Nat) (digits : Text) :
    value base (List.replicate n '0' ++ digits) = value base digits := by
  rw [value, Nat.ofDigitChars_append, Nat.ofDigitChars_replicate_zero, Nat.mul_zero, value]

theorem value_leftpad (base width : Nat) (digits : Text) :
    value base (digits.leftpad width '0') = value base digits :=
  value_replicate_zero_append base _ digits

theorem unsigned?_leftpad (hbase : 1 < base) (hten : base ≤ 10) (width n : Nat) :
    unsigned? base ((Nat.toDigits base n).leftpad width '0') = some n := by
  have hne := leftpad_toDigits_ne_nil base width n
  have hdigits : ((Nat.toDigits base n).leftpad width '0').all (isDigitOf base) = true :=
    List.all_eq_true.2 fun c hc => isDigitOf_of_mem_leftpad hbase hten hc
  rw [unsigned?, hdigits, value_leftpad, value_toDigits hbase hten, List.isEmpty_eq_false_iff.2 hne]
  rfl

/-- What is written is read back, whatever its width. -/
theorem read?_zeroFilled (hbase : 1 < base) (hten : base ≤ 10) (width : Nat) (v : Int) :
    read? base (zeroFilled base width v) = some v := by
  by_cases hneg : v < 0
  · have hv : -((v.natAbs : Nat) : Int) = v := by omega
    rw [zeroFilled_of_neg hneg, read?, List.head?_cons, if_pos rfl, List.tail_cons, unsigned?_leftpad hbase hten,
      Option.map_some, hv]
  · have hv : ((v.toNat : Nat) : Int) = v := by omega
    have hhead : ((Nat.toDigits base v.toNat).leftpad width '0').head? ≠ some '-' := fun h =>
      ne_minus_of_isDigitOf (isDigitOf_of_mem_leftpad hbase hten (List.mem_of_mem_head? h)) rfl
    rw [zeroFilled_of_nonneg (by omega), read?, if_neg hhead, unsigned?_leftpad hbase hten, Option.map_some, hv]

theorem zeroFilled_injective (hbase : 1 < base) (hten : base ≤ 10) (width : Nat) :
    Function.Injective (zeroFilled base width) := by
  intro v w h
  have hread := read?_zeroFilled hbase hten width v
  rw [h, read?_zeroFilled hbase hten] at hread
  exact (Option.some.inj hread).symm

/-! ### Widths -/

/-- A numeral has its width exactly if its digits, and the sign if there is one, do not need more. -/
theorem length_zeroFilled_eq_iff (hbase : 1 < base) {width : Nat} (hwidth : 1 < width) (v : Int) :
    (zeroFilled base width v).length = width ↔ -(base ^ (width - 1) : Nat) < v ∧ v < (base ^ width : Nat) := by
  have hpos : 0 < base ^ (width - 1) := Nat.pow_pos (by omega)
  by_cases hneg : v < 0
  · have hdigits := @Nat.length_toDigits_le_iff base v.natAbs (width - 1) hbase (by omega)
    rw [zeroFilled_of_neg hneg, List.length_cons, List.length_leftpad]
    omega
  · have hdigits := @Nat.length_toDigits_le_iff base v.toNat width hbase (by omega)
    rw [zeroFilled_of_nonneg (by omega), List.length_leftpad]
    omega

theorem isWritable_iff {v : Int} : isWritable v = true ↔ v.natAbs < 10 ^ 4300 := by
  have hdigits : ∀ k, 0 < k → ((Nat.toDigits 10 v.natAbs).length ≤ k ↔ v.natAbs < 10 ^ k) :=
    fun k hk => Nat.length_toDigits_le_iff (by decide) hk
  exact decide_eq_true_iff.trans (hdigits 4300 (by decide))

theorem isWritable_eq_false_iff {v : Int} : isWritable v = false ↔ 10 ^ 4300 ≤ v.natAbs := by
  rw [← Bool.not_eq_true, isWritable_iff, Nat.not_lt]

end HackAssembler.Numeral
