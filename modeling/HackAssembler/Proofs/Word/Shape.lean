import Mathlib.Data.List.Basic
import HackAssembler.Proofs.Word.Digits

/-! The two shapes of a machine word. One loads an address of fifteen bits, the other computes what its operand bit and
its control bits select. -/
namespace HackAssembler

namespace Word

/-- A zero and the digits of an address. -/
def IsAddress (word : Text) : Prop :=
  ∃ digits, digits.length = addressWidth ∧ IsBinary digits ∧ word = '0' :: digits

/-- The opening, the bits of a computation that has a mnemonic, and six digits for destination and jump. -/
def IsCompute (word : Text) : Prop :=
  ∃ (comp : Comp) (rest : Text), rest.length = 6 ∧ IsBinary rest ∧
    word = computeOpening ++ Comp.operandBit comp.mnemonic :: FieldValue.bits comp ++ rest

def IsMachineWord (word : Text) : Prop := IsAddress word ∨ IsCompute word

/-! ### Address words -/

/-- The highest digit of a word is zero if its number fits fifteen bits. -/
theorem getLsbD_high_eq_false_iff {w : BitVec width} :
    w.getLsbD 15 = false ↔ w.toNat < 2 ^ addressWidth := by
  have hhalf : w.msb = false ↔ 2 * w.toNat < 2 ^ width := BitVec.msb_eq_false_iff_two_mul_lt
  have hlast : w.msb = w.getLsbD 15 := BitVec.msb_eq_getLsbD_last w
  have hpow : 2 ^ width = 2 * 2 ^ addressWidth := by decide
  rw [← hlast, hhalf, hpow]
  omega

theorem isAddress_iff {word : Text} :
    IsAddress word ↔ ∃ n : Nat, n < 2 ^ addressWidth ∧ word = ofAddress n := by
  constructor
  · rintro ⟨digits, hlength, hbinary, rfl⟩
    have hword : IsBinary ('0' :: digits) := List.forall_mem_cons.2 ⟨.inl rfl, hbinary⟩
    obtain ⟨w, hw⟩ := exists_ofBits (by rw [List.length_cons, hlength]) hword
    have hhigh : w.getLsbD 15 = false := getLsbD_of_digit hw (by decide) rfl
    exact ⟨w.toNat, getLsbD_high_eq_false_iff.1 hhigh, hw.trans (ofAddress_toNat w).symm⟩
  · rintro ⟨n, hn, rfl⟩
    have hfits : n < 2 ^ width := Nat.lt_trans hn (by decide)
    obtain ⟨w, rfl⟩ : ∃ w : BitVec width, w.toNat = n :=
      ⟨BitVec.ofNat width n, by rw [BitVec.toNat_ofNat, Nat.mod_eq_of_lt hfits]⟩
    have hdigit := getElem?_of_eq_ofBits (ofAddress_toNat w) (j := 15) (by decide)
    rw [getLsbD_high_eq_false_iff.2 hn] at hdigit
    obtain ⟨digits, hdigits⟩ : ∃ digits, ofAddress w.toNat = '0' :: digits :=
      List.head?_eq_some_iff.1 (List.head?_eq_getElem? ▸ hdigit)
    have hlength := length_ofBits w
    have hbinary := isBinary_ofBits w
    rw [← ofAddress_toNat, hdigits] at hlength hbinary
    exact ⟨digits, Nat.succ.inj hlength, (List.forall_mem_cons.1 hbinary).2, hdigits⟩

/-- The digits behind the leading zero write the address. -/
theorem value_of_ofAddress {n : Nat} {digits : Text} (h : ofAddress n = '0' :: digits) :
    Numeral.value 2 digits = n := by
  have hvalue := value_ofAddress n
  rw [h] at hvalue
  exact hvalue

end Word

/-! ### Compute words -/

theorem Jump.length_bits (jump : Jump) : jump.bits.length = 3 := by
  cases jump <;> rfl

theorem Jump.isBinary_bits (jump : Jump) : Word.IsBinary jump.bits := by
  cases jump <;> decide

theorem Dest.isBinary_bits (dest : Dest) : Word.IsBinary dest.bits := by
  intro c hc
  simp only [Dest.bits, List.mem_cons, List.not_mem_nil, or_false] at hc
  rcases hc with rfl | rfl | rfl <;> exact Word.bit_eq_zero_or_one _

theorem Control.isBinary_bits (c : Control) : Word.IsBinary c.bits := by
  intro d hd
  simp only [Control.bits, List.mem_cons, List.not_mem_nil, or_false] at hd
  rcases hd with rfl | rfl | rfl | rfl | rfl | rfl <;> exact Word.bit_eq_zero_or_one _

theorem Word.exists_bits_of_length {t : Text} (hlength : t.length = 3) (hbinary : IsBinary t) :
    ∃ a b c : Bool, t = [bit a, bit b, bit c] := by
  have hdigit : ∀ d ∈ t, bit (d = '1') = d := by
    intro d hd
    rcases hbinary d hd with rfl | rfl <;> rfl
  obtain ⟨x, y, z, rfl⟩ := List.length_eq_three.1 hlength
  have hx := hdigit x List.mem_cons_self
  have hy := hdigit y (List.mem_cons_of_mem x List.mem_cons_self)
  have hz := hdigit z (List.mem_cons_of_mem x (List.mem_cons_of_mem y List.mem_cons_self))
  exact ⟨x = '1', y = '1', z = '1', by rw [hx, hy, hz]⟩

theorem Jump.exists_bits (a b c : Bool) : ∃ jump : Jump, jump.bits = [bit a, bit b, bit c] := by
  have key : ∀ a b c : Bool, ∃ jump ∈ Jump.all, jump.bits = [bit a, bit b, bit c] := by decide
  obtain ⟨jump, -, hjump⟩ := key a b c
  exact ⟨jump, hjump⟩

namespace Compute

theorem length_word (c : Compute) : c.word.length = Word.width := by
  have hjump := Jump.length_bits c.jump
  change (Word.computeOpening ++ Comp.operandBit c.comp.mnemonic :: c.comp.control.bits ++ c.dest.bits ++
    c.jump.bits).length = Word.width
  rw [List.length_append, hjump]
  rfl

theorem isCompute_word (c : Compute) : Word.IsCompute c.word := by
  refine ⟨c.comp, c.dest.bits ++ c.jump.bits, ?_, ?_, ?_⟩
  · rw [List.length_append, Jump.length_bits]
    rfl
  · exact Word.isBinary_append.2 ⟨c.dest.isBinary_bits, c.jump.isBinary_bits⟩
  · exact List.append_assoc _ _ _

end Compute

theorem Word.isCompute_iff {word : Text} : IsCompute word ↔ ∃ c : Compute, word = c.word := by
  constructor
  · rintro ⟨comp, rest, hlength, hbinary, rfl⟩
    -- Any three digits are the bits of a destination, and any three those of a jump.
    rw [← List.take_append_drop 3 rest, isBinary_append] at hbinary
    obtain ⟨a, d, m, hdest⟩ := exists_bits_of_length (by rw [List.length_take, hlength]; rfl) hbinary.1
    obtain ⟨x, y, z, hrest⟩ := exists_bits_of_length (by rw [List.length_drop, hlength]) hbinary.2
    obtain ⟨jump, hjump⟩ := Jump.exists_bits x y z
    refine ⟨⟨⟨a, d, m⟩, comp, jump⟩, ?_⟩
    rw [← List.take_append_drop 3 rest, hdest, hrest, ← hjump]
    rfl
  · rintro ⟨c, rfl⟩
    exact c.isCompute_word

theorem Word.isBinary_of_isCompute {word : Text} (h : IsCompute word) : IsBinary word := by
  obtain ⟨comp, rest, -, hbinary, rfl⟩ := h
  have hopening : IsBinary computeOpening := by decide
  have hoperand : IsBinary [Comp.operandBit comp.mnemonic] :=
    List.forall_mem_singleton.2 (bit_eq_zero_or_one _)
  have hcontrol : IsBinary (FieldValue.bits comp) := comp.control.isBinary_bits
  rw [isBinary_append, isBinary_append]
  exact ⟨⟨hopening, List.forall_mem_cons.2 ⟨bit_eq_zero_or_one _, hcontrol⟩⟩, hbinary⟩

theorem Word.isBinary_of_isMachineWord {word : Text} (h : IsMachineWord word) :
    word.length = width ∧ IsBinary word := by
  rcases h with ⟨digits, hlength, hbinary, rfl⟩ | hcompute
  · exact ⟨by rw [List.length_cons, hlength], List.forall_mem_cons.2 ⟨.inl rfl, hbinary⟩⟩
  · obtain ⟨c, rfl⟩ := isCompute_iff.1 hcompute
    exact ⟨c.length_word, isBinary_of_isCompute hcompute⟩

end HackAssembler
