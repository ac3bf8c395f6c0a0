import HackAssembler.Proofs.Literal
import HackAssembler.Proofs.Word.Shape

/-! Numbers as words. Every number has a text of its own as an address word, which is a word of sixteen digits only for
the numbers that fit it, and a literal that fits is written in binary as it was in decimal. -/
namespace HackAssembler

namespace Word

/-- A number that is not negative opens its sixteen digits with a zero if it is an address. -/
theorem opens_with_zero_iff {v : Int} (hnonneg : 0 ≤ v) :
    (ofAddress v).length = width ∧ (ofAddress v).head? = some '0' ↔ v ≤ maxAddress := by
  obtain ⟨n, rfl⟩ := Int.eq_ofNat_of_zero_le hnonneg
  have hbound : (n : Int) ≤ maxAddress ↔ n < 2 ^ addressWidth := by
    show (n : Int) ≤ 32767 ↔ n < 32768
    omega
  rw [hbound]
  constructor
  · rintro ⟨hlength, hhead⟩
    -- Sixteen digits that open with a zero are the word of an address, and no other number has this word.
    have hfits : (n : Int) < 2 ^ width := ((Numeral.length_zeroFilled_eq_iff (by decide) (by decide) _).1 hlength).2
    obtain ⟨digits, hdigits⟩ := List.head?_eq_some_iff.1 hhead
    have hbinary : IsBinary (ofAddress n) := by
      rw [ofAddress_eq_ofBits hnonneg hfits]
      exact isBinary_ofBits _
    rw [hdigits] at hlength hbinary
    have haddress : IsAddress (ofAddress n) :=
      ⟨digits, Nat.succ.inj hlength, (List.forall_mem_cons.1 hbinary).2, hdigits⟩
    obtain ⟨m, hm, hsame⟩ := isAddress_iff.1 haddress
    have hnumber : (n : Int) = m := Numeral.zeroFilled_injective (by decide) (by decide) width hsame
    rwa [Int.ofNat_inj.1 hnumber]
  · intro hn
    obtain ⟨digits, hlength, -, hdigits⟩ := isAddress_iff.2 ⟨n, hn, rfl⟩
    rw [hdigits, List.length_cons, hlength]
    exact ⟨rfl, rfl⟩

end Word

namespace Context

/-- A literal takes no part in the symbols, even where one of them has its digits for a name. -/
theorem afterAddress_literal {digits : Text} (h : Numeral.isLiteral digits = true) (c : Context) :
    c.afterAddress (Line.address digits) = c := by
  have hnew : c.isNew digits = false := by rw [isNew, h, Bool.not_true, Bool.false_and]
  rw [afterAddress, Line.operand_address, hnew, if_neg Bool.false_ne_true]

end Context

namespace Encoding

/-- A literal that can be read and fits has the word of its number. -/
theorem address_literal {digits : Text} (h : Numeral.isLiteral digits = true)
    (hlength : digits.length ≤ Failure.maxLiteralDigits) (hvalue : Numeral.value 10 digits ≤ Word.maxAddress)
    (c : Context) (index : Option Int) :
    address c (Line.address digits) index = .ok (Word.ofAddress (Numeral.value 10 digits)) := by
  have hkind : Line.kind (Line.address digits) = .address :=
    Line.kind_eq_address_iff.2 (Line.isAddress_address digits)
  have hfits : (Numeral.value 10 digits : Int) < 2 ^ Word.width := by
    have hmax : Word.maxAddress < 2 ^ Word.width := by decide
    omega
  have hinstruction := instruction_literal h c index
  rw [instruction, if_pos hkind, literal, if_neg (by omega), if_neg (by omega)] at hinstruction
  rw [hinstruction, Word.ofAddress_eq_ofBits (Int.natCast_nonneg _) hfits, BitVec.ofInt_natCast]

/-- Any number can be read from its address word, so that no two numbers share one. The word has sixteen characters for
the numbers between `-2 ^ 15` and `2 ^ 16` alone, and of those that are not negative the addresses are the ones whose
word opens with a zero. A literal that can be read and is an address becomes the word of its decimal value, with
however many zeros it is written, and leaves table and counter alone, whatever names the table holds. -/
theorem numerals_read_back :
    (∀ v : Int, Numeral.read? 2 (Word.ofAddress v) = some v) ∧
    Function.Injective Word.ofAddress ∧
    (∀ v : Int, (Word.ofAddress v).length = 16 ↔ -2 ^ 15 < v ∧ v < 2 ^ 16) ∧
    (∀ v : Int, 0 ≤ v →
      ((Word.ofAddress v).length = 16 ∧ (Word.ofAddress v).head? = some '0' ↔ v ≤ 32767)) ∧
    ∀ (c : Context) (digits : Text) (index : Option Int), digits ≠ [] →
      (∀ d ∈ digits, d.isDigit = true) → digits.length ≤ 4300 → Numeral.value 10 digits ≤ 32767 →
      ∃ word, address c (Line.address digits) index = .ok word ∧
        Numeral.read? 2 word = some (Numeral.value 10 digits : Int) ∧
        c.afterAddress (Line.address digits) = c ∧
        ∀ zeros, zeros + digits.length ≤ 4300 →
          address c (Line.address (List.replicate zeros '0' ++ digits)) index = .ok word := by
  have hread : ∀ v : Int, Numeral.read? 2 (Word.ofAddress v) = some v :=
    Numeral.read?_zeroFilled (by decide) (by decide) Word.width
  refine ⟨hread, Numeral.zeroFilled_injective (by decide) (by decide) _,
    Numeral.length_zeroFilled_eq_iff (by decide) (by decide), fun v => Word.opens_with_zero_iff, ?_⟩
  intro c digits index hne hdigits hlength hvalue
  have hvalue : (Numeral.value 10 digits : Int) ≤ Word.maxAddress := Int.ofNat_le.2 hvalue
  have hliteral : Numeral.isLiteral digits = true := (Numeral.isLiteral_iff digits).2 ⟨hne, hdigits⟩
  refine ⟨_, address_literal hliteral hlength hvalue c index, hread _, c.afterAddress_literal hliteral, ?_⟩
  intro zeros hzeros
  have hpadded : Numeral.value 10 (List.replicate zeros '0' ++ digits) = Numeral.value 10 digits :=
    Numeral.value_replicate_zero_append 10 zeros digits
  have hlong : Numeral.isLiteral (List.replicate zeros '0' ++ digits) = true := by
    refine (Numeral.isLiteral_iff _).2 ⟨List.append_ne_nil_of_right_ne_nil _ hne, fun d hd => ?_⟩
    rcases List.mem_append.1 hd with hd | hd
    · rw [List.eq_of_mem_replicate hd]
      decide
    · exact hdigits d hd
  rw [← hpadded] at hvalue ⊢
  exact address_literal hlong (by simpa using hzeros) hvalue c index

/-- A context in which the digits `007` are a label. -/
def boundDigits : Context := ⟨(SymbolTable.initial.bind ⟨['0', '0', '7'], 99, .label⟩).2, 20⟩

theorem numerals_read_back_of_boundDigits :
    boundDigits.table.address? ['0', '0', '7'] = some 99 ∧
    (Word.ofAddress (-32767)).length = 16 ∧
    (Word.ofAddress 32767).head? = some '0' ∧
    ∃ word, address boundDigits (Line.address ['0', '0', '7']) none = .ok word ∧
      Numeral.read? 2 word = some 7 ∧
      boundDigits.afterAddress (Line.address ['0', '0', '7']) = boundDigits ∧
      address boundDigits (Line.address (List.replicate 4297 '0' ++ ['0', '0', '7'])) none = .ok word := by
  have hbound : boundDigits.table.address? ['0', '0', '7'] = some 99 := by decide +kernel
  obtain ⟨-, -, hlength, hopens, hliteral⟩ := numerals_read_back
  obtain ⟨word, hword, hvalue, hafter, hzeros⟩ :=
    hliteral boundDigits ['0', '0', '7'] none (by decide) (List.all_eq_true.1 (by decide)) (by decide) (by decide)
  exact ⟨hbound, (hlength _).2 (by decide), ((hopens 32767 (by decide)).2 (by decide)).2, word, hword, hvalue,
    hafter, hzeros 4297 (by decide)⟩

end Encoding

end HackAssembler
