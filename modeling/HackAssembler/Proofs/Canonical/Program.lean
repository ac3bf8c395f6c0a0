import Mathlib.Data.Set.List
import HackAssembler.Proofs.Canonical.Instruction
import HackAssembler.Proofs.Source.Cleaning
import HackAssembler.Proofs.Table

/-! Machine code read back. The words of any program are words of instructions, and every sequence of such words is
assembled from one program in canonical form. -/
namespace HackAssembler

namespace Program

theorem isMachineWord_of_word? {lines : List Text} {line word : Text} (h : word? lines line = some word) :
    Word.IsMachineWord word := by
  unfold word? at h
  by_cases haddress : Line.isAddress line = true
  · rw [if_pos haddress] at h
    by_cases hrange : Word.maxAddress < value lines (Line.operand line)
    · rw [if_pos hrange] at h
      cases h
    · rw [if_neg hrange] at h
      obtain ⟨n, hn⟩ := Int.eq_ofNat_of_zero_le (value_nonneg lines (Line.operand line))
      have hmax : n < 2 ^ Word.addressWidth := by
        rw [hn] at hrange
        exact Nat.lt_succ_of_le (Int.ofNat_le.1 (Int.not_lt.1 hrange))
      have hfits : (n : Int) < 2 ^ Word.width := by
        exact_mod_cast Nat.lt_trans hmax (by decide)
      rw [hn, ← Word.ofAddress_eq_ofBits (Int.natCast_nonneg n) hfits] at h
      exact .inl (Word.isAddress_iff.2 ⟨n, hmax, (Option.some.inj h).symm⟩)
  · rw [if_neg haddress] at h
    obtain ⟨c, -, rfl⟩ := Fields.word?_eq_some_iff.1 h
    exact .inr c.isCompute_word

end Program

namespace Instruction

/-- A line that is the canonical one of its word. -/
def IsCanonical (line : Text) : Prop := ∃ i : Instruction, i.line = line

theorem exists_map_line {lines : List Text} (h : ∀ line ∈ lines, IsCanonical line) :
    ∃ program : List Instruction, program.map line = lines := by
  have hrange : lines ∈ Set.range (List.map line) := by
    rw [Set.range_list_map]
    exact h
  exact hrange

theorem exists_map_word {words : List Text} (h : ∀ word ∈ words, Word.IsMachineWord word) :
    ∃ program : List Instruction, program.map word = words := by
  have hrange : words ∈ Set.range (List.map word) := by
    rw [Set.range_list_map]
    exact fun word hword => isMachineWord_iff.1 (h word hword)
  exact hrange

theorem map_ofWord? (program : List Instruction) : (program.map word).map ofWord? = program.map some := by
  rw [List.map_map]
  exact List.map_congr_left fun i _ => ofWord?_eq_some_iff.2 rfl

theorem map_word_injective : Function.Injective (List.map word) := by
  intro first next h
  apply (List.map_injective_iff.2 (Option.some_injective Instruction))
  rw [← map_ofWord?, ← map_ofWord?, h]

end Instruction

/-! ### Canonical lines in source text -/

theorem Comp.isPlain_mnemonic : ∀ c : Comp, Source.IsPlain c.mnemonic :=
  FieldValue.forall_of_mem_all (by decide)

theorem Dest.isPlain_mnemonic : ∀ dest : Dest, Source.IsPlain dest.mnemonic :=
  FieldValue.forall_of_mem_all (by decide)

theorem Jump.isPlain_mnemonic : ∀ jump : Jump, Source.IsPlain jump.mnemonic :=
  FieldValue.forall_of_mem_all (by decide)

namespace Compute

theorem isPlain_line (c : Compute) : Source.IsPlain c.line := by
  rw [← c.text_spelling]
  exact c.spelling.forall_mem_text (by decide) (by decide) Comp.isPlain_mnemonic Dest.isPlain_mnemonic
    Jump.isPlain_mnemonic

theorem line_ne_nil (c : Compute) : c.line ≠ [] := by
  intro h
  -- The empty line would be cut into an empty computation.
  have hcomp : [] = c.comp.mnemonic := congrArg Fields.comp (h ▸ c.split_line)
  exact c.comp.mnemonic_ne_nil hcomp.symm

end Compute

namespace Instruction

theorem isPlain_line (i : Instruction) : Source.IsPlain i.line := by
  cases i with
  | address n =>
    have hdigits : ∀ c ∈ Nat.toDigits 10 n, c.isDigit = true :=
      fun _ => Nat.isDigit_of_mem_toDigits (by decide) (by decide)
    exact List.forall_mem_cons.2 ⟨by decide, Source.isPlain_of_isDigit hdigits⟩
  | compute c => exact c.isPlain_line

theorem line_ne_nil (i : Instruction) : i.line ≠ [] := by
  cases i with
  | address n => exact List.cons_ne_nil _ _
  | compute c => exact c.line_ne_nil

end Instruction

/-! ### Assembly of canonical programs -/

theorem Encoding.programFrom_map_line (program : List Instruction) (c : Context) (index : Nat) :
    (programFrom c index (program.map Instruction.line)).1 = .ok (program.map Instruction.word) := by
  induction program generalizing c index with
  | nil => rfl
  | cons i rest ih =>
    rw [List.map_cons, programFrom_cons, i.encode_line]
    simp only [ih, Except.map, List.map_cons]

namespace Assembly
open Program

/-- The lines are assembled, and to these words. -/
def Assembles (strict : Bool) (file : Text) (lines : List SourceLine) (words : List Text) : Prop :=
  ∃ a, ofSourceLines strict file lines = .ok a ∧ a.words = words

variable {strict : Bool} {file : Text} {lines : List SourceLine} {words : List Text}

theorem Assembles.isMachineWord (h : Assembles strict file lines words) :
    ∀ word ∈ words, Word.IsMachineWord word := by
  obtain ⟨a, hrun, rfl⟩ := h
  obtain ⟨labels, -, hcollect, -, -⟩ := exists_labels_of_ofSourceLines hrun
  intro word hword
  have hmem : some word ∈ (Labels.instructions (texts lines)).map (word? (texts lines)) := by
    rw [← words_of_collect hcollect]
    exact List.mem_map_of_mem hword
  obtain ⟨line, -, hline⟩ := List.mem_map.1 hmem
  exact isMachineWord_of_word? hline

theorem Assembles.isBinary (h : Assembles strict file lines words) :
    ∀ word ∈ words, word.length = Word.width ∧ Word.IsBinary word :=
  fun word hword => Word.isBinary_of_isMachineWord (h.isMachineWord word hword)

theorem assembles_of_texts {program : List Instruction} (h : texts lines = program.map Instruction.line)
    (strict : Bool) (file : Text) : Assembles strict file lines (program.map Instruction.word) := by
  have hlabel : ∀ line ∈ texts lines, Line.isLabel line = false := by
    rw [h, List.forall_mem_map]
    exact fun i _ => i.isLabel_line
  have hinstructions : Labels.instructions (texts lines) = texts lines := by
    rw [Labels.instructions, List.filter_eq_self]
    intro line hline
    rw [hlabel line hline]
    rfl
  have hbind := Labels.bind_of_not_label hlabel strict
  have hencode := Encoding.programFrom_map_line program ⟨.initial, Symbol.variableBase⟩ 0
  rw [← h] at hencode
  unfold Assembles ofSourceLines
  simp only [hbind, hinstructions, Encoding.program]
  rcases hrun : Encoding.programFrom ⟨.initial, Symbol.variableBase⟩ 0 (texts lines) with ⟨f | found, context⟩
  · rw [hrun] at hencode
    cases hencode
  · rw [hrun] at hencode
    exact ⟨_, rfl, Except.ok.inj hencode⟩

/-- Written one below the other, canonical lines are the whole program. -/
theorem texts_clean_terminated (program : List Instruction) :
    texts (Source.clean (Output.terminated (program.map Instruction.line))) = program.map Instruction.line := by
  apply Source.map_text_clean_terminated
  rw [List.forall_mem_map]
  exact fun i _ => ⟨i.line_ne_nil, i.isPlain_line⟩

theorem Assembles.words_eq {program : List Instruction} (h : Assembles strict file lines words)
    (hprogram : texts lines = program.map Instruction.line) : words = program.map Instruction.word := by
  obtain ⟨a, hrun, rfl⟩ := h
  obtain ⟨b, hb, hwords⟩ := assembles_of_texts hprogram strict file
  rw [hrun] at hb
  obtain rfl := Except.ok.inj hb
  exact hwords

theorem eq_of_assembles {first next : List Text} (hfirst : ∀ line ∈ first, Instruction.IsCanonical line)
    (hnext : ∀ line ∈ next, Instruction.IsCanonical line)
    (h : Assembles strict file (Source.ofLines first) words)
    (h' : Assembles strict file (Source.ofLines next) words) : first = next := by
  obtain ⟨p, rfl⟩ := Instruction.exists_map_line hfirst
  obtain ⟨q, rfl⟩ := Instruction.exists_map_line hnext
  have hwords := (h.words_eq (Source.map_text_ofLines _)).symm.trans (h'.words_eq (Source.map_text_ofLines _))
  rw [Instruction.map_word_injective hwords]

/-- Every sequence of machine words has exactly one canonical program, which is read back from it word by word. The
words of any program are of this kind, so that reading them back and assembling what was read gives them again, and
canonical programs with equal words are equal. -/
theorem canonical_program_of_words (strict : Bool) (file : Text) :
    (∀ words : List Text, (∀ word ∈ words, Word.IsMachineWord word) →
      ∃ program : List Instruction, words.map Instruction.ofWord? = program.map some ∧
        ∀ lines : List Text,
          ((∀ line ∈ lines, Instruction.IsCanonical line) ∧
              Assembles strict file (Source.ofLines lines) words) ↔
            lines = program.map Instruction.line) ∧
    (∀ lines words, Assembles strict file lines words → ∀ word ∈ words, Word.IsMachineWord word) ∧
    (∀ lines words, Assembles strict file lines words →
      ∃ program : List Instruction, words.map Instruction.ofWord? = program.map some ∧
        Assembles strict file (Source.ofLines (program.map Instruction.line)) words ∧
        Assembles strict file (Source.clean (Output.terminated (program.map Instruction.line))) words) ∧
    (∀ first next words, (∀ line ∈ first, Instruction.IsCanonical line) →
      (∀ line ∈ next, Instruction.IsCanonical line) →
      Assembles strict file (Source.ofLines first) words →
      Assembles strict file (Source.ofLines next) words → first = next) := by
  have hown : ∀ program : List Instruction,
      Assembles strict file (Source.ofLines (program.map Instruction.line)) (program.map Instruction.word) :=
    fun program => assembles_of_texts (Source.map_text_ofLines _) strict file
  refine ⟨?_, ?_, ?_, ?_⟩
  · intro words hwords
    obtain ⟨program, rfl⟩ := Instruction.exists_map_word hwords
    have hcanonical : ∀ line ∈ program.map Instruction.line, Instruction.IsCanonical line :=
      List.forall_mem_map.2 fun i _ => ⟨i, rfl⟩
    refine ⟨program, Instruction.map_ofWord? program, fun lines => ⟨?_, ?_⟩⟩
    · rintro ⟨hlines, h⟩
      exact eq_of_assembles hlines hcanonical h (hown program)
    · rintro rfl
      exact ⟨hcanonical, hown program⟩
  · intro lines words h
    exact h.isMachineWord
  · intro lines words h
    obtain ⟨program, rfl⟩ := Instruction.exists_map_word h.isMachineWord
    exact ⟨program, Instruction.map_ofWord? program, hown program,
      assembles_of_texts (texts_clean_terminated program) strict file⟩
  · intro first next words hfirst hnext h h'
    exact eq_of_assembles hfirst hnext h h'

/-- An address and a conditional jump. -/
def loopWords : List Text :=
  [17, 0b1110001110011001].map fun n => Word.ofBits (BitVec.ofNat Word.width n)

def loopInstructions : List Instruction :=
  [.address ⟨17, by decide⟩, .compute ⟨⟨false, true, true⟩, .dataMinusOne, .positive⟩]

theorem canonical_program_of_loopWords :
    Assembles true [] (Source.ofLines [['@', '1', '7'], ['M', 'D', '=', 'D', '-', '1', ';', 'J', 'G', 'T']])
      loopWords := by
  have hread : loopWords.map Instruction.ofWord? = loopInstructions.map some := by decide +kernel
  have hwords : ∀ word ∈ loopWords, Word.IsMachineWord word := by
    intro word hword
    have hsome : Instruction.ofWord? word ∈ loopInstructions.map some := hread ▸ List.mem_map_of_mem hword
    obtain ⟨i, -, hi⟩ := List.mem_map.1 hsome
    exact Instruction.isMachineWord_iff.2 ⟨i, Instruction.ofWord?_eq_some_iff.1 hi.symm⟩
  obtain ⟨program, hprogram, hunique⟩ := (canonical_program_of_words true []).1 loopWords hwords
  obtain rfl : loopInstructions = program :=
    List.map_injective_iff.2 (Option.some_injective Instruction) (hread.symm.trans hprogram)
  exact ((hunique _).2 (by decide +kernel)).2

end Assembly

end HackAssembler
