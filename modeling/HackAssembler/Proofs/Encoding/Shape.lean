import HackAssembler.Proofs.Encoding.State
import HackAssembler.Proofs.Word.Shape

/-! The words that instructions are given. In a context without negative addresses each of them is a machine word, and
its first digit tells an address from a computation: no address is so large that it reaches that digit. -/
namespace HackAssembler

/-- A machine word of the kind that its line asks for. -/
structure Word.Suits (line word : Text) : Prop where
  length : word.length = width
  isBinary : IsBinary word
  zero_iff : word.head? = some '0' ↔ line.head? = some Line.addressMark
  opening : line.head? ≠ some Line.addressMark → computeOpening <+: word

theorem SymbolTable.forall_mem_symbols_bind {p : Symbol → Prop} {t : SymbolTable} {s : Symbol}
    (ht : ∀ u ∈ t.symbols, p u) (hs : p s) : ∀ u ∈ (t.bind s).2.symbols, p u := by
  rw [symbols_bind]
  split
  · exact ht
  · exact List.forall_mem_append.2 ⟨ht, List.forall_mem_singleton.2 hs⟩

namespace Context

/-- No address of the table is negative, nor is the next one for a variable. -/
def IsNonneg (c : Context) : Prop := (∀ s ∈ c.table.symbols, 0 ≤ s.address) ∧ 0 ≤ c.nextVariable

variable {c : Context}

theorem IsNonneg.addressOf (h : c.IsNonneg) {operand : Text} {value : Int}
    (hvalue : c.addressOf operand = .ok value) : 0 ≤ value := by
  unfold Context.addressOf at hvalue
  split at hvalue
  · split at hvalue
    · cases hvalue
    · obtain rfl := Except.ok.inj hvalue
      exact Int.natCast_nonneg _
  · split at hvalue
    · next bound hbound =>
      obtain rfl := Except.ok.inj hvalue
      exact h.1 bound (SymbolTable.mem_of_lookup hbound)
    · obtain rfl := Except.ok.inj hvalue
      exact h.2

theorem IsNonneg.allocate (h : c.IsNonneg) (name : Text) : (c.allocate name).2.IsNonneg := by
  refine ⟨?_, Int.le_trans h.2 (c.nextVariable_le_allocate name)⟩
  rw [table_allocate]
  exact SymbolTable.forall_mem_symbols_bind h.1 h.2

theorem IsNonneg.after (h : c.IsNonneg) (line : Text) : (c.after line).IsNonneg := by
  unfold Context.after afterAddress
  split
  · split
    · exact h.allocate _
    · exact h
  · exact h

theorem IsNonneg.perform (h : c.IsNonneg) {step : Step} (hstep : ∀ s, step = .bind s → 0 ≤ s.address) :
    (c.perform step).2.IsNonneg := by
  cases step with
  | bind s => exact ⟨SymbolTable.forall_mem_symbols_bind h.1 (hstep s rfl), h.2⟩
  | allocate name => exact h.allocate name
  | encode line index => exact h.after line

theorem IsNonneg.performAll (h : c.IsNonneg) {steps : List Step}
    (hsteps : ∀ s, Step.bind s ∈ steps → 0 ≤ s.address) : (c.performAll steps).IsNonneg := by
  apply performAll_induction h
  intro d step hstep hd
  exact hd.perform fun s hs => hsteps s (hs ▸ hstep)

theorem IsNonneg.programFrom (h : c.IsNonneg) (index : Nat) (lines : List Text) :
    (Encoding.programFrom c index lines).2.IsNonneg :=
  Encoding.programFrom_induction h (fun _ line hd => hd.after line) index lines

/-! ### One word -/

variable {line word : Text} {index : Option Int}

/-- The word of an address instruction writes the address of its operand in fifteen digits. -/
theorem IsNonneg.exists_address (h : c.IsNonneg) (hline : Line.isAddress line = true)
    (hword : Encoding.instruction c line index = .ok word) :
    ∃ n : Nat, n < 2 ^ Word.addressWidth ∧ c.addressOf (Line.operand line) = .ok n ∧
      word = Word.ofAddress n := by
  rw [Encoding.instruction, if_pos (Line.kind_eq_address_iff.2 hline), Encoding.address] at hword
  cases hvalue : c.resolve (Line.operand line) with
  | error f =>
    rw [hvalue] at hword
    cases hword
  | ok value =>
    have haddress := addressOf_of_resolve hvalue
    obtain ⟨n, rfl⟩ := Int.eq_ofNat_of_zero_le (h.addressOf haddress)
    simp only [hvalue, Encoding.addressWord] at hword
    split at hword
    · cases hword
    · next hrange =>
      have hfits : n < 2 ^ Word.addressWidth := by
        show n < 32768
        change ¬((32767 : Int) < (n : Int)) at hrange
        omega
      exact ⟨n, hfits, haddress, (Except.ok.inj hword).symm⟩

theorem IsNonneg.suits (h : c.IsNonneg) (hword : Encoding.instruction c line index = .ok word) :
    Word.Suits line word := by
  cases hline : Line.isAddress line with
  | true =>
    have hmark : line.head? = some Line.addressMark := by simpa [Line.isAddress] using hline
    obtain ⟨n, hn, -, hword⟩ := h.exists_address hline hword
    obtain ⟨digits, hlength, hbinary, rfl⟩ := Word.isAddress_iff.2 ⟨n, hn, hword⟩
    refine ⟨?_, List.forall_mem_cons.2 ⟨.inl rfl, hbinary⟩, ?_, fun hno => absurd hmark hno⟩
    · rw [List.length_cons, hlength]
    · simp [hmark]
  | false =>
    have hno : line.head? ≠ some Line.addressMark := by simpa [Line.isAddress] using hline
    have hkind : Line.kind line ≠ .address := by
      rw [Ne, Line.kind_eq_address_iff, hline]
      exact Bool.false_ne_true
    rw [Encoding.instruction, if_neg hkind, Encoding.compute_eq_ok_iff] at hword
    obtain ⟨c, -, rfl⟩ := hword
    refine ⟨c.length_word, Word.isBinary_of_isCompute c.isCompute_word, ?_, fun _ => ?_⟩
    · have hone : c.word.head? = some '1' := rfl
      simp [hone, hno]
    · rw [Compute.word, List.append_assoc, List.append_assoc]
      exact List.prefix_append _ _

end Context

namespace Encoding

/-- The words of a program that is encoded to its end are those of its instructions, one by one, each in the context
that the ones in front of it leave. -/
theorem instruction_of_programFrom {c : Context} {index : Nat} {lines words : List Text}
    (h : (programFrom c index lines).1 = .ok words) :
    words.length = lines.length ∧ ∀ (i : Nat) (line : Text), lines[i]? = some line →
      ∃ word, words[i]? = some word ∧
        instruction (programFrom c index (lines.take i)).2 line (some ((index + i : Nat) : Int)) =
          .ok word := by
  induction lines generalizing c index words with
  | nil =>
    obtain rfl := Except.ok.inj h
    exact ⟨rfl, nofun⟩
  | cons first rest ih =>
    rw [programFrom_cons] at h
    cases hfirst : instruction c first (some (index : Int)) with
    | error f =>
      rw [hfirst] at h
      cases h
    | ok head =>
      simp only [hfirst] at h
      obtain ⟨tail, hrest, rfl⟩ := Except.map_eq_ok_iff.1 h
      obtain ⟨hlength, hwords⟩ := ih hrest
      refine ⟨by rw [List.length_cons, List.length_cons, hlength], ?_⟩
      intro i line hline
      cases i with
      | zero =>
        obtain rfl : first = line := Option.some.inj hline
        exact ⟨head, rfl, hfirst⟩
      | succ i =>
        obtain ⟨word, hword, hinstruction⟩ := hwords i line hline
        refine ⟨word, hword, ?_⟩
        rw [List.take_succ_cons, programFrom_cons, hfirst, ← Nat.add_assoc, Nat.add_right_comm]
        exact hinstruction

/-- From a context without negative addresses on, whatever steps are made in it that bind none either: the word of an
instruction is a machine word of the kind that its line asks for, and behind the zero of an address word stand the
digits of the address. A program that is encoded to its end has one such word for each of its lines, in order. -/
theorem suits_of_performAll {table : SymbolTable} {next : Int} {steps : List Step}
    (htable : ∀ s ∈ table.symbols, 0 ≤ s.address) (hnext : 0 ≤ next)
    (hsteps : ∀ s, Step.bind s ∈ steps → 0 ≤ s.address) :
    let here := Context.performAll ⟨table, next⟩ steps
    (∀ line index word, (here.perform (.encode line index)).1 = .ok (.word word) →
      Word.Suits line word ∧
      (line.head? = some Line.addressMark → ∃ value digits,
        here.addressOf (Line.operand line) = .ok value ∧ value ≤ Word.maxAddress ∧
          word = '0' :: digits ∧ Numeral.value 2 digits = value)) ∧
    (∀ lines words, (program here.table lines).1 = .ok words →
      words.length = lines.length ∧ ∀ (i : Nat) (line : Text), lines[i]? = some line →
        ∃ word, words[i]? = some word ∧ Word.Suits line word ∧
          instruction (program here.table (lines.take i)).2 line (some i) = .ok word) := by
  intro here
  have hhere : here.IsNonneg := Context.IsNonneg.performAll ⟨htable, hnext⟩ hsteps
  constructor
  · intro line index word hanswer
    obtain ⟨word', hraised, hsame⟩ := Except.map_eq_ok_iff.1 hanswer
    obtain rfl := Step.Answer.word.inj hsame
    have hword := Except.mapError_eq_ok_iff.1 hraised
    refine ⟨hhere.suits hword, fun hmark => ?_⟩
    have hline : Line.isAddress line = true := by simpa [Line.isAddress] using hmark
    obtain ⟨n, hn, hvalue, rfl⟩ := hhere.exists_address hline hword
    obtain ⟨digits, -, -, hdigits⟩ := Word.isAddress_iff.2 ⟨n, hn, rfl⟩
    refine ⟨n, digits, hvalue, ?_, hdigits, congrArg _ (Word.value_of_ofAddress hdigits)⟩
    exact Int.lt_add_one_iff.1 (Int.ofNat_lt.2 hn)
  · intro lines words hwords
    have hbase : 0 ≤ Symbol.variableBase := by decide
    have hstart : (⟨here.table, Symbol.variableBase⟩ : Context).IsNonneg := ⟨hhere.1, hbase⟩
    obtain ⟨hlength, hinstructions⟩ := instruction_of_programFrom hwords
    refine ⟨hlength, fun i line hline => ?_⟩
    obtain ⟨word, hword, hinstruction⟩ := hinstructions i line hline
    rw [Nat.zero_add] at hinstruction
    exact ⟨word, hword, (hstart.programFrom 0 _).suits hinstruction, hinstruction⟩

/-- A reference to the variable at the last address but one, and a computation. -/
def edgeLines : List Text := [Line.address ['x'], ['D', '=', 'M']]

theorem suits_of_passingSteps :
    let here := Context.performAll ⟨.initial, 32766⟩ Context.passingSteps
    Word.Suits (Line.address ['x']) (Word.ofAddress 32766) ∧
      ∃ words word, (program here.table edgeLines).1 = .ok words ∧ words.length = 2 ∧
        words[1]? = some word ∧ Word.Suits ['D', '=', 'M'] word := by
  intro here
  have htable : ∀ s ∈ SymbolTable.initial.symbols, 0 ≤ s.address := by
    rw [SymbolTable.symbols_initial]
    decide
  have hsteps : ∀ s, Step.bind s ∈ Context.passingSteps → 0 ≤ s.address := by
    simp [Context.passingSteps]
  have hanswer : (here.perform (.encode (Line.address ['x']) none)).1 =
      .ok (.word (Word.ofAddress 32766)) := by decide +kernel
  have hok : (program here.table edgeLines).1.isOk = true := by decide +kernel
  obtain ⟨hword, hprogram⟩ :=
    @suits_of_performAll .initial 32766 Context.passingSteps htable (by decide) hsteps
  cases hwords : (program here.table edgeLines).1 with
  | error f =>
    rw [hwords] at hok
    cases hok
  | ok words =>
    obtain ⟨hlength, hline⟩ := hprogram edgeLines words hwords
    obtain ⟨word, hplace, hsuits, -⟩ := hline 1 _ rfl
    exact ⟨(hword _ _ _ hanswer).1, words, word, rfl, hlength, hplace, hsuits⟩

end Encoding

end HackAssembler
