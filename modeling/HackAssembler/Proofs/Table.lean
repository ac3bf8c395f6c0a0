import HackAssembler.Proofs.Program.Table

/-! The table behind a program that assembles: which symbols it lists, in which order, and where they point. -/
namespace HackAssembler.Assembly
open Program

/-- What a run that succeeds has gone through: the labels were bound, and every instruction got its word. -/
theorem exists_labels_of_ofSourceLines {strict : Bool} {file : Text} {lines : List SourceLine}
    {a : Assembly} (h : ofSourceLines strict file lines = .ok a) :
    ∃ labels, Labels.bind strict (texts lines) = .ok labels ∧
      collect (outcomes (texts lines)) = .ok a.words ∧
      a.table.symbols = labels.symbols ++ variableSymbols (texts lines) ∧ a.lines = lines := by
  unfold ofSourceLines at h
  cases hbind : Labels.bind strict (texts lines) with
  | error d =>
    simp only [hbind] at h
    cases h
  | ok labels =>
    have hlabels := Labels.symbols_of_bind hbind
    have hcollect := program_eq_collect hlabels
    have hsymbols := @symbols_of_program (texts lines) labels hlabels
    rcases hprogram : Encoding.program labels (Labels.instructions (texts lines)) with ⟨f | words, context⟩
    · simp only [hbind, hprogram] at h
      cases h
    · simp only [hbind, hprogram] at h hcollect hsymbols
      obtain rfl := Except.ok.inj h
      exact ⟨labels, rfl, hcollect.symm, hsymbols rfl, rfl⟩

/-- One word for each instruction. -/
theorem length_words {strict : Bool} {file : Text} {lines : List SourceLine} {a : Assembly}
    (h : ofSourceLines strict file lines = .ok a) :
    a.words.length = (Labels.instructions (texts lines)).length := by
  obtain ⟨labels, -, hwords, -, -⟩ := exists_labels_of_ofSourceLines h
  have hlength := congrArg List.length (words_of_collect hwords)
  rwa [List.length_map, List.length_map] at hlength

/-- A label has the address of its first declaration. -/
theorem lookup_label {lines : List SourceLine} (h : ofSourceLines strict file lines = .ok a) {name : Text}
    (hname : predefined? name = none) (hline : Line.label name ∈ texts lines) :
    a.table.lookup name = some ⟨name, labelAddress (texts lines) name, .label⟩ := by
  obtain ⟨labels, hbind, -, hsymbols, -⟩ := exists_labels_of_ofSourceLines h
  have hlabel := lookup_of_symbols (Labels.symbols_of_bind hbind) name
  rw [hname, Option.none_or, if_pos hline, labels.lookup_eq_find?] at hlabel
  rw [a.table.lookup_eq_find?, hsymbols, List.find?_append, hlabel, Option.some_or]

/-- The table of a program that assembles lists the predefined symbols, then the labels in the order of their first
declaration, then the variables in the order of their first reference, and binding the labels has already made the
first two of these parts. -/
theorem symbols_of_ofSourceLines {strict : Bool} {file : Text} {lines : List SourceLine} {a : Assembly}
    (h : ofSourceLines strict file lines = .ok a) :
    a.table.symbols =
        Symbol.predefined ++ labelSymbols (texts lines) ++ variableSymbols (texts lines) ∧
      a.table.names.Nodup ∧
      ((labelSymbols (texts lines)).map Symbol.address).Pairwise (· ≤ ·) ∧
      (∀ s ∈ labelSymbols (texts lines), s.address ≤ a.words.length) ∧
      (∀ s ∈ variableSymbols (texts lines), 16 ≤ s.address ∧ s.address ≤ 32767) ∧
      ((variableSymbols (texts lines)).map Symbol.address).Nodup ∧
      ∃ labels, Labels.bind strict (texts lines) = .ok labels ∧
        labels.symbols = Symbol.predefined ++ labelSymbols (texts lines) ∧
        labels.symbols <+: a.table.symbols := by
  obtain ⟨labels, hbind, hwords, hsymbols, -⟩ := exists_labels_of_ofSourceLines h
  have hlabels := Labels.symbols_of_bind hbind
  refine ⟨by rw [hsymbols, hlabels], a.table.nodup_names, pairwise_address_labelSymbols _, ?_, ?_,
    nodup_address_variableSymbols _, labels, hbind, hlabels, ?_⟩
  · intro s hs
    rw [length_words h]
    exact address_le_of_mem_labelSymbols hs
  · intro s hs
    exact address_of_mem_variableSymbols hlabels hwords hs
  · rw [hsymbols]
    exact List.prefix_append _ _

/-- Two variables, a label in front of its use and one behind it, a label that is declared twice, one with a
predefined name, one that looks like a number, and one at the end of the program. -/
def mixedNames : List SourceLine :=
  Source.ofLines [Line.address ['w'], Line.address ['E'], Line.label ['L'], Line.label ['R', '1'],
    Line.address ['v'], Line.label ['7'], Line.label ['L'], Line.address ['w'], Line.address ['7'],
    Line.label ['E']]

theorem symbols_of_mixedNames :
    ∃ a, ofSourceLines false [] mixedNames = .ok a ∧
      a.table.symbols = Symbol.predefined ++
        [⟨['L'], 2, .label⟩, ⟨['7'], 3, .label⟩, ⟨['E'], 5, .label⟩, ⟨['w'], 16, .variable⟩,
          ⟨['v'], 17, .variable⟩] := by
  have hok : (ofSourceLines false [] mixedNames).isOk = true := by decide +kernel
  cases hrun : ofSourceLines false [] mixedNames with
  | error f =>
    rw [hrun] at hok
    cases hok
  | ok a =>
    have hlabels : labelSymbols (texts mixedNames) =
        [⟨['L'], 2, .label⟩, ⟨['7'], 3, .label⟩, ⟨['E'], 5, .label⟩] := by decide +kernel
    have hvariables : variableSymbols (texts mixedNames) =
        [⟨['w'], 16, .variable⟩, ⟨['v'], 17, .variable⟩] := by decide +kernel
    refine ⟨a, rfl, ?_⟩
    rw [(symbols_of_ofSourceLines hrun).1, hlabels, hvariables]
    rfl

end HackAssembler.Assembly
