import HackAssembler.Proofs.Assembly
import HackAssembler.Proofs.Source.Cleaning
import HackAssembler.Session.Basic

/-! The place of a fault. Labels count all lines and words only the instructions, and either number leads back to
the physical line that is at fault. -/
namespace HackAssembler

namespace Cause

/-- The line that a cause is about, as cleaning leaves it. -/
def line? : Cause → Option Text
  | .general _ _ => none
  | .unknownMnemonic _ _ instruction _ => some instruction
  | .duplicateSymbol symbol _ => some (Line.label symbol)
  | .addressRange _ instruction => some instruction

/-- The lines among which the index of a cause counts: all of them for labels, else the instructions. -/
def counts : Cause → Text → Bool
  | .duplicateSymbol _ _ => fun _ => true
  | _ => fun line => !Line.isLabel line

end Cause

namespace Diagnostic

theorem locate_of_getElem? {d : Diagnostic} {i : Nat} {lines : List SourceLine} {line : SourceLine}
    (hindex : d.index = some (i : Int)) (hline : lines[i]? = some line) (file : Text) :
    d.locate file lines = d.withSource ⟨file, line.line, 1⟩ line.written := by
  have hnonneg : ¬((i : Int) < 0) := by omega
  rw [locate, hindex]
  simp only [if_neg hnonneg, Int.toNat_natCast, hline]

/-- A report opens with the place that it is about. -/
theorem place_prefix_message {d : Diagnostic} {file : Text} {n : Int}
    (h : d.location = some ⟨file, n, 1⟩) :
    (file ++ ":" ++ Numeral.decimal n ++ ":1: error: " : Text) <+: d.message := by
  have hopening : (Location.text ⟨file, n, 1⟩ ++ ": " ++ "error: " : Text) =
      file ++ ":" ++ Numeral.decimal n ++ ":1: error: " := by
    have hone : Numeral.decimal 1 = ['1'] := by decide
    simp [Location.text, Text.ofString_eq, hone]
  have hfirst : ∀ (first : Text) (rest : List Text),
      first <+: List.intercalate ['\n'] (first :: rest) := by
    intro first rest
    cases rest with
    | nil => simp
    | cons next rest =>
      rw [List.intercalate_cons_cons, List.append_assoc]
      exact List.prefix_append _ _
  rw [message, h, ← hopening]
  simp only
  exact (List.prefix_append _ _).trans (hfirst _ _)

end Diagnostic

namespace Assembly
open Program

theorem texts_instructionLines (lines : List SourceLine) :
    texts (instructionLines lines) = Labels.instructions (texts lines) := by
  rw [texts, instructionLines, Labels.instructions, texts, List.filter_map]
  rfl

/-- The fault of an instruction names the instruction. -/
theorem line?_of_fault? {lines : List Text} {line : Text} {cause : Cause}
    (h : fault? lines line = some cause) :
    cause.line? = some line ∧ cause.counts = fun line => !Line.isLabel line := by
  unfold fault? at h
  by_cases haddress : Line.isAddress line = true
  · rw [if_pos haddress] at h
    by_cases hrange : Word.maxAddress < value lines (Line.operand line)
    · rw [if_pos hrange] at h
      obtain rfl := Option.some.inj h
      exact ⟨rfl, rfl⟩
    · rw [if_neg hrange] at h
      cases h
  · rw [if_neg haddress] at h
    obtain ⟨field, -, rfl⟩ := Option.map_eq_some_iff.1 h
    exact ⟨rfl, rfl⟩

/-- Every fault that is reported stands at one of the lines that its index counts. -/
theorem exists_line_of_diagnostic {strict : Bool} {file : Text} {lines : List SourceLine}
    {d : Diagnostic} (h : ofSourceLines strict file lines = .error (.diagnostic d)) :
    ∃ (i : Nat) (line : SourceLine), (lines.filter fun l => d.cause.counts l.text)[i]? = some line ∧
      d.cause.line? = some line.text ∧ d.index = some (i : Int) ∧
      d.location = some ⟨file, line.line, 1⟩ ∧ d.sourceLine = some line.written := by
  rcases ofSourceLines_cases strict file lines with
    ⟨i, name, -, -, hname, hrun⟩ | ⟨-, f, hcollect, hrun⟩ | ⟨-, words, table, -, hrun⟩
  · rw [List.getElem?_map] at hname
    obtain ⟨line, hline, htext⟩ := Option.map_eq_some_iff.1 hname
    rw [h, Diagnostic.locate_of_getElem? rfl hline] at hrun
    obtain rfl := Failure.diagnostic.inj (Except.error.inj hrun)
    refine ⟨i, line, ?_, ?_, rfl, rfl, rfl⟩
    · rw [List.filter_eq_self.2 fun _ _ => by rfl]
      exact hline
    · rw [htext]
      rfl
  · obtain ⟨i, line, hline, houtcome, -⟩ := collect_outcomes_eq_error_iff.1 hcollect
    rw [← texts_instructionLines, List.getElem?_map] at hline
    obtain ⟨source, hsource, rfl⟩ := Option.map_eq_some_iff.1 hline
    rcases outcome_eq_error_iff.1 houtcome with ⟨-, rfl⟩ | ⟨-, cause, hcause, rfl⟩
    · rw [h] at hrun
      cases hrun
    · rw [h, Failure.locate, Diagnostic.locate_of_getElem? rfl hsource] at hrun
      obtain rfl := Failure.diagnostic.inj (Except.error.inj hrun)
      obtain ⟨hquoted, hcounts⟩ := line?_of_fault? hcause
      refine ⟨i, source, ?_, hquoted, rfl, rfl, rfl⟩
      rw [Diagnostic.withSource_cause, hcounts]
      exact hsource
  · rw [h] at hrun
    cases hrun

end Assembly

namespace Session

theorem assembleSource_eq_error_iff {s : Session} {file source : Text} {f : Failure} :
    (s.assembleSource file source).1 = .error f ↔
      Assembly.ofSource s.strictLabels file source = .error f := by
  rw [assembleSource, assemble_eq, ← Assembly.ofSource]
  cases Assembly.ofSource s.strictLabels file source <;> simp [Except.map]

/-- A run that succeeds leaves what its text is assembled to. -/
theorem exists_assembly_of_assembleSource {s : Session} {file source : Text} {words : List Text}
    (h : (s.assembleSource file source).1 = .ok words) :
    ∃ a, Assembly.ofSource s.strictLabels file source = .ok a ∧ a.words = words ∧
      (s.assembleSource file source).2 = s.reset.keep a := by
  rw [assembleSource, assemble_eq, ← Assembly.ofSource] at h ⊢
  obtain ⟨a, hrun, rfl⟩ := Except.map_eq_ok_iff.1 h
  exact ⟨a, hrun, rfl, by rw [hrun, record]⟩

/-- Every fault of a program is reported at the physical line that it is about. -/
theorem place_of_diagnostic {s : Session} {file source : Text} {d : Diagnostic}
    (h : (s.assembleSource file source).1 = .error (.diagnostic d)) :
    ∃ (n : Nat) (raw : Text), (Text.lines source)[n]? = some raw ∧
      d.location = some ⟨file, (n : Int) + 1, 1⟩ ∧
      d.sourceLine = some (Text.trimRight raw) ∧
      d.cause.line? = some (Source.cleanLine raw) ∧
      d.index = some ((Source.countBefore d.cause.counts source n : Nat) : Int) ∧
      (file ++ ":" ++ Numeral.decimal ((n : Int) + 1) ++ ":1: error: " : Text) <+: d.message := by
  rw [assembleSource_eq_error_iff, Assembly.ofSource] at h
  obtain ⟨i, line, hline, hquoted, hindex, hlocation, hsource⟩ := Assembly.exists_line_of_diagnostic h
  obtain ⟨n, raw, hraw, rfl, rfl⟩ := Source.getElem?_filter_clean hline
  exact ⟨n, raw, hraw, hlocation, hsource, hquoted, hindex, Diagnostic.place_prefix_message hlocation⟩

/-- Behind a comment, a label, an empty line and an instruction stands a field that is unknown. -/
def faultBehindOthers : Text :=
  List.intercalate ['\r', '\n'] [['/', '/'], Line.label ['L'], [], [' ', '@', '1', '/', '/'], ['D', '=', 'Q', ' ']]

def unknownField : Diagnostic where
  cause := .unknownMnemonic Field.comp.name ['Q'] ['D', '=', 'Q'] Field.comp.mnemonics
  index := some 1
  location := some ⟨['f'], 5, 1⟩
  sourceLine := some ['D', '=', 'Q']

theorem place_of_faultBehindOthers :
    ((start {} none).assembleSource ['f'] faultBehindOthers).1 = .error (.diagnostic unknownField) ∧
      (['f'] ++ ":5:1: error: " : Text) <+: unknownField.message := by
  have hrun : ((start {} none).assembleSource ['f'] faultBehindOthers).1 =
      .error (.diagnostic unknownField) := by decide +kernel
  obtain ⟨n, raw, -, hlocation, -, -, -, hmessage⟩ := place_of_diagnostic hrun
  have hline : ((n : Int) + 1) = 5 := (Location.mk.inj (Option.some.inj hlocation)).2.1.symm
  have hfive : Numeral.decimal 5 = ['5'] := by decide
  rw [hline, hfive] at hmessage
  refine ⟨hrun, ?_⟩
  simpa [Text.ofString_eq] using hmessage

end Session

end HackAssembler
