import Mathlib.Data.List.DropRight
import HackAssembler.Proofs.Location
import HackAssembler.Proofs.Source.Numbering
import HackAssembler.Proofs.Source.Recleaning

/-! The ways in which a program reaches the assembler. A file is assembled as the text that it holds, whichever breaks
its lines end in, and lines that are clean are assembled as the text that joins them. -/
namespace HackAssembler

/-! ### The name of the source -/

namespace Diagnostic

/-- The same diagnostic for a source of another name. -/
def inFile (file : Text) (d : Diagnostic) : Diagnostic :=
  { d with location := d.location.map fun l => { l with file } }

theorem locate_inFile {d : Diagnostic} (h : d.location = none) (file file' : Text) (lines : List SourceLine) :
    d.locate file' lines = (d.locate file lines).inFile file' := by
  have hself : d = d.inFile file' := by
    obtain ⟨cause, index, location, sourceLine⟩ := d
    obtain rfl : location = none := h
    rfl
  unfold locate
  split
  · exact hself
  · split
    · exact hself
    · split
      · exact hself
      · rfl

end Diagnostic

namespace Failure

/-- The same failure for a source of another name. -/
def inFile (file : Text) : Failure → Failure
  | .diagnostic d => .diagnostic (d.inFile file)
  | f => f

/-- A failure that has not been pointed at any place. -/
def IsUnplaced : Failure → Prop
  | .diagnostic d => d.location = none
  | _ => True

theorem locate_inFile {f : Failure} (h : f.IsUnplaced) (file file' : Text) (lines : List SourceLine) :
    f.locate file' lines = (f.locate file lines).inFile file' := by
  cases f with
  | diagnostic d => exact congrArg Failure.diagnostic (Diagnostic.locate_inFile h file file' lines)
  | setting | general | file | undecodable | literalTooLong | numberTooLong | unbound | suffix | unexpected => rfl

end Failure

namespace Assembly
open Program

theorem location_of_bind {strict : Bool} {lines : List Text} {d : Diagnostic}
    (h : Labels.bind strict lines = .error d) : d.location = none := by
  have hrefused : IsRefused strict lines := by
    by_contra hnot
    obtain ⟨labels, hbind⟩ := exists_bind_iff.2 hnot
    rw [h] at hbind
    cases hbind
  obtain ⟨rfl, hredeclared⟩ := hrefused
  obtain ⟨i, hleast⟩ := exists_isLeast hredeclared
  obtain ⟨name, -, hbind⟩ := Labels.bind_strict_of_redeclared hleast
  rw [h] at hbind
  rw [Except.error.inj hbind]

theorem isUnplaced_of_collect {lines : List Text} {f : Failure} (h : collect (outcomes lines) = .error f) :
    f.IsUnplaced := by
  obtain ⟨i, line, -, houtcome, -⟩ := collect_outcomes_eq_error_iff.1 h
  rcases outcome_eq_error_iff.1 houtcome with ⟨-, rfl⟩ | ⟨-, cause, -, rfl⟩
  · trivial
  · rfl

/-- The name of a source stands in the place of a fault and nowhere else. -/
theorem ofSourceLines_inFile (strict : Bool) (file file' : Text) (lines : List SourceLine) :
    ofSourceLines strict file' lines = (ofSourceLines strict file lines).mapError (.inFile file') := by
  unfold ofSourceLines
  cases hbind : Labels.bind strict (texts lines) with
  | error d =>
    have hplace : (Failure.diagnostic d).IsUnplaced := location_of_bind hbind
    simp only [hbind]
    exact congrArg Except.error (Failure.locate_inFile hplace file file' lines)
  | ok labels =>
    have hcollect := program_eq_collect (Labels.symbols_of_bind hbind)
    simp only [hbind]
    rcases hprogram : Encoding.program labels (Labels.instructions (texts lines)) with ⟨f | words, context⟩
    · rw [hprogram] at hcollect
      have hplace := isUnplaced_of_collect hcollect.symm
      exact congrArg Except.error (Failure.locate_inFile hplace file file' (instructionLines lines))
    · rfl

end Assembly

/-! ### Breaks and files -/

namespace Source

theorem clean_congr {source source' : Text} (h : Text.lines source = Text.lines source') :
    clean source = clean source' := by
  rw [clean_eq_cleanFrom, h, clean_eq_cleanFrom]

theorem clean_unifyBreaks (source : Text) : clean (Text.unifyBreaks source) = clean source :=
  clean_congr (Text.lines_unifyBreaks source)

theorem clean_writeBreaks {ending source : Text} (hending : ending = ['\r'] ∨ ending = ['\r', '\n'])
    (h : '\r' ∉ source) : clean (Text.writeBreaks ending source) = clean source := by
  rw [← clean_unifyBreaks, Text.unifyBreaks_writeBreaks hending h]

end Source

namespace Session

theorem readText_of_read {tree : FileTree} {path source : Text} (h : tree.read path = .ok (Utf8.encode source)) :
    tree.readText path = .ok (Text.unifyBreaks source) := by
  rw [FileTree.readText, h]
  simp only [Utf8.decode_encode]

theorem assembleSource_congr {source source' : Text} (h : Source.clean source = Source.clean source')
    (s : Session) (file : Text) : s.assembleSource file source = s.assembleSource file source' := by
  rw [assembleSource, h, assembleSource]

theorem assembleSource_inFile (s : Session) (file file' source : Text) :
    s.assembleSource file' source =
      ((s.assembleSource file source).1.mapError (.inFile file'), (s.assembleSource file source).2) := by
  rw [assembleSource, assembleSource, assemble_eq, assemble_eq,
    Assembly.ofSourceLines_inFile s.strictLabels file file']
  cases Assembly.ofSourceLines s.strictLabels file (Source.clean source) <;> rfl

/-- How the breaks of a text are written makes no difference: carriage returns, alone or with a line feed, are cleaned
as line feeds are. So a file that holds a text is assembled as the text is under the plain form of the path, to the
same answer and the same results, and under any other name only the name in the place of a fault is another. -/
theorem assembleFile_eq_assembleSource :
    (∀ source, Source.clean (Text.unifyBreaks source) = Source.clean source) ∧
    (∀ ending source : Text, ending = ['\r'] ∨ ending = ['\r', '\n'] → '\r' ∉ source →
      Source.clean (Text.writeBreaks ending source) = Source.clean source) ∧
    ∀ (s : Session) (tree : FileTree) (path source : Text),
      tree.read (Path.ofText path).text = .ok (Utf8.encode source) →
      s.assembleFile tree path = s.assembleSource (Path.ofText path).text source ∧
      ∀ file, s.assembleFile tree path =
        ((s.assembleSource file source).1.mapError (.inFile (Path.ofText path).text),
          (s.assembleSource file source).2) := by
  refine ⟨Source.clean_unifyBreaks, fun ending source => Source.clean_writeBreaks, ?_⟩
  intro s tree path source hread
  have hfile : s.assembleFile tree path = s.assembleSource (Path.ofText path).text source := by
    rw [assembleFile]
    simp only [readText_of_read hread]
    exact assembleSource_congr (Source.clean_unifyBreaks source) s _
  refine ⟨hfile, fun file => ?_⟩
  rw [hfile]
  exact s.assembleSource_inFile file _ source

/-- A label that is declared twice, behind lines that end in a carriage return, both, and a line feed. -/
def mixedBreaks : Text :=
  Line.label ['L'] ++ '\r' :: '\r' :: '\n' :: Line.address ['L'] ++ '\n' :: Line.label ['L']

def mixedFile : FileTree where
  files := [([['p']], Utf8.encode mixedBreaks)]

def redeclaredLabel : Diagnostic where
  cause := .duplicateSymbol ['L'] (some 0)
  index := some 2
  location := some ⟨['p'], 4, 1⟩
  sourceLine := some (Line.label ['L'])

theorem assembleFile_eq_assembleSource_of_mixedBreaks :
    mixedFile.read (Path.ofText ['.', '/', 'p']).text = .ok (Utf8.encode mixedBreaks) ∧
    (start {} (some true)).assembleFile mixedFile ['.', '/', 'p'] =
      (start {} (some true)).assembleSource ['p'] mixedBreaks ∧
    ((start {} (some true)).assembleSource ['p'] mixedBreaks).1 = .error (.diagnostic redeclaredLabel) ∧
    Source.clean (Text.writeBreaks ['\r', '\n'] (Text.unifyBreaks mixedBreaks)) =
      Source.clean (Text.unifyBreaks mixedBreaks) := by
  obtain ⟨-, hwritten, hfiles⟩ := assembleFile_eq_assembleSource
  have hread : mixedFile.read (Path.ofText ['.', '/', 'p']).text = .ok (Utf8.encode mixedBreaks) := by rfl
  have hplain : (Path.ofText ['.', '/', 'p']).text = ['p'] := by decide
  have hfile := (hfiles (start {} (some true)) _ _ _ hread).1
  rw [hplain] at hfile
  exact ⟨hread, hfile, by decide +kernel, hwritten _ _ (.inr rfl) (by decide +kernel)⟩

end Session

/-! ### Lines that are clean -/

namespace Source

/-- What cleaning leaves as it stands: not nothing, and with neither white space nor a comment mark. -/
def IsClean (line : Text) : Prop :=
  line ≠ [] ∧ (∀ c ∈ line, Text.isBlank c = false) ∧ ¬commentMark <:+: line

instance (line : Text) : Decidable (IsClean line) :=
  haveI : Decidable (∀ c ∈ line, Text.isBlank c = false) := List.decidableBAll _ line
  inferInstanceAs (Decidable (_ ∧ _ ∧ _))

theorem cleanLine_of_isClean {line : Text} (h : IsClean line) : cleanLine line = line := by
  obtain ⟨-, hblank, hmark⟩ := h
  rw [cleanLine_of_not_blank hblank, code_eq_self hmark]

theorem trimRight_prefix_self (t : Text) : Text.trimRight t <+: t :=
  List.rdropWhile_prefix Text.isBlank t

/-- A line that cleaning leaves as it was written is clean. -/
theorem isClean_of_cleanLine_eq {raw : Text} (hspeaks : SaysSomething raw)
    (h : cleanLine raw = Text.trimRight raw) : IsClean (cleanLine raw) := by
  refine ⟨cleanLine_ne_nil_iff.2 hspeaks, fun c hc => (Text.mem_dropBlanks.1 hc).2, fun hmark => ?_⟩
  have hlength : (cleanLine raw).length ≤ (code raw).length := List.length_filter_le _ _
  have hbegins : cleanLine raw <+: raw := by
    rw [h]
    exact trimRight_prefix_self raw
  have hcode : cleanLine raw <+: code raw :=
    List.prefix_of_prefix_length_le hbegins (code_prefix_self raw) hlength
  exact not_commentMark_infix_code raw (hmark.trans hcode.isInfix)

/-- Lines that line feeds join are left as they stand if they are clean, and only then. -/
theorem clean_intercalate_eq_iff {lines : List Text} :
    clean (List.intercalate ['\n'] lines) = ofLines lines ↔ ∀ line ∈ lines, IsClean line := by
  constructor
  · intro h line hline
    obtain ⟨n, hn⟩ := List.mem_iff_getElem?.1 hline
    have hmem : (⟨line, (n : Int) + 1, line⟩ : SourceLine) ∈ ofLines lines :=
      List.mem_map.2 ⟨(line, n), List.mk_mem_zipIdx_iff_getElem?.2 hn, rfl⟩
    rw [← h] at hmem
    obtain ⟨m, raw, -, hspeaks, hraw⟩ := mem_cleanFrom_iff.1 hmem
    obtain ⟨htext, -, hwritten⟩ := SourceLine.mk.inj hraw
    rw [htext]
    exact isClean_of_cleanLine_eq hspeaks (htext.symm.trans hwritten)
  · intro h
    have hlines : Text.lines (List.intercalate ['\n'] lines) = lines := by
      apply Text.lines_intercalate
      intro line hline
      obtain ⟨hne, hblank, -⟩ := h line hline
      exact ⟨hne, Text.isUnbroken_of_not_blank hblank⟩
    rw [clean_eq_cleanFrom, hlines, cleanFrom, ofLines, ← List.filterMap_eq_map]
    apply List.filterMap_congr
    rintro ⟨line, index⟩ hmem
    have hclean := h line (List.fst_mem_of_mem_zipIdx hmem)
    have hline := cleanLine_of_isClean hclean
    refine sourceLine?_eq_some_iff.2 ⟨cleanLine_ne_nil_iff.1 (by rw [hline]; exact hclean.1), ?_⟩
    rw [hline, Text.trimRight_eq_self hclean.2.1]

end Source

namespace Session
open Source

/-- Clean lines are assembled as the text that joins them is, to the same answer and the same results, wherever they
come from. No other lines are left by cleaning as they were given. -/
theorem assembleLines_eq_assembleSource (lines : List Text) :
    (clean (List.intercalate ['\n'] lines) = ofLines lines ↔ ∀ line ∈ lines, IsClean line) ∧
    ((∀ line ∈ lines, IsClean line) → ∀ (s : Session) (file : Text),
      s.assembleLines file lines = s.assembleSource file (List.intercalate ['\n'] lines)) := by
  refine ⟨clean_intercalate_eq_iff, fun h s file => ?_⟩
  rw [assembleLines, assembleSource, clean_intercalate_eq_iff.2 h]

/-- Lines with half a mark, with a character that is none, and with a field that is unknown. -/
def oddLines : List Text := [['@', 'a', '/', 'b'], ['@', '\u200b'], ['D', '=', '/']]

theorem assembleLines_eq_assembleSource_of_oddLines :
    (∀ line ∈ oddLines, IsClean line) ∧
    ((start {} none).assembleLines ['f'] oddLines).1 =
      ((start {} none).assembleSource ['f'] (List.intercalate ['\n'] oddLines)).1 ∧
    ((start {} none).assembleLines ['f'] oddLines).1 = .error (.diagnostic {
      cause := .unknownMnemonic Field.comp.name ['/'] ['D', '=', '/'] Field.comp.mnemonics
      index := some 2
      location := some ⟨['f'], 3, 1⟩
      sourceLine := some ['D', '=', '/'] }) := by
  have hclean : ∀ line ∈ oddLines, IsClean line := by decide +kernel
  have hsame := (assembleLines_eq_assembleSource oddLines).2 hclean (start {} none) ['f']
  exact ⟨hclean, congrArg Prod.fst hsame, by decide +kernel⟩

end Session

end HackAssembler
