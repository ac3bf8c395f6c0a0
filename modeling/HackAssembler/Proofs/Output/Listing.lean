import HackAssembler.Proofs.Canonical.Program
import HackAssembler.Proofs.Output.Columns
import HackAssembler.Proofs.Source.Origin

/-! The listing read back. Each of its rows gives the number and the text of a source line again, and the rows of the
instructions count the words off one by one. -/
namespace HackAssembler

theorem SymbolKind.isPlain_name (kind : SymbolKind) : Source.IsPlain kind.name := by
  cases kind <;> simp only [name, Text.ofString_eq] <;> decide

theorem SymbolKind.name_ne_nil (kind : SymbolKind) : kind.name ≠ [] := by
  cases kind <;> simp [name, Text.ofString_eq]

open Program

namespace Output.Listing

/-- What a row says: the line and its number and, if it has become a word, address and word. -/
structure Row where
  code : Option (Nat × Text)
  line : Int
  written : Text
  deriving DecidableEq, Repr

namespace Row

def text (r : Row) : Text := row r.code ⟨[], r.line, r.written⟩

/-- The columns of address and word take 25 characters, with two spaces behind each of them. A row that has nothing
there is that of a line without a word. -/
def read? (t : Text) : Option Row :=
  if (t.take 25).all (· = ' ') then
    (readCell (Numeral.read? 10) (t.drop 25)).map fun (line, written) => ⟨none, line, written⟩
  else do
    let (address, t) ← readCell (Numeral.unsigned? 10) t
    let (line, written) ← readCell (Numeral.read? 10) (t.drop 18)
    return ⟨some (address, t.take 16), line, written⟩

theorem text_of_none (line : Int) (written : Text) :
    text ⟨none, line, written⟩ = List.replicate 25 ' ' ++ (numberColumn 4 line ++ ' ' :: ' ' :: written) := by
  simp [text, row, twoSpaces_eq, List.leftpad, List.rightpad]

theorem text_of_some (address : Nat) {word : Text} (h : word.length = Word.width) (line : Int) (written : Text) :
    text ⟨some (address, word), line, written⟩ =
      (Numeral.decimal address).leftpad 5 ' ' ++
        ' ' :: ' ' :: (word ++ ' ' :: ' ' :: (numberColumn 4 line ++ ' ' :: ' ' :: written)) := by
  have hfull : 16 - word.length = 0 := Nat.sub_eq_zero_of_le h.ge
  simp [text, row, twoSpaces_eq, List.rightpad, hfull]

/-- An address leaves its mark on the columns of address and word. -/
theorem all_take_leftpad (v : Int) (rest : Text) :
    (((Numeral.decimal v).leftpad 5 ' ' ++ rest).take 25).all (· = ' ') = false := by
  obtain ⟨c, tail, hcell⟩ := List.exists_cons_of_ne_nil (Numeral.zeroFilled_ne_nil 10 0 v)
  have hcell : Numeral.decimal v = c :: tail := hcell
  have hc : c ≠ ' ' := fun hc => space_not_mem_decimal v (by rw [hcell, hc]; exact List.mem_cons_self)
  have hfill : 5 - (c :: tail).length ≤ 24 := by omega
  obtain ⟨n, hn⟩ : ∃ n, 25 - (5 - (c :: tail).length) = n + 1 := ⟨_, (Nat.succ_pred (by omega)).symm⟩
  rw [List.all_eq_false]
  refine ⟨c, ?_, by simpa using hc⟩
  rw [hcell, List.leftpad, List.append_assoc, List.take_append, List.length_replicate, hn, List.cons_append,
    List.take_succ_cons]
  exact List.mem_append_right _ List.mem_cons_self

/-- A row is read back if its word has the width of a word, however long its numbers are. -/
theorem read?_text {r : Row} (h : ∀ c ∈ r.code, c.2.length = Word.width) : read? r.text = some r := by
  obtain ⟨code, line, written⟩ := r
  cases code with
  | none =>
    have hblank : (List.replicate 25 ' ').all (· = ' ') = true := by decide
    rw [text_of_none, read?, List.take_left' List.length_replicate, List.drop_left' List.length_replicate,
      if_pos hblank, readCell_numberColumn]
    rfl
  | some code =>
    obtain ⟨address, word⟩ := code
    have hword : word.length = Word.width := h _ rfl
    have haddress : Numeral.unsigned? 10 (Numeral.decimal address) = some address :=
      Numeral.unsigned?_leftpad (by decide) (by decide) 0 address
    have hdrop : ∀ rest : Text, (word ++ ' ' :: ' ' :: rest).drop 18 = rest := by
      intro rest
      have hsplit : word ++ ' ' :: ' ' :: rest = (word ++ [' ', ' ']) ++ rest := by simp
      rw [hsplit, List.drop_left' (by rw [List.length_append, hword]; rfl)]
    rw [text_of_some address hword, read?, all_take_leftpad, if_neg (by simp),
      readCell_leftpad haddress (Numeral.zeroFilled_ne_nil 10 0 _) (space_not_mem_decimal _)]
    simp only [Option.bind_eq_bind, Option.bind_some, hdrop, readCell_numberColumn, List.take_left' hword,
      Option.pure_def]

theorem isUnbroken_text {r : Row} (hcode : ∀ c ∈ r.code, Text.IsUnbroken c.2) (hwritten : Text.IsUnbroken r.written) :
    Text.IsUnbroken r.text := by
  have hspaces : Text.IsUnbroken "  " := by
    rw [twoSpaces_eq]
    decide
  have hline : Text.IsUnbroken (numberColumn 4 r.line) := (Numeral.isUnbroken_decimal _).leftpad 4
  have hnone : Text.IsUnbroken [] := nofun
  obtain ⟨code, line, written⟩ := r
  cases code with
  | none =>
    simp only [text, row, Text.isUnbroken_append]
    exact ⟨⟨⟨⟨⟨⟨hnone.leftpad 5, hspaces⟩, hnone.rightpad 16⟩, hspaces⟩, hline⟩, hspaces⟩, hwritten⟩
  | some code =>
    simp only [text, row, Text.isUnbroken_append]
    exact ⟨⟨⟨⟨⟨⟨(Numeral.isUnbroken_decimal _).leftpad 5, hspaces⟩, (hcode _ rfl).rightpad 16⟩, hspaces⟩, hline⟩,
      hspaces⟩, hwritten⟩

end Row

/-! ### The rows of a program -/

/-- The rows of source lines, before they are written. -/
def entries : Nat → List Text → List SourceLine → List Row
  | _, _, [] => []
  | address, words, l :: rest =>
    if Line.isLabel l.text then ⟨none, l.line, l.written⟩ :: entries address words rest
    else ⟨some (address, words.head?.getD []), l.line, l.written⟩ :: entries (address + 1) words.tail rest

theorem entries_cons_of_isLabel {l : SourceLine} (h : Line.isLabel l.text = true) (address : Nat)
    (words : List Text) (rest : List SourceLine) :
    entries address words (l :: rest) = ⟨none, l.line, l.written⟩ :: entries address words rest := by
  rw [entries, if_pos h]

theorem entries_cons {l : SourceLine} (h : Line.isLabel l.text = false) (address : Nat) (words : List Text)
    (rest : List SourceLine) :
    entries address words (l :: rest) =
      ⟨some (address, words.head?.getD []), l.line, l.written⟩ :: entries (address + 1) words.tail rest := by
  rw [entries, if_neg (by simp [h])]

theorem rows_eq_map_text (address : Nat) (words : List Text) (lines : List SourceLine) :
    rows address words lines = (entries address words lines).map Row.text := by
  induction lines generalizing address words with
  | nil => rfl
  | cons l rest ih =>
    cases h : Line.isLabel l.text with
    | true =>
      rw [rows_cons_label h, entries_cons_of_isLabel h, ih]
      rfl
    | false =>
      rw [rows_cons_instruction h, entries_cons h, ih]
      rfl

theorem map_written_entries (address : Nat) (words : List Text) (lines : List SourceLine) :
    (entries address words lines).map (fun r => (r.line, r.written)) = lines.map fun l => (l.line, l.written) := by
  induction lines generalizing address words with
  | nil => rfl
  | cons l rest ih =>
    cases h : Line.isLabel l.text with
    | true => rw [entries_cons_of_isLabel h, List.map_cons, ih, List.map_cons]
    | false => rw [entries_cons h, List.map_cons, ih, List.map_cons]

theorem length_entries (address : Nat) (words : List Text) (lines : List SourceLine) :
    (entries address words lines).length = lines.length := by
  have h := congrArg List.length (map_written_entries address words lines)
  rwa [List.length_map, List.length_map] at h

theorem pairwise_line_entries {lines : List SourceLine} (h : lines.Pairwise fun l next => l.line < next.line)
    (address : Nat) (words : List Text) :
    (entries address words lines).Pairwise fun r next => r.line < next.line := by
  have hpairs : ((entries address words lines).map fun r => (r.line, r.written)).Pairwise fun p q => p.1 < q.1 := by
    rwa [map_written_entries, List.pairwise_map]
  rwa [List.pairwise_map] at hpairs

/-- Behind some lines the rows go on with the address and the words behind those of their instructions. -/
theorem entries_append (address : Nat) (words : List Text) (front back : List SourceLine) :
    entries address words (front ++ back) =
      entries address words front ++
        entries (address + (Labels.instructions (texts front)).length)
          (words.drop (Labels.instructions (texts front)).length) back := by
  induction front generalizing address words with
  | nil => rfl
  | cons l rest ih =>
    cases h : Line.isLabel l.text with
    | true =>
      rw [List.cons_append, entries_cons_of_isLabel h, entries_cons_of_isLabel h, texts, List.map_cons,
        Labels.instructions_cons_of_isLabel h, ih, List.cons_append]
    | false =>
      rw [List.cons_append, entries_cons h, entries_cons h, texts, List.map_cons, Labels.instructions_cons h, ih,
        List.cons_append, List.length_cons, List.drop_tail, Nat.add_assoc, Nat.add_comm 1]

/-- Where there is one word for each instruction, the rows count them off. -/
theorem filterMap_code_entries (address : Nat) {words : List Text} {lines : List SourceLine}
    (h : words.length = (Labels.instructions (texts lines)).length) :
    (entries address words lines).filterMap Row.code = (words.zipIdx address).map Prod.swap := by
  induction lines generalizing address words with
  | nil =>
    obtain rfl := List.length_eq_zero_iff.1 h
    rfl
  | cons l rest ih =>
    rw [texts, List.map_cons] at h
    cases hlabel : Line.isLabel l.text with
    | true =>
      rw [Labels.instructions_cons_of_isLabel hlabel] at h
      rw [entries_cons_of_isLabel hlabel, List.filterMap_cons_none rfl, ih address h]
    | false =>
      rw [Labels.instructions_cons hlabel, List.length_cons] at h
      obtain ⟨word, words, rfl⟩ := List.exists_cons_of_length_eq_add_one h
      rw [entries_cons hlabel, List.filterMap_cons, List.tail_cons, ih _ (Nat.succ.inj h), List.zipIdx_cons,
        List.map_cons]
      rfl

/-- The address of the first row that has one, and `last` if no row has. -/
def nextAddress (last : Nat) (rows : List Row) : Nat := ((rows.findSome? Row.code).map Prod.fst).getD last

theorem nextAddress_entries (address : Nat) {words : List Text} {lines : List SourceLine}
    (h : words.length = (Labels.instructions (texts lines)).length) :
    nextAddress (address + words.length) (entries address words lines) = address := by
  rw [nextAddress, ← List.head?_filterMap, filterMap_code_entries address h]
  cases words with
  | nil => rfl
  | cons word words => rfl

theorem getElem?_of_mem_entries {words : List Text} {lines : List SourceLine}
    (h : words.length = (Labels.instructions (texts lines)).length) {r : Row} (hr : r ∈ entries 0 words lines)
    {code : Nat × Text} (hcode : r.code = some code) : words[code.1]? = some code.2 := by
  have hmem : code ∈ (entries 0 words lines).filterMap Row.code := List.mem_filterMap.2 ⟨r, hr, hcode⟩
  rw [filterMap_code_entries 0 h, List.mem_map] at hmem
  obtain ⟨pair, hpair, rfl⟩ := hmem
  exact List.mem_zipIdx_iff_getElem?.1 hpair

theorem map_read?_rows {words : List Text} {lines : List SourceLine}
    (h : words.length = (Labels.instructions (texts lines)).length) (hwords : ∀ w ∈ words, w.length = Word.width) :
    (rows 0 words lines).map Row.read? = (entries 0 words lines).map some := by
  rw [rows_eq_map_text, List.map_map]
  apply List.map_congr_left
  intro r hr
  apply Row.read?_text
  intro code hcode
  exact hwords _ (List.mem_of_getElem? (getElem?_of_mem_entries h hr hcode))

/-- How many of the first `i` lines become words. -/
def instructionsBefore (lines : List SourceLine) (i : Nat) : Nat :=
  (Labels.instructions (texts (lines.take i))).length

theorem drop_entries (words : List Text) {lines : List SourceLine} {i : Nat} (hi : i ≤ lines.length) :
    (entries 0 words lines).drop i =
      entries (instructionsBefore lines i) (words.drop (instructionsBefore lines i)) (lines.drop i) := by
  have hfront : (entries 0 words (lines.take i)).length = i := by
    rw [length_entries, List.length_take_of_le hi]
  have hsplit := entries_append 0 words (lines.take i) (lines.drop i)
  rw [List.take_append_drop, Nat.zero_add] at hsplit
  rw [hsplit, List.drop_left' hfront, instructionsBefore]

section Line
variable {words : List Text} {lines : List SourceLine} {i : Nat} {l : SourceLine}

theorem exists_row (hl : lines[i]? = some l) (words : List Text) :
    ∃ r, (entries 0 words lines)[i]? = some r ∧ r.line = l.line ∧ r.written = l.written := by
  have h := congrArg (·[i]?) (map_written_entries 0 words lines)
  simp only [List.getElem?_map, hl, Option.map_some] at h
  obtain ⟨r, hr, hsame⟩ := Option.map_eq_some_iff.1 h
  obtain ⟨hline, hwritten⟩ := Prod.mk.inj hsame
  exact ⟨r, hr, hline, hwritten⟩

variable (hl : lines[i]? = some l)
include hl

theorem drop_of_getElem? : i < lines.length ∧ lines.drop i = l :: lines.drop (i + 1) := by
  obtain ⟨hi, hget⟩ := List.getElem?_eq_some_iff.1 hl
  exact ⟨hi, by rw [← hget, List.getElem_cons_drop]⟩

theorem code_of_isLabel (hlabel : Line.isLabel l.text = true) {r : Row} (hr : (entries 0 words lines)[i]? = some r) :
    r.code = none := by
  obtain ⟨hi, hdrop⟩ := drop_of_getElem? hl
  have h := congrArg List.head? (drop_entries words (Nat.le_of_lt hi))
  rw [List.head?_drop, hr, hdrop, entries_cons_of_isLabel hlabel] at h
  rw [Option.some.inj h]

theorem code_of_not_isLabel (h : words.length = (Labels.instructions (texts lines)).length)
    (hlabel : Line.isLabel l.text = false) {r : Row} (hr : (entries 0 words lines)[i]? = some r) :
    ∃ word, words[instructionsBefore lines i]? = some word ∧ r.code = some (instructionsBefore lines i, word) := by
  obtain ⟨hi, hdrop⟩ := drop_of_getElem? hl
  have hhead := congrArg List.head? (drop_entries words (Nat.le_of_lt hi))
  rw [List.head?_drop, hr, hdrop, entries_cons hlabel] at hhead
  have hcode := congrArg Row.code (Option.some.inj hhead)
  exact ⟨_, getElem?_of_mem_entries h (List.mem_of_getElem? hr) hcode, hcode⟩

/-- Behind a declaration the rows go on with the number of instructions in front of it. -/
theorem nextAddress_drop (h : words.length = (Labels.instructions (texts lines)).length)
    (hlabel : Line.isLabel l.text = true) :
    nextAddress words.length ((entries 0 words lines).drop (i + 1)) = instructionsBefore lines i := by
  obtain ⟨hi, hdrop⟩ := drop_of_getElem? hl
  have hbehind := congrArg List.tail (drop_entries words (Nat.le_of_lt hi))
  rw [List.tail_drop, hdrop, entries_cons_of_isLabel hlabel, List.tail_cons] at hbehind
  have hcount : words.length = instructionsBefore lines i +
      (Labels.instructions (texts (lines.drop (i + 1)))).length := by
    have hsplit := congrArg (fun l => (Labels.instructions (texts l)).length) (List.take_append_drop i lines)
    simp only [texts, hdrop, List.map_append, List.map_cons, Labels.instructions_append,
      Labels.instructions_cons_of_isLabel hlabel, List.length_append] at hsplit
    rw [h, ← hsplit, instructionsBefore]
  have hrest : (words.drop (instructionsBefore lines i)).length =
      (Labels.instructions (texts (lines.drop (i + 1)))).length := by
    rw [List.length_drop]
    omega
  have haddress := nextAddress_entries (instructionsBefore lines i) hrest
  rwa [← hbehind, hrest, ← hcount] at haddress

theorem labelAddress_of_not_redeclares (hlabel : Line.isLabel l.text = true)
    (hnew : ¬Redeclares (texts (lines.take i)) l.text) :
    predefined? (Line.labelName l.text) = none ∧ Line.label (Line.labelName l.text) ∈ texts lines ∧
      labelAddress (texts lines) (Line.labelName l.text) = instructionsBefore lines i := by
  obtain ⟨-, hdrop⟩ := drop_of_getElem? hl
  have hline := Line.isLabel_iff.1 hlabel
  rw [Redeclares, not_and, not_or, not_not] at hnew
  obtain ⟨hname, hfirst⟩ := hnew hlabel
  have hsplit : texts lines = texts (lines.take i) ++ l.text :: texts (lines.drop (i + 1)) := by
    rw [← List.map_cons, ← hdrop, ← List.map_append, List.take_append_drop]
  refine ⟨hname, ?_, ?_⟩
  · rw [← hline]
    exact List.mem_map_of_mem (List.mem_of_getElem? hl)
  · rw [labelAddress, ← hline, hsplit, List.takeWhile_ne_append_cons hfirst, instructionsBefore]

end Line

/-! ### The lines of a listing -/

theorem isUnbroken_of_mem_rows {words : List Text} {lines : List SourceLine}
    (h : words.length = (Labels.instructions (texts lines)).length) (hwords : ∀ w ∈ words, Text.IsUnbroken w)
    (hlines : ∀ l ∈ lines, Text.IsUnbroken l.written) {t : Text} (ht : t ∈ rows 0 words lines) :
    Text.IsUnbroken t := by
  rw [rows_eq_map_text] at ht
  obtain ⟨r, hr, rfl⟩ := List.mem_map.1 ht
  apply Row.isUnbroken_text
  · intro code hcode
    exact hwords _ (List.mem_of_getElem? (getElem?_of_mem_entries h hr hcode))
  · have hmem : (r.line, r.written) ∈ lines.map fun l => (l.line, l.written) := by
      rw [← map_written_entries 0 words lines]
      exact List.mem_map_of_mem hr
    obtain ⟨l, hl, hsame⟩ := List.mem_map.1 hmem
    rw [← (Prod.mk.inj hsame).2]
    exact hlines l hl

theorem isUnbroken_symbolRow {s : Symbol} (h : Text.IsUnbroken s.name) : Text.IsUnbroken (symbolRow s) := by
  have hequals : Text.IsUnbroken " = " := by
    rw [Text.ofString_eq]
    decide
  have hspaces : Text.IsUnbroken "  " := by
    rw [twoSpaces_eq]
    decide
  simp only [symbolRow, Text.isUnbroken_append]
  exact ⟨⟨⟨⟨h.rightpad 20, hequals⟩, (Numeral.isUnbroken_decimal _).leftpad 5⟩, hspaces⟩,
    s.kind.isPlain_name.isUnbroken⟩

theorem symbolRow_ne_nil (s : Symbol) : symbolRow s ≠ [] :=
  List.append_ne_nil_of_right_ne_nil _ s.kind.name_ne_nil

/-- The lines of a listing come apart again, whatever the names in it are, if no line break stands in them. -/
theorem lines_listing {words : List Text} {lines : List SourceLine} {symbols : List Symbol}
    (h : words.length = (Labels.instructions (texts lines)).length) (hwords : ∀ w ∈ words, Text.IsUnbroken w)
    (hlines : ∀ l ∈ lines, Text.IsUnbroken l.written) (hnames : ∀ s ∈ symbols, Text.IsUnbroken s.name) :
    Text.lines (listing words lines symbols) = listingLines words lines symbols := by
  have hheading : ∀ t ∈ heading, Text.IsUnbroken t := by decide +kernel
  have hsymbolHeading : ∀ t ∈ symbolHeading, Text.IsUnbroken t := by decide +kernel
  have hlast : (listingLines words lines symbols).getLast? =
      (symbols.map symbolRow).getLast?.or (some (List.replicate 30 '-')) := by
    rw [listingLines, List.getLast?_append, List.getLast?_append]
    rfl
  apply Text.lines_intercalate_of_getLast?
  · intro t ht
    rw [listingLines, List.mem_append, List.mem_append, List.mem_append] at ht
    rcases ht with ((ht | ht) | ht) | ht
    · exact hheading t ht
    · exact isUnbroken_of_mem_rows h hwords hlines ht
    · exact hsymbolHeading t ht
    · obtain ⟨s, hs, rfl⟩ := List.mem_map.1 ht
      exact isUnbroken_symbolRow (hnames s hs)
  · intro t ht
    rw [hlast] at ht
    cases hrows : (symbols.map symbolRow).getLast? with
    | none =>
      rw [hrows] at ht
      obtain rfl : List.replicate 30 '-' = t := Option.some.inj ht
      decide
    | some last =>
      rw [hrows] at ht
      obtain rfl : last = t := Option.some.inj ht
      obtain ⟨s, -, rfl⟩ := List.mem_map.1 (List.mem_of_getLast? hrows)
      exact symbolRow_ne_nil s

end Output.Listing

/-! ### The listing of a run -/

namespace Assembly
open Output

variable {strict : Bool} {file source : Text} {a : Assembly}

/-- Names are parts of cleaned lines, so that there is no white space in them. -/
theorem not_blank_of_mem_symbols (h : ofSource strict file source = .ok a) {s : Symbol}
    (hs : s ∈ a.table.symbols) : ∀ c ∈ s.name, Text.isBlank c = false := by
  obtain ⟨labels, hbind, -, hsymbols, -⟩ := exists_labels_of_ofSourceLines h
  rw [hsymbols, Labels.symbols_of_bind hbind, List.mem_append, List.mem_append] at hs
  rcases hs with (hs | hs) | hs
  · have hpredefined : ∀ s ∈ Symbol.predefined, Source.IsPlain s.name := by decide
    exact fun c hc => (hpredefined s hs c hc).1
  · obtain ⟨name, hname, rfl⟩ := List.mem_map.1 hs
    have hline := (Source.not_blank_of_mem_texts_clean (mem_labelNames_iff.1 hname).1).2
    exact fun c hc => hline c (List.mem_cons_of_mem _ (List.mem_append_left _ hc))
  · obtain ⟨i, hi, rfl⟩ := List.mem_mapIdx.1 hs
    have hname := List.getElem_mem hi
    have hline := (Source.not_blank_of_mem_texts_clean (mem_variableNames_iff.1 hname).1).2
    exact fun c hc => hline c (List.mem_cons_of_mem _ hc)

/-- The listing of a run comes apart into its heading, its rows and its symbols. -/
theorem lines_listing (h : ofSource strict file source = .ok a) (s : Session) :
    Text.lines (s.keep a).listing =
      Listing.heading ++ Listing.rows 0 a.words (Source.clean source) ++ Listing.symbolHeading ++
        (a.table.sorted false).map Listing.symbolRow := by
  obtain ⟨-, -, -, -, hlines⟩ := exists_labels_of_ofSourceLines h
  have hlisting : (s.keep a).listing = listing a.words (Source.clean source) (a.table.sorted false) := by
    rw [← hlines]
    rfl
  rw [hlisting]
  have hbinary := Assembles.isBinary ⟨a, h, rfl⟩
  apply Listing.lines_listing (length_words h)
  · intro word hword
    have hdigits : ∀ c, c = '0' ∨ c = '1' → Text.isBreak c = false := by
      rintro c (rfl | rfl) <;> decide
    exact fun c hc => hdigits c ((hbinary word hword).2 c hc)
  · intro l hl
    obtain ⟨n, raw, hraw, -, rfl⟩ := Source.mem_cleanFrom_iff.1 hl
    have hunbroken := Text.isUnbroken_of_mem_lines (List.mem_of_getElem? hraw)
    exact fun c hc => hunbroken c ((Source.trimRight_prefix_self raw).subset hc)
  · intro s hs
    exact Text.isUnbroken_of_not_blank (not_blank_of_mem_symbols h (SymbolTable.mem_sorted_iff.1 hs).1)

end Assembly

namespace Session
open Output Listing

/-- Between five lines of heading and the empty line that opens the symbols a listing has one row for each line that
cleaning leaves, in order, with the number of its physical line and what is written there. Read off the rows, the words
come out under the addresses from zero on, each beside its own line, and no word is missing. A label that a row binds
has the address of the next row that has one, or the number of all words behind the last. -/
theorem listing_shows_every_word {s : Session} {file source : Text} {words : List Text}
    (h : (s.assembleSource file source).1 = .ok words) :
    let after := (s.assembleSource file source).2
    let lines := Source.clean source
    ∃ (table : SymbolTable) (found below : List Text) (rows : List Row),
      after.words = words ∧ after.table? = some table ∧
      Text.lines after.listing =
        (["Hack Assembler Listing", List.replicate 60 '=', [], "  ROM  Word              Line  Source",
            List.replicate 60 '-'] : List Text) ++ found ++
          ([[], "Symbol Table", List.replicate 30 '-'] : List Text) ++ below ∧
      found.map Row.read? = rows.map some ∧ rows.length = lines.length ∧
      rows.Pairwise (fun r next => r.line < next.line) ∧
      rows.filterMap Row.code = words.zipIdx.map Prod.swap ∧
      ∀ (i : Nat) (l : SourceLine), lines[i]? = some l → ∃ r, rows[i]? = some r ∧
        r.line = l.line ∧ r.written = l.written ∧
        (∃ (n : Nat) (raw : Text), (Text.lines source)[n]? = some raw ∧
          l = ⟨Source.cleanLine raw, n + 1, Text.trimRight raw⟩) ∧
        (Line.isLabel l.text = false →
          ∃ word, words[instructionsBefore lines i]? = some word ∧
            r.code = some (instructionsBefore lines i, word)) ∧
        (Line.isLabel l.text = true →
          r.code = none ∧ (¬Redeclares (texts (lines.take i)) l.text →
            table.lookup (Line.labelName l.text) =
              some ⟨Line.labelName l.text, nextAddress words.length (rows.drop (i + 1)), .label⟩)) := by
  intro after lines
  obtain ⟨a, hrun, rfl, hafter⟩ := exists_assembly_of_assembleSource h
  have hcount : a.words.length = (Labels.instructions (texts lines)).length := Assembly.length_words hrun
  have hwords : ∀ word ∈ a.words, word.length = Word.width :=
    fun word hword => (Assembly.Assembles.isBinary ⟨a, hrun, rfl⟩ word hword).1
  have hrising : lines.Pairwise fun l next => l.line < next.line :=
    Source.pairwise_cleanFrom 0 (Text.lines source)
  have hsession : after = s.reset.keep a := hafter
  rw [hsession]
  refine ⟨a.table, rows 0 a.words lines, (a.table.sorted false).map symbolRow, entries 0 a.words lines, rfl, rfl,
    Assembly.lines_listing hrun s.reset, map_read?_rows hcount hwords, length_entries 0 a.words lines,
    pairwise_line_entries hrising 0 a.words, filterMap_code_entries 0 hcount, ?_⟩
  · intro i l hl
    obtain ⟨r, hr, hline, hwritten⟩ := exists_row hl a.words
    obtain ⟨n, raw, hraw, -, horigin⟩ := Source.mem_cleanFrom_iff.1 (List.mem_of_getElem? hl)
    rw [Nat.zero_add] at horigin
    refine ⟨r, hr, hline, hwritten, ⟨n, raw, hraw, horigin⟩,
      fun hlabel => code_of_not_isLabel hl hcount hlabel hr, fun hlabel => ⟨code_of_isLabel hl hlabel hr, ?_⟩⟩
    intro hnew
    obtain ⟨hname, hmem, haddress⟩ := labelAddress_of_not_redeclares hl hlabel hnew
    rw [Assembly.lookup_label hrun hname hmem, haddress, nextAddress_drop hl hcount hlabel]

/-- Among comments and empty lines a label that is declared again behind its use, one with a predefined name, and one
behind the last instruction. -/
def scatteredLabels : Text :=
  List.intercalate ['\n'] [['/', '/'], Line.label ['L'], [' ', ' ', '@', 'L', ' ', '/', '/'], [],
    Line.label ['R', '1'], Line.label ['L'], ['D', '=', 'M'], Line.label ['E']]

def scatteredWords : List Text :=
  [0, 0b1111110000010000].map fun n => Word.ofBits (BitVec.ofNat Word.width n)

theorem listing_shows_words_of_scatteredLabels :
    ((start {} none).assembleSource [] scatteredLabels).1 = .ok scatteredWords ∧
    ∃ (table : SymbolTable) (found below : List Text) (rows : List Row) (r : Row),
      ((start {} none).assembleSource [] scatteredLabels).2.table? = some table ∧
      table.lookup ['L'] = some ⟨['L'], 0, .label⟩ ∧ table.lookup ['E'] = some ⟨['E'], 2, .label⟩ ∧
      found.length = 6 ∧ found.map Row.read? = rows.map some ∧
      Text.lines ((start {} none).assembleSource [] scatteredLabels).2.listing =
        (["Hack Assembler Listing", List.replicate 60 '=', [], "  ROM  Word              Line  Source",
            List.replicate 60 '-'] : List Text) ++ found ++
          ([[], "Symbol Table", List.replicate 30 '-'] : List Text) ++ below ∧
      rows.filterMap Row.code = scatteredWords.zipIdx.map Prod.swap ∧
      rows[1]? = some r ∧ r.line = 3 ∧ r.written = [' ', ' ', '@', 'L', ' ', '/', '/'] ∧
      r.code = scatteredWords.head?.map fun word => (0, word) := by
  have hrun : ((start {} none).assembleSource [] scatteredLabels).1 = .ok scatteredWords := by decide +kernel
  obtain ⟨table, found, below, rows, -, htable, hlines, hread, hlength, -, hcodes, hrows⟩ :=
    listing_shows_every_word hrun
  refine ⟨hrun, table, found, below, rows, ?_⟩
  obtain ⟨r, hr, hline, hwritten, -, hword, -⟩ :=
    hrows 1 ⟨['@', 'L'], 3, [' ', ' ', '@', 'L', ' ', '/', '/']⟩ (by decide +kernel)
  obtain ⟨first, hfirst, -, -, -, -, hlabel⟩ := hrows 0 ⟨Line.label ['L'], 2, Line.label ['L']⟩ (by decide +kernel)
  obtain ⟨last, hlast, -, -, -, -, hend⟩ := hrows 5 ⟨Line.label ['E'], 8, Line.label ['E']⟩ (by decide +kernel)
  have hcount : instructionsBefore (Source.clean scatteredLabels) 1 = 0 := by decide +kernel
  have hempty : rows.drop 6 = [] := List.drop_eq_nil_of_le (hlength.trans (by decide +kernel)).le
  have hnext : nextAddress scatteredWords.length (rows.drop (0 + 1)) = 0 := by
    cases rows with
    | nil => cases hfirst
    | cons row rest =>
      obtain rfl : row = first := Option.some.inj hfirst
      rw [List.filterMap_cons_none (hlabel (by decide)).1] at hcodes
      rw [List.drop_succ_cons, List.drop_zero, nextAddress, ← List.head?_filterMap, hcodes]
      rfl
  have hbound := (hlabel (by decide)).2 (by decide +kernel)
  have hboundEnd := (hend (by decide)).2 (by decide +kernel)
  rw [hnext] at hbound
  rw [hempty] at hboundEnd
  obtain ⟨word, hplace, hcode⟩ := hword (by decide)
  rw [hcount] at hplace hcode
  have hfound : found.length = 6 := by
    have hsame := congrArg List.length hread
    rw [List.length_map, List.length_map] at hsame
    exact hsame.trans (hlength.trans (by decide +kernel))
  refine ⟨r, htable, hbound, hboundEnd, hfound, hread, hlines, hcodes, hr, hline, hwritten, ?_⟩
  rw [hcode, List.head?_eq_getElem?, hplace]
  rfl

end Session

end HackAssembler
