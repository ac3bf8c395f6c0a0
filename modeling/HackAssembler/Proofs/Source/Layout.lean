import Mathlib.Logic.Relation
import HackAssembler.Proofs.Location
import HackAssembler.Proofs.Source.Numbering
import HackAssembler.Proofs.Source.Recleaning

/-! Layout. White space inside a line, comments, and lines that hold nothing else can be changed at will, and the
program stays the same. Only lines that come or go change the numbers of the lines behind them. -/
namespace HackAssembler

/-- What a line says and its number, which layout keeps apart from how it is written. -/
def SourceLine.place (l : SourceLine) : Text × Int := (l.text, l.line)

/-- The same place under the new number of its line. -/
def Location.renumbered (renumber : Int → Int) (l : Location) : Location := { l with line := renumber l.line }

namespace Source

/-- A line of white space with no comment, or with one behind it. -/
def IsVoid (raw : Text) : Prop :=
  ∃ gap comment, (∀ c ∈ gap, Text.isBlank c = true) ∧ (raw = gap ∨ raw = gap ++ (commentMark ++ comment))

/-- The number of a line when `k` lines come in behind the first `n`. -/
def countOn (n k : Nat) (line : Int) : Int := if line ≤ n then line else line + k

/-- An edit of the layout of a source text, and the number that it gives to each line. -/
inductive Edit : (Int → Int) → Text → Text → Prop
  /-- White space that breaks no line comes in inside a line, but not between two slashes. -/
  | blank {front back : Text} {c : Char} (hblank : Text.isBlank c = true) (hbreak : Text.isBreak c = false)
      (hinside : ¬Text.Fuse front back) (hslashes : ¬(front.getLast? = some '/' ∧ back.head? = some '/')) :
      Edit id (front ++ back) (front ++ (c :: back))
  /-- What follows a comment mark on its line becomes something else. -/
  | comment {front old new back : Text} (hold : ∀ c ∈ old, Text.isBreak c = false)
      (hnew : ∀ c ∈ new, Text.isBreak c = false) (hend : ∀ c ∈ back.head?, Text.isBreak c = true) :
      Edit id (front ++ (commentMark ++ old ++ back)) (front ++ (commentMark ++ new ++ back))
  /-- A space and a comment come in at the end of a line. -/
  | append {front comment back : Text} (hcomment : ∀ c ∈ comment, Text.isBreak c = false)
      (hinside : ¬Text.Fuse front back) (hend : ∀ c ∈ back.head?, Text.isBreak c = true) :
      Edit id (front ++ back) (front ++ (' ' :: (commentMark ++ comment) ++ back))
  /-- Lines come in that hold only white space and comments, with their breaks written in any way. -/
  | lines {source edited : Text} {front inserted back : List Text} (hsource : Text.lines source = front ++ back)
      (hedited : Text.lines edited = front ++ (inserted ++ back)) (hvoid : ∀ raw ∈ inserted, IsVoid raw) :
      Edit (countOn front.length inserted.length) source edited

/-- Text that ends in a break, and of which nothing is left, comes in between two lines. -/
theorem Edit.of_isClosed {front inserted back : Text} (hfront : Text.IsClosed front)
    (hclosed : Text.IsClosed inserted) (hinside : ¬Text.Fuse front back)
    (habove : ¬Text.Fuse front (inserted ++ back)) (hbelow : ¬Text.Fuse inserted back)
    (hvoid : ∀ raw ∈ Text.lines inserted, IsVoid raw) :
    Edit (countOn (Text.lines front).length (Text.lines inserted).length) (front ++ back)
      (front ++ (inserted ++ back)) := by
  apply Edit.lines (Text.lines_append hfront hinside)
  · rw [Text.lines_append hfront habove, Text.lines_append hclosed hbelow]
  · exact hvoid

/-! ### The code of an edited line -/

theorem code_of_head {t : Text} (h : t.head? = some '/') : code ('/' :: t) = [] := by
  obtain ⟨comment, rfl⟩ := List.head?_eq_some_iff.1 h
  exact code_comment comment

/-- The text behind a part of a line counts only through its own code and the character that it begins with. -/
theorem code_append_congr {back back' : Text} (hhead : back.head? = back'.head?) (hcode : code back = code back')
    (front : Text) : code (front ++ back) = code (front ++ back') := by
  induction front with
  | nil => exact hcode
  | cons c front ih =>
    have hnext : (front ++ back).head? = (front ++ back').head? := by
      cases front with
      | nil => exact hhead
      | cons d front => rfl
    rw [List.cons_append, List.cons_append]
    by_cases hmark : c = '/' ∧ (front ++ back).head? = some '/'
    · obtain ⟨rfl, hopens⟩ := hmark
      rw [code_of_head hopens, code_of_head (hnext ▸ hopens)]
    · rw [code_cons hmark, code_cons (hnext ▸ hmark), ih]

/-- What follows a comment mark does not matter. -/
theorem code_append_mark (front comment comment' : Text) :
    code (front ++ (commentMark ++ comment)) = code (front ++ (commentMark ++ comment')) := by
  have hnone : ∀ t, code (commentMark ++ t) = [] := code_comment
  apply code_append_congr
  · rfl
  · rw [hnone, hnone]

/-- Behind text that is all code, what follows is read on its own if no mark is put together. -/
theorem code_append {front back : Text} (hfront : code front = front)
    (hslashes : ¬(front.getLast? = some '/' ∧ back.head? = some '/')) :
    code (front ++ back) = front ++ code back := by
  induction front with
  | nil => rfl
  | cons c front ih =>
    have hmark : ¬(c = '/' ∧ front.head? = some '/') := by
      rintro ⟨rfl, hhead⟩
      rw [code_of_head hhead] at hfront
      cases hfront
    have hrest : code front = front := by
      rw [code_cons hmark] at hfront
      exact List.tail_eq_of_cons_eq hfront
    cases front with
    | nil =>
      have hseam : ¬(c = '/' ∧ back.head? = some '/') := fun h => hslashes ⟨congrArg some h.1, h.2⟩
      rw [List.singleton_append, code_cons hseam, List.singleton_append]
    | cons d front =>
      have hwhole : code (c :: (d :: front ++ back)) = c :: code (d :: front ++ back) := code_cons hmark
      rw [List.cons_append, hwhole, ih hrest hslashes]
      rfl

/-- Behind a comment mark nothing is code. -/
theorem code_append_of_ne {front : Text} (hfront : code front ≠ front) (back : Text) :
    code (front ++ back) = code front := by
  obtain ⟨comment, hcut⟩ := (code_cases front).resolve_left hfront
  calc code (front ++ back)
      = code (code front ++ (commentMark ++ (comment ++ back))) := by
        rw [← List.append_assoc commentMark, ← List.append_assoc, ← hcut]
    _ = code (code front ++ (commentMark ++ comment)) := code_append_mark _ _ _
    _ = code front := by rw [← hcut]

theorem dropBlanks_cons_of_isBlank {c : Char} (h : Text.isBlank c = true) (t : Text) :
    Text.dropBlanks (c :: t) = Text.dropBlanks t :=
  List.filter_cons_of_neg (by simp [h])

theorem cleanLine_insert_blank {front back : Text} {c : Char} (hblank : Text.isBlank c = true)
    (hslashes : ¬(front.getLast? = some '/' ∧ back.head? = some '/')) :
    cleanLine (front ++ (c :: back)) = cleanLine (front ++ back) := by
  have hc : c ≠ '/' := by
    rintro rfl
    cases hblank
  by_cases hfront : code front = front
  · have hseam : ¬(front.getLast? = some '/' ∧ (c :: back).head? = some '/') :=
      fun h => hc (Option.some.inj h.2)
    rw [cleanLine, cleanLine, code_append hfront hslashes, code_append hfront hseam,
      code_cons fun h => hc h.1, Text.dropBlanks_append, Text.dropBlanks_append,
      dropBlanks_cons_of_isBlank hblank]
  · rw [cleanLine, cleanLine, code_append_of_ne hfront, code_append_of_ne hfront]

theorem cleanLine_append_comment (raw comment : Text) :
    cleanLine (raw ++ (' ' :: (commentMark ++ comment))) = cleanLine raw := by
  by_cases hraw : code raw = raw
  · have hseam : ¬(raw.getLast? = some '/' ∧ (' ' :: (commentMark ++ comment)).head? = some '/') :=
      fun h => absurd (Option.some.inj h.2) (by decide)
    have hcode : code (' ' :: (commentMark ++ comment)) = [' '] := by
      rw [code_cons (by simp)]
      exact congrArg (' ' :: ·) (code_comment comment)
    rw [cleanLine, code_append hraw hseam, hcode, Text.dropBlanks_append, cleanLine, hraw,
      dropBlanks_cons_of_isBlank (by decide), Text.dropBlanks_nil, List.append_nil]
  · rw [cleanLine, code_append_of_ne hraw, cleanLine]

theorem cleanLine_of_isVoid {raw : Text} (h : IsVoid raw) : cleanLine raw = [] := by
  obtain ⟨gap, comment, hgap, hraw⟩ := h
  have hslash : '/' ∉ gap := fun hmem => absurd (hgap '/' hmem) (by decide)
  have hcode : code raw = gap := by
    have hgapCode : code gap = gap := code_eq_self fun hmark => hslash (hmark.subset List.mem_cons_self)
    have hcomment : code (commentMark ++ comment) = [] := code_comment comment
    rcases hraw with rfl | rfl
    · exact hgapCode
    · rw [code_append hgapCode fun h => hslash (List.mem_of_getLast? h.1), hcomment, List.append_nil]
  rw [cleanLine, hcode, Text.dropBlanks, List.filter_eq_nil_iff]
  intro c hc
  simp [hgap c hc]

/-! ### The edited line among the others -/

theorem cleanFrom_lines_append {line rest : Text} (hline : ∀ c ∈ line, Text.isBreak c = false)
    (hrest : ∀ c ∈ rest.head?, Text.isBreak c = true) (k : Nat) :
    cleanFrom k (Text.lines (line ++ rest)) = cleanFrom k (line :: (Text.lines rest).tail) := by
  cases rest with
  | nil =>
    rw [List.append_nil, Text.lines_nil, List.tail_nil]
    by_cases hempty : line = []
    · rw [hempty, Text.lines_nil]
      exact (cleanFrom_concat_nil k []).symm
    · rw [Text.lines_eq_singleton hempty hline]
  | cons c rest => rw [Text.lines_append_break hline (hrest c rfl)]

/-- A text around a place inside a line: what comes in there without a break changes this line and no other. -/
theorem exists_line_around (front back : Text) :
    ∃ (above below : List Text) (left right : Text), left <:+ front ∧ right <+: back ∧
      (∀ c ∈ right, Text.isBreak c = false) ∧
      ∀ gap, (∀ c ∈ gap, Text.isBreak c = false) → (gap = [] → ¬Text.Fuse front back) →
        clean (front ++ (gap ++ back)) = cleanFrom 0 (above ++ (left ++ (gap ++ right)) :: below) := by
  obtain ⟨closed, left, rfl, hclosed, hleft⟩ := Text.exists_open_line front
  obtain ⟨right, rest, rfl, hright, hrest⟩ := Text.exists_first_line back
  refine ⟨Text.lines closed, (Text.lines rest).tail, left, right, List.suffix_append _ _,
    List.prefix_append _ _, hright, fun gap hgap hinside => ?_⟩
  have hline : ∀ c ∈ left ++ (gap ++ right), Text.isBreak c = false := by
    simp only [List.forall_mem_append]
    exact ⟨hleft, hgap, hright⟩
  have hapart : ¬Text.Fuse closed (left ++ (gap ++ right) ++ rest) := by
    by_cases hempty : left ++ (gap ++ right) = []
    · obtain ⟨rfl, hgapRight⟩ := List.append_eq_nil_iff.1 hempty
      obtain ⟨rfl, rfl⟩ := List.append_eq_nil_iff.1 hgapRight
      simpa using hinside rfl
    · exact Text.not_fuse_append hempty hline closed rest
  have hwhole : closed ++ left ++ (gap ++ (right ++ rest)) = closed ++ (left ++ (gap ++ right) ++ rest) := by
    simp only [List.append_assoc]
  rw [clean_eq_cleanFrom, hwhole, Text.lines_append hclosed hapart, cleanFrom_append, cleanFrom_append,
    cleanFrom_lines_append hline hrest]

theorem map_place_cleanFrom_congr {raw raw' : Text} (h : cleanLine raw = cleanLine raw') (k : Nat)
    (above below : List Text) :
    (cleanFrom k (above ++ raw :: below)).map SourceLine.place =
      (cleanFrom k (above ++ raw' :: below)).map SourceLine.place := by
  rw [cleanFrom_append, cleanFrom_append, List.map_append, List.map_append]
  congr 1
  by_cases hempty : cleanLine raw = []
  · rw [cleanFrom_cons_of_empty hempty, cleanFrom_cons_of_empty (h ▸ hempty)]
  · rw [cleanFrom_cons hempty, cleanFrom_cons (h ▸ hempty), List.map_cons, List.map_cons]
    exact congrArg (fun text => (text, _) :: _) h

/-- Behind lines that come in, every line counts on, and in front of them none does. -/
theorem map_place_cleanFrom_inserted {front inserted back : List Text} (hvoid : ∀ raw ∈ inserted, IsVoid raw) :
    (cleanFrom 0 (front ++ (inserted ++ back))).map SourceLine.place =
      (cleanFrom 0 (front ++ back)).map fun l => (l.text, countOn front.length inserted.length l.line) := by
  have hnone : ∀ k, cleanFrom k inserted = [] := by
    intro k
    rw [List.eq_nil_iff_forall_not_mem]
    intro l hl
    obtain ⟨n, raw, hraw, hspeaks, -⟩ := mem_cleanFrom_iff.1 hl
    exact cleanLine_ne_nil_iff.2 hspeaks (cleanLine_of_isVoid (hvoid raw (List.mem_of_getElem? hraw)))
  have hfront : (cleanFrom 0 front).map SourceLine.place =
      (cleanFrom 0 front).map fun l => (l.text, countOn front.length inserted.length l.line) := by
    apply List.map_congr_left
    intro l hl
    have hhigh := (line_of_mem_cleanFrom hl).2
    rw [countOn, if_pos (by omega)]
    rfl
  have hback : (cleanFrom (front.length + inserted.length) back).map SourceLine.place =
      (cleanFrom front.length back).map fun l => (l.text, countOn front.length inserted.length l.line) := by
    rw [cleanFrom_add, List.map_map]
    apply List.map_congr_left
    intro l hl
    have hlow := (line_of_mem_cleanFrom hl).1
    rw [countOn, if_neg (by omega)]
    rfl
  rw [cleanFrom_append, cleanFrom_append, cleanFrom_append, hnone, List.nil_append, Nat.zero_add,
    List.map_append, List.map_append, hfront, hback]

theorem isBreak_commentMark : ∀ c ∈ commentMark, Text.isBreak c = false := by
  simp [commentMark, Text.isBreak]

theorem eq_nil_of_ends {right back : Text} (hbegins : right <+: back) (hright : ∀ c ∈ right, Text.isBreak c = false)
    (hend : ∀ c ∈ back.head?, Text.isBreak c = true) : right = [] := by
  cases right with
  | nil => rfl
  | cons c right =>
    obtain ⟨rest, rfl⟩ := hbegins
    have hbreak : Text.isBreak c = true := hend c rfl
    rw [hright c List.mem_cons_self] at hbreak
    cases hbreak

theorem map_place_insert_blank {front back : Text} {c : Char} (hblank : Text.isBlank c = true)
    (hbreak : Text.isBreak c = false) (hinside : ¬Text.Fuse front back)
    (hslashes : ¬(front.getLast? = some '/' ∧ back.head? = some '/')) :
    (clean (front ++ (c :: back))).map SourceLine.place = (clean (front ++ back)).map SourceLine.place := by
  obtain ⟨above, below, left, right, ⟨before, rfl⟩, ⟨behind, rfl⟩, -, haround⟩ := exists_line_around front back
  have hseam : ¬(left.getLast? = some '/' ∧ right.head? = some '/') := by
    rintro ⟨hlast, hhead⟩
    exact hslashes ⟨by rw [List.getLast?_append, hlast]; rfl, by rw [List.head?_append, hhead]; rfl⟩
  have hsource := haround [] (List.forall_mem_nil _) fun _ => hinside
  have hedited := haround [c] (List.forall_mem_singleton.2 hbreak) fun h => absurd h (List.cons_ne_nil c [])
  rw [List.nil_append, List.nil_append] at hsource
  rw [List.singleton_append, List.singleton_append] at hedited
  rw [hsource, hedited]
  exact map_place_cleanFrom_congr (cleanLine_insert_blank hblank hseam) 0 above below

theorem map_place_change_comment {front old new back : Text} (hold : ∀ c ∈ old, Text.isBreak c = false)
    (hnew : ∀ c ∈ new, Text.isBreak c = false) (hend : ∀ c ∈ back.head?, Text.isBreak c = true) :
    (clean (front ++ (commentMark ++ new ++ back))).map SourceLine.place =
      (clean (front ++ (commentMark ++ old ++ back))).map SourceLine.place := by
  obtain ⟨above, below, left, right, -, hbegins, hright, haround⟩ := exists_line_around front back
  obtain rfl := eq_nil_of_ends hbegins hright hend
  have hcommented : ∀ comment, (∀ c ∈ comment, Text.isBreak c = false) →
      clean (front ++ (commentMark ++ comment ++ back)) =
        cleanFrom 0 (above ++ (left ++ (commentMark ++ comment)) :: below) := by
    intro comment hcomment
    have hbreak := List.forall_mem_append.2 ⟨isBreak_commentMark, hcomment⟩
    have hnonempty : commentMark ++ comment ≠ [] := List.cons_ne_nil _ _
    rw [haround _ hbreak fun h => absurd h hnonempty, List.append_nil]
  have hline : cleanLine (left ++ (commentMark ++ new)) = cleanLine (left ++ (commentMark ++ old)) := by
    rw [cleanLine, code_append_mark left new old, cleanLine]
  rw [hcommented old hold, hcommented new hnew]
  exact map_place_cleanFrom_congr hline 0 above below

theorem map_place_append_comment {front comment back : Text} (hcomment : ∀ c ∈ comment, Text.isBreak c = false)
    (hinside : ¬Text.Fuse front back) (hend : ∀ c ∈ back.head?, Text.isBreak c = true) :
    (clean (front ++ (' ' :: (commentMark ++ comment) ++ back))).map SourceLine.place =
      (clean (front ++ back)).map SourceLine.place := by
  obtain ⟨above, below, left, right, -, hbegins, hright, haround⟩ := exists_line_around front back
  obtain rfl := eq_nil_of_ends hbegins hright hend
  have hbreak : ∀ c ∈ ' ' :: (commentMark ++ comment), Text.isBreak c = false :=
    List.forall_mem_cons.2 ⟨by decide, List.forall_mem_append.2 ⟨isBreak_commentMark, hcomment⟩⟩
  have hsource := haround [] (List.forall_mem_nil _) fun _ => hinside
  have hedited := haround (' ' :: (commentMark ++ comment)) hbreak fun h => absurd h (List.cons_ne_nil _ _)
  rw [List.nil_append, List.nil_append, List.append_nil] at hsource
  rw [List.append_nil] at hedited
  rw [hsource, hedited]
  exact map_place_cleanFrom_congr (cleanLine_append_comment left comment) 0 above below

/-- An edit of the layout leaves every text and gives every line its new number. -/
theorem map_place_of_edit {renumber : Int → Int} {source edited : Text} (h : Edit renumber source edited) :
    (clean edited).map SourceLine.place = (clean source).map fun l => (l.text, renumber l.line) := by
  cases h with
  | blank hblank hbreak hinside hslashes => exact map_place_insert_blank hblank hbreak hinside hslashes
  | comment hold hnew hend => exact map_place_change_comment hold hnew hend
  | append hcomment hinside hend => exact map_place_append_comment hcomment hinside hend
  | lines hsource hedited hvoid =>
    rw [clean_eq_cleanFrom, clean_eq_cleanFrom, hsource, hedited]
    exact map_place_cleanFrom_inserted hvoid

theorem texts_of_map_place {renumber : Int → Int} {lines lines' : List SourceLine}
    (h : lines'.map SourceLine.place = lines.map fun l => (l.text, renumber l.line)) :
    Program.texts lines' = Program.texts lines := by
  have htexts := congrArg (List.map Prod.fst) h
  rw [List.map_map, List.map_map] at htexts
  exact htexts

/-- Any number of edits of the layout leave every text. -/
theorem texts_of_edits {source edited : Text}
    (h : Relation.EqvGen (fun source edited => ∃ renumber, Edit renumber source edited) source edited) :
    Program.texts (clean edited) = Program.texts (clean source) := by
  induction h with
  | rel source edited hedit =>
    obtain ⟨renumber, hedit⟩ := hedit
    exact texts_of_map_place (map_place_of_edit hedit)
  | refl => rfl
  | symm _ _ _ ih => exact ih.symm
  | trans _ _ _ _ _ first next => exact next.trans first

end Source

namespace Assembly
open Program Source

/-- Where the same texts stand under other numbers, the same fault is reported under the other number. -/
theorem location_of_map_place {renumber : Int → Int} {lines lines' : List SourceLine} {strict : Bool} {file : Text}
    {d e : Diagnostic}
    (hplaces : lines'.map SourceLine.place = lines.map fun l => (l.text, renumber l.line))
    (hd : ofSourceLines strict file lines = .error (.diagnostic d))
    (he : ofSourceLines strict file lines' = .error (.diagnostic e)) :
    e.location = d.location.map (.renumbered renumber) := by
  have hagree := agree_of_texts (texts_of_map_place hplaces).symm strict file
  rw [hd, he] at hagree
  obtain ⟨hcause, hindex⟩ : d.cause = e.cause ∧ d.index = e.index := by
    cases hagree with
    | error hsame => exact hsame
  obtain ⟨i, line, hline, -, hi, hlocation, -⟩ := exists_line_of_diagnostic hd
  obtain ⟨j, line', hline', -, hj, hlocation', -⟩ := exists_line_of_diagnostic he
  obtain rfl : i = j := by
    rw [← hindex, hi] at hj
    exact Int.ofNat_inj.1 (Option.some.inj hj)
  rw [← hcause] at hline'
  have hcounted := congrArg (List.filter fun place => d.cause.counts place.1) hplaces
  rw [List.filter_map, List.filter_map] at hcounted
  have hplace : some line'.place = some (line.text, renumber line.line) :=
    calc some line'.place
        = ((lines'.filter fun l => d.cause.counts l.text).map SourceLine.place)[i]? := by
          rw [List.getElem?_map, hline', Option.map_some]
      _ = ((lines.filter fun l => d.cause.counts l.text).map fun l => (l.text, renumber l.line))[i]? :=
          congrArg (·[i]?) hcounted
      _ = some (line.text, renumber line.line) := by rw [List.getElem?_map, hline, Option.map_some]
  have hnumber : line'.line = renumber line.line := congrArg Prod.snd (Option.some.inj hplace)
  rw [hlocation, hlocation', hnumber]
  rfl

/-- Layout says nothing. An edit of it leaves all texts, and gives their lines and the places of faults new numbers
only if lines come in, and only behind these. However many such edits are made or taken back, the program keeps its
words, its symbols and its fault. -/
theorem layout_keeps_program :
    (∀ (renumber : Int → Int) (source edited : Text), Edit renumber source edited →
      (clean edited).map SourceLine.place = (clean source).map (fun l => (l.text, renumber l.line)) ∧
      ∀ (strict : Bool) (file : Text) (d e : Diagnostic),
        ofSource strict file source = .error (.diagnostic d) →
        ofSource strict file edited = .error (.diagnostic e) →
        e.location = d.location.map (.renumbered renumber)) ∧
    ∀ source edited : Text,
      Relation.EqvGen (fun source edited => ∃ renumber, Edit renumber source edited) source edited →
      texts (clean edited) = texts (clean source) ∧
      ∀ (strict : Bool) (file : Text),
        Agree (ofSource strict file source) (ofSource strict file edited) := by
  constructor
  · intro renumber source edited hedit
    have hplaces := map_place_of_edit hedit
    exact ⟨hplaces, fun strict file d e => location_of_map_place hplaces⟩
  · intro source edited hedits
    have htexts := texts_of_edits hedits
    exact ⟨htexts, fun strict file => agree_of_texts htexts.symm strict file⟩

/-- A fault on the second line. -/
def faultBelow : Text := ['@', '1', '\n', 'D', '=', 'Q']

/-- A comment on a line of its own. -/
def commentLine : Text := ['\t', '/', '/', '(', 'L', ')', '\r']

/-- The same fault below the comment. -/
def faultFurtherBelow : Text := ['@', '1', '\n', '\t', '/', '/', '(', 'L', ')', '\r', 'D', '=', 'Q']

/-- The same fault with an ideographic space in it. -/
def spacedFault : Text := ['@', '1', '\n', 'D', '=', '\u3000', 'Q']

def unknownComputation (line : Int) : Diagnostic where
  cause := .unknownMnemonic Field.comp.name ['Q'] ['D', '=', 'Q'] Field.comp.mnemonics
  index := some 1
  location := some ⟨['f'], line, 1⟩
  sourceLine := some ['D', '=', 'Q']

theorem layout_keeps_faultBelow :
    Edit (countOn 1 1) faultBelow faultFurtherBelow ∧
    ofSource true ['f'] faultBelow = .error (.diagnostic (unknownComputation 2)) ∧
    ofSource true ['f'] faultFurtherBelow = .error (.diagnostic (unknownComputation 3)) ∧
    (unknownComputation 3).location = (unknownComputation 2).location.map (.renumbered (countOn 1 1)) ∧
    Agree (ofSource true ['f'] faultFurtherBelow) (ofSource true ['f'] spacedFault) := by
  have hcomment : Text.lines commentLine = [['\t', '/', '/', '(', 'L', ')']] := by decide +kernel
  have hfirst : Text.lines ['@', '1', '\n'] = [['@', '1']] := by decide +kernel
  have hvoid : ∀ raw ∈ Text.lines commentLine, IsVoid raw := by
    rw [hcomment, List.forall_mem_singleton]
    exact ⟨['\t'], ['(', 'L', ')'], by simp [Text.isBlank], .inr rfl⟩
  have hinserted : Edit (countOn 1 1) faultBelow faultFurtherBelow := by
    have hfront : Text.IsClosed ['@', '1', '\n'] := by simp [Text.IsClosed, Text.isBreak]
    have hclosed : Text.IsClosed commentLine := by simp [Text.IsClosed, Text.isBreak, commentLine]
    have hedit := @Edit.of_isClosed _ _ ['D', '=', 'Q'] hfront hclosed (by decide) (by decide) (by decide) hvoid
    rwa [hcomment, hfirst] at hedit
  have hspaced : Edit id faultBelow spacedFault :=
    @Edit.blank ['@', '1', '\n', 'D', '='] ['Q'] '\u3000' (by decide) (by decide) (by decide) (by decide)
  have hd : (ofSource true ['f'] faultBelow).map Assembly.words = .error (.diagnostic (unknownComputation 2)) := by
    decide +kernel
  have he : (ofSource true ['f'] faultFurtherBelow).map Assembly.words =
      .error (.diagnostic (unknownComputation 3)) := by
    decide +kernel
  rw [Except.map_eq_error_iff] at hd he
  obtain ⟨hsingle, hmany⟩ := layout_keeps_program
  have hedits : Relation.EqvGen (fun source edited => ∃ renumber, Edit renumber source edited)
      faultFurtherBelow spacedFault :=
    .trans _ _ _ (.symm _ _ (.rel _ _ ⟨_, hinserted⟩)) (.rel _ _ ⟨_, hspaced⟩)
  exact ⟨hinserted, hd, he, (hsingle _ _ _ hinserted).2 true ['f'] _ _ hd he, (hmany _ _ hedits).2 true ['f']⟩

end Assembly

end HackAssembler
