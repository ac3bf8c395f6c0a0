import HackAssembler.Proofs.Source.Cleaning
import HackAssembler.Proofs.StrictLabels

/-! Cleaning what is clean. Comments are cut off before white space is dropped, so that two slashes that only white
space kept apart open a comment in the text that is left and not before. Without such a pair cleaning once more
changes nothing. -/
namespace HackAssembler

namespace Source
open Program

/-- What opens a comment. -/
abbrev commentMark : Text := ['/', '/']

/-- Between two slashes there is white space and nothing else. -/
def SplitsMark (t : Text) : Prop :=
  ∃ front gap back, t = front ++ '/' :: (gap ++ '/' :: back) ∧ gap ≠ [] ∧ ∀ c ∈ gap, Text.isBlank c = true

/-! ### Comments -/

/-- The code of a line ends where the line does or where its comment begins. -/
theorem code_cases (line : Text) :
    code line = line ∨ ∃ comment, line = code line ++ (commentMark ++ comment) := by
  induction line with
  | nil => exact .inl rfl
  | cons c line ih =>
    by_cases hmark : c = '/' ∧ line.head? = some '/'
    · obtain ⟨rfl, hhead⟩ := hmark
      obtain ⟨comment, rfl⟩ := List.head?_eq_some_iff.1 hhead
      exact .inr ⟨comment, by rw [code_comment]; rfl⟩
    · rw [code_cons hmark]
      rcases ih with hwhole | ⟨comment, hcut⟩
      · exact .inl (by rw [hwhole])
      · exact .inr ⟨comment, congrArg (c :: ·) hcut⟩

theorem code_prefix_self (line : Text) : code line <+: line := by
  rcases code_cases line with hwhole | ⟨comment, hcut⟩
  · exact ⟨[], by rw [List.append_nil, hwhole]⟩
  · exact ⟨commentMark ++ comment, hcut.symm⟩

theorem not_commentMark_infix_code (line : Text) : ¬commentMark <:+: code line := by
  induction line with
  | nil => simp
  | cons c line ih =>
    by_cases hmark : c = '/' ∧ line.head? = some '/'
    · obtain ⟨rfl, hhead⟩ := hmark
      obtain ⟨comment, rfl⟩ := List.head?_eq_some_iff.1 hhead
      simp
    · rw [code_cons hmark, List.infix_cons_iff, not_or]
      refine ⟨fun hprefix => hmark ?_, ih⟩
      obtain ⟨hc, hrest⟩ := List.cons_prefix_cons.1 hprefix
      obtain ⟨rest, hline⟩ := hrest.trans (code_prefix_self line)
      exact ⟨hc.symm, by rw [← hline]; rfl⟩

/-- Text without a mark is all code. -/
theorem code_eq_self {t : Text} (h : ¬commentMark <:+: t) : code t = t := by
  rcases code_cases t with hwhole | ⟨comment, hcut⟩
  · exact hwhole
  · exact absurd ⟨code t, comment, by rw [List.append_assoc, ← hcut]⟩ h

/-! ### White space between slashes -/

theorem commentMark_infix_dropBlanks_iff {t : Text} (h : ¬commentMark <:+: t) :
    commentMark <:+: Text.dropBlanks t ↔ SplitsMark t := by
  constructor
  · rintro ⟨before, behind, hdropped⟩
    rw [List.append_assoc] at hdropped
    obtain ⟨front, rest, rfl, -, hrest⟩ := List.filter_eq_append_iff.1 hdropped.symm
    obtain ⟨skipped, rest, rfl, -, -, hrest⟩ := List.filter_eq_cons_iff.1 hrest
    obtain ⟨gap, back, rfl, hgap, -, -⟩ := List.filter_eq_cons_iff.1 hrest
    refine ⟨front ++ skipped, gap, back, by simp, ?_, fun c hc => by simpa using hgap c hc⟩
    rintro rfl
    exact h ⟨front ++ skipped, back, by simp⟩
  · rintro ⟨front, gap, back, rfl, -, hgap⟩
    have hnone : Text.dropBlanks gap = [] := by
      rw [Text.dropBlanks, List.filter_eq_nil_iff]
      intro c hc
      simp [hgap c hc]
    have hslash : ∀ t, Text.dropBlanks ('/' :: t) = '/' :: Text.dropBlanks t :=
      fun t => List.filter_cons_of_pos (by decide)
    refine ⟨Text.dropBlanks front, Text.dropBlanks back, ?_⟩
    rw [Text.dropBlanks_append, hslash, Text.dropBlanks_append, hnone, hslash]
    simp

/-- What is left of a line contains a mark only if dropping white space has made it. -/
theorem commentMark_infix_cleanLine_iff (line : Text) :
    commentMark <:+: cleanLine line ↔ SplitsMark (code line) :=
  commentMark_infix_dropBlanks_iff (not_commentMark_infix_code line)

/-! ### The texts that are left -/

theorem texts_clean (source : Text) :
    texts (clean source) = ((Text.lines source).map cleanLine).filter (· ≠ []) := by
  have hfrom : ∀ (raws : List Text) (k : Nat),
      texts (cleanFrom k raws) = (raws.map cleanLine).filter (· ≠ []) := by
    intro raws
    induction raws with
    | nil => exact fun _ => rfl
    | cons raw rest ih =>
      intro k
      by_cases hempty : cleanLine raw = []
      · rw [cleanFrom_cons_of_empty hempty, ih, List.map_cons, List.filter_cons_of_neg (by simpa using hempty)]
      · rw [cleanFrom_cons hempty, texts, List.map_cons, ← texts, ih, List.map_cons,
          List.filter_cons_of_pos (by simpa using hempty)]
  exact hfrom (Text.lines source) 0

theorem mem_texts_clean_iff {source text : Text} :
    text ∈ texts (clean source) ↔ text ≠ [] ∧ ∃ raw ∈ Text.lines source, cleanLine raw = text := by
  rw [texts_clean, List.mem_filter, List.mem_map, decide_eq_true_eq, and_comm]

/-- A cleaned text is not empty and has no white space. -/
theorem not_blank_of_mem_texts_clean {source text : Text} (h : text ∈ texts (clean source)) :
    text ≠ [] ∧ ∀ c ∈ text, Text.isBlank c = false := by
  obtain ⟨hne, raw, -, rfl⟩ := mem_texts_clean_iff.1 h
  exact ⟨hne, fun c hc => (Text.mem_dropBlanks.1 hc).2⟩

/-- Cleaning cuts text without white space off at its comment. -/
theorem cleanLine_of_not_blank {t : Text} (h : ∀ c ∈ t, Text.isBlank c = false) : cleanLine t = code t := by
  rw [cleanLine, Text.dropBlanks, List.filter_eq_self]
  intro c hc
  rw [h c ((code_prefix_self t).subset hc)]
  rfl

/-- The texts that cleaning leaves, one below the other. -/
def cleanText (source : Text) : Text := List.intercalate ['\n'] (texts (clean source))

theorem texts_clean_cleanText (source : Text) :
    texts (clean (cleanText source)) = ((texts (clean source)).map code).filter (· ≠ []) := by
  have hlines : Text.lines (cleanText source) = texts (clean source) := by
    apply Text.lines_intercalate
    intro text htext
    obtain ⟨hne, hblank⟩ := not_blank_of_mem_texts_clean htext
    exact ⟨hne, Text.isUnbroken_of_not_blank hblank⟩
  have hcode : (texts (clean source)).map cleanLine = (texts (clean source)).map code :=
    List.map_congr_left fun text htext => cleanLine_of_not_blank (not_blank_of_mem_texts_clean htext).2
  rw [texts_clean, hlines, hcode]

theorem not_commentMark_infix_of_mem_recleaned {source text : Text}
    (h : text ∈ texts (clean (cleanText source))) : ¬commentMark <:+: text := by
  rw [texts_clean_cleanText, List.mem_filter] at h
  obtain ⟨raw, -, rfl⟩ := List.mem_map.1 h.1
  exact not_commentMark_infix_code raw

/-- Cleaning once more changes nothing exactly where no text contains a mark. -/
theorem texts_clean_cleanText_eq_iff {source : Text} :
    texts (clean (cleanText source)) = texts (clean source) ↔
      ∀ text ∈ texts (clean source), ¬commentMark <:+: text := by
  constructor
  · intro h text htext
    rw [← h] at htext
    exact not_commentMark_infix_of_mem_recleaned htext
  · intro h
    have hcode : (texts (clean source)).map code = texts (clean source) := by
      rw [List.map_congr_left fun text htext => code_eq_self (h text htext), List.map_id']
    rw [texts_clean_cleanText, hcode, List.filter_eq_self]
    intro text htext
    exact decide_eq_true (not_blank_of_mem_texts_clean htext).1

theorem forall_not_commentMark_iff {source : Text} :
    (∀ text ∈ texts (clean source), ¬commentMark <:+: text) ↔
      ∀ raw ∈ Text.lines source, ¬SplitsMark (code raw) := by
  constructor
  · intro h raw hraw hsplits
    have hmark := (commentMark_infix_cleanLine_iff raw).2 hsplits
    have hne : cleanLine raw ≠ [] := by
      rintro hempty
      rw [hempty] at hmark
      simp at hmark
    exact h _ (mem_texts_clean_iff.2 ⟨hne, raw, hraw, rfl⟩) hmark
  · intro h text htext
    obtain ⟨-, raw, hraw, rfl⟩ := mem_texts_clean_iff.1 htext
    rw [commentMark_infix_cleanLine_iff]
    exact h raw hraw

end Source

namespace Assembly
open Program Source

/-- Only the texts of the lines decide what a program comes to. -/
theorem agree_of_texts {lines lines' : List SourceLine} (h : texts lines = texts lines') (strict : Bool)
    (file : Text) : Agree (ofSourceLines strict file lines) (ofSourceLines strict file lines') := by
  cases hbind : Labels.bind strict (texts lines) with
  | ok labels => exact agree_of_bind hbind (h ▸ hbind) (congrArg Labels.instructions h) file
  | error d =>
    have hbind' : Labels.bind strict (texts lines') = .error d := h ▸ hbind
    unfold ofSourceLines
    simp only [hbind, hbind']
    exact .error ((Failure.diagnostic d).same_locate file lines lines')

/-- What cleaning leaves has neither empty lines nor white space, but a line of it contains a comment mark if in front
of the comment of its physical line white space stands between two slashes. Where no line does, cleaning the text that
is left changes nothing, and assembling it comes to the same, as assembling its lines always does. Any other text is
changed by cleaning it once more: each line is cut off at its mark. After that it stays. -/
theorem recleaning_changes_iff_splitsMark (source : Text) :
    (∀ raw ∈ Text.lines source, ¬commentMark <:+: code raw ∧
      (code raw = raw ∨ ∃ comment, raw = code raw ++ (commentMark ++ comment))) ∧
    (∀ text ∈ texts (clean source), text ≠ [] ∧ (∀ c ∈ text, Text.isBlank c = false) ∧
      ∃ raw ∈ Text.lines source, cleanLine raw = text ∧ (commentMark <:+: text ↔ SplitsMark (code raw))) ∧
    texts (clean (cleanText source)) = ((texts (clean source)).map code).filter (· ≠ []) ∧
    (texts (clean (cleanText source)) = texts (clean source) ↔
      ∀ raw ∈ Text.lines source, ¬SplitsMark (code raw)) ∧
    texts (clean (cleanText (cleanText source))) = texts (clean (cleanText source)) ∧
    ∀ (strict : Bool) (file : Text),
      Agree (ofLines strict file (texts (clean source))) (ofSource strict file source) ∧
      ((∀ raw ∈ Text.lines source, ¬SplitsMark (code raw)) →
        Agree (ofSource strict file (cleanText source)) (ofSource strict file source)) := by
  have hstays : texts (clean (cleanText source)) = texts (clean source) ↔
      ∀ raw ∈ Text.lines source, ¬SplitsMark (code raw) :=
    texts_clean_cleanText_eq_iff.trans forall_not_commentMark_iff
  refine ⟨fun raw _ => ⟨not_commentMark_infix_code raw, code_cases raw⟩, ?_, texts_clean_cleanText source,
    hstays, ?_, fun strict file => ⟨?_, fun hnone => ?_⟩⟩
  · intro text htext
    obtain ⟨hne, hblank⟩ := not_blank_of_mem_texts_clean htext
    obtain ⟨-, raw, hraw, rfl⟩ := mem_texts_clean_iff.1 htext
    exact ⟨hne, hblank, raw, hraw, rfl, commentMark_infix_cleanLine_iff raw⟩
  · rw [texts_clean_cleanText_eq_iff]
    exact fun text htext => not_commentMark_infix_of_mem_recleaned htext
  · exact agree_of_texts (map_text_ofLines _) strict file
  · exact agree_of_texts (hstays.2 hnone) strict file

/-- White space between two slashes, behind the mark of the comment. -/
def spacedComment : Text := ['D', ' ', '=', '1', '/', '/', '/', ' ', '/']

/-- White space between two slashes, in front of any comment. -/
def spacedSlashes : Text := ['@', '1', '/', ' ', '/', 'x']

theorem recleaning_of_spacedSlashes :
    Agree (ofSource true [] (cleanText spacedComment)) (ofSource true [] spacedComment) ∧
    texts (clean spacedSlashes) = [['@', '1', '/', '/', 'x']] ∧
    texts (clean (cleanText spacedSlashes)) = [['@', '1']] ∧
    (ofSource true [] spacedSlashes).toOption.map Assembly.words =
      some [Word.ofBits (BitVec.ofNat Word.width 16)] ∧
    (ofSource true [] (cleanText spacedSlashes)).toOption.map Assembly.words =
      some [Word.ofBits (BitVec.ofNat Word.width 1)] := by
  obtain ⟨-, hmarks, -, -, -, hagree⟩ := recleaning_changes_iff_splitsMark spacedComment
  obtain ⟨-, -, hagain, -, -, -⟩ := recleaning_changes_iff_splitsMark spacedSlashes
  have hkept : texts (clean spacedComment) = [['D', '=', '1']] := by decide +kernel
  have hlines : Text.lines spacedComment = [spacedComment] := by decide +kernel
  have hnone : ∀ raw ∈ Text.lines spacedComment, ¬SplitsMark (code raw) := by
    obtain ⟨-, -, raw, hraw, -, hmark⟩ := hmarks ['D', '=', '1'] (by simp [hkept])
    rw [hlines, List.mem_singleton] at hraw
    rw [hlines, List.forall_mem_singleton, ← hraw, ← hmark]
    decide
  have hslashes : texts (clean spacedSlashes) = [['@', '1', '/', '/', 'x']] := by decide +kernel
  refine ⟨(hagree true []).2 hnone, hslashes, ?_, by decide +kernel, by decide +kernel⟩
  rw [hagain, hslashes]
  decide

end Assembly

end HackAssembler
