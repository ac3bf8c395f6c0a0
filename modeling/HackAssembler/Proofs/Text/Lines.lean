import Mathlib.Data.List.Induction
import Mathlib.Tactic.Common
import HackAssembler.Text.Blank
import HackAssembler.Text.Lines

/-! Lines of text that is put together. Where two texts meet their lines stay apart, unless a line is open there or
one break has a part in each of them. In which way a break is written does not matter. -/
namespace HackAssembler.Text

theorem isBlank_of_isBreak {c : Char} (h : isBreak c = true) : isBlank c = true := by
  simp only [isBreak, isBlank, Bool.or_eq_true, Bool.and_eq_true, decide_eq_true_eq, beq_iff_eq] at h ⊢
  omega

theorem isBreak_eq_false {c : Char} (h : isBlank c = false) : isBreak c = false := by
  by_contra hbreak
  rw [isBlank_of_isBreak (by simpa using hbreak)] at h
  cases h

/-! ### Single lines -/

/-- The text stays on one line. -/
def IsUnbroken (t : Text) : Prop := ∀ c ∈ t, isBreak c = false

instance (t : Text) : Decidable (IsUnbroken t) := List.decidableBAll _ t

theorem isUnbroken_append {s t : Text} : IsUnbroken (s ++ t) ↔ IsUnbroken s ∧ IsUnbroken t :=
  List.forall_mem_append

theorem isUnbroken_of_not_blank {t : Text} (h : ∀ c ∈ t, isBlank c = false) : IsUnbroken t :=
  fun c hc => isBreak_eq_false (h c hc)

theorem isUnbroken_spaces (n : Nat) : IsUnbroken (List.replicate n ' ') := by
  intro c hc
  rw [List.eq_of_mem_replicate hc]
  decide

theorem IsUnbroken.leftpad {t : Text} (h : IsUnbroken t) (width : Nat) : IsUnbroken (t.leftpad width ' ') :=
  isUnbroken_append.2 ⟨isUnbroken_spaces _, h⟩

theorem IsUnbroken.rightpad {t : Text} (h : IsUnbroken t) (width : Nat) : IsUnbroken (t.rightpad width ' ') :=
  isUnbroken_append.2 ⟨h, isUnbroken_spaces _⟩

theorem lines_eq_singleton {t : Text} (hne : t ≠ []) (h : IsUnbroken t) : lines t = [t] := by
  induction t with
  | nil => exact absurd rfl hne
  | cons c t ih =>
    rw [lines_cons (h c List.mem_cons_self)]
    by_cases ht : t = []
    · rw [ht, lines_nil]
    · rw [ih ht fun d hd => h d (List.mem_cons_of_mem c hd)]

/-- A break that opens a text ends an empty line. -/
theorem lines_cons_of_isBreak {c : Char} (hc : isBreak c = true) (t : Text) :
    lines (c :: t) = [] :: (lines (c :: t)).tail := by
  by_cases hcrlf : c = '\r' ∧ t.head? = some '\n'
  · obtain ⟨rfl, hhead⟩ := hcrlf
    obtain ⟨t, rfl⟩ := List.head?_eq_some_iff.1 hhead
    rw [lines_crlf, lines_cons_break (by decide) (by simp), List.tail_cons]
  · rw [lines_cons_break hc hcrlf, List.tail_cons]

/-- Text in front of a break is the rest of the line that the break ends. -/
theorem lines_append_break {t : Text} (h : IsUnbroken t) {c : Char} (hc : isBreak c = true)
    (rest : Text) : lines (t ++ c :: rest) = t :: (lines (c :: rest)).tail := by
  induction t with
  | nil => exact lines_cons_of_isBreak hc rest
  | cons d t ih =>
    rw [List.cons_append, lines_cons (h d List.mem_cons_self), ih fun e he => h e (List.mem_cons_of_mem d he)]

/-- A line feed closes a line. -/
theorem lines_append_feed {t : Text} (h : IsUnbroken t) (rest : Text) :
    lines (t ++ '\n' :: rest) = t :: lines rest := by
  rw [lines_append_break h (by decide), lines_cons_break (by decide) (by simp), List.tail_cons]

/-- Lines that are joined by line feeds come apart again. Only the last one must not be empty. -/
theorem lines_intercalate_of_getLast? {found : List Text} (h : ∀ t ∈ found, IsUnbroken t)
    (hlast : ∀ t ∈ found.getLast?, t ≠ []) : lines (List.intercalate ['\n'] found) = found := by
  induction found with
  | nil => rfl
  | cons t rest ih =>
    have hbreak := h t List.mem_cons_self
    cases rest with
    | nil => rw [List.intercalate_singleton, lines_eq_singleton (hlast t rfl) hbreak]
    | cons next rest =>
      have hrest := ih (fun next hnext => h next (List.mem_cons_of_mem t hnext)) hlast
      rw [List.intercalate_cons_cons, List.append_assoc, List.singleton_append,
        lines_append_feed hbreak, hrest]

theorem lines_intercalate {found : List Text} (h : ∀ t ∈ found, t ≠ [] ∧ IsUnbroken t) :
    lines (List.intercalate ['\n'] found) = found :=
  lines_intercalate_of_getLast? (fun t ht => (h t ht).2) fun t ht => (h t (List.mem_of_getLast? ht)).1

/-- There are no breaks in a line. -/
theorem isUnbroken_of_mem_lines {t line : Text} (h : line ∈ lines t) : IsUnbroken line := by
  induction t generalizing line with
  | nil => cases h
  | cons c t ih =>
    cases hc : isBreak c with
    | true =>
      by_cases hcrlf : c = '\r' ∧ t.head? = some '\n'
      · obtain ⟨rfl, hhead⟩ := hcrlf
        obtain ⟨rest, rfl⟩ := List.head?_eq_some_iff.1 hhead
        rw [lines_crlf] at h
        exact ih h
      · rw [lines_cons_break hc hcrlf] at h
        rcases List.mem_cons.1 h with rfl | h
        · nofun
        · exact ih h
    | false =>
      rw [lines_cons hc] at h
      cases hlines : lines t with
      | nil =>
        rw [hlines, List.mem_singleton] at h
        rw [h]
        exact List.forall_mem_singleton.2 hc
      | cons first rest =>
        rw [hlines] at h ih
        rcases List.mem_cons.1 h with rfl | h
        · exact List.forall_mem_cons.2 ⟨hc, ih List.mem_cons_self⟩
        · exact ih (List.mem_cons_of_mem first h)

theorem lines_cons_ne_nil (c : Char) (t : Text) : lines (c :: t) ≠ [] := by
  cases hc : isBreak c with
  | true =>
    rw [lines_cons_of_isBreak hc]
    exact List.cons_ne_nil _ _
  | false =>
    rw [lines_cons hc]
    split <;> exact List.cons_ne_nil _ _

/-! ### Texts that meet -/

/-- No line is open at the end of the text. -/
def IsClosed (t : Text) : Prop := ∀ c ∈ t.getLast?, isBreak c = true

/-- Where the texts meet, a carriage return and a line feed make one break. -/
def Fuse (front back : Text) : Prop := front.getLast? = some '\r' ∧ back.head? = some '\n'

instance (front back : Text) : Decidable (Fuse front back) := inferInstanceAs (Decidable (_ ∧ _))

/-- What begins with the rest of a line fuses with nothing in front of it. -/
theorem not_fuse_append {line : Text} (hne : line ≠ []) (hline : IsUnbroken line)
    (front rest : Text) : ¬Fuse front (line ++ rest) := by
  rintro ⟨-, hfeed⟩
  cases line with
  | nil => exact hne rfl
  | cons c line =>
    have hc : isBreak c = false := hline c List.mem_cons_self
    rw [Option.some.inj hfeed] at hc
    cases hc

/-- Texts that meet between two lines have the lines of both. -/
theorem lines_append {front back : Text} (hclosed : IsClosed front) (hfuse : ¬Fuse front back) :
    lines (front ++ back) = lines front ++ lines back := by
  -- On the first text. Its last character is a break, and no other one looks beyond it.
  induction front with
  | nil => rfl
  | cons c front ih =>
    cases front with
    | nil =>
      have hbreak : isBreak c = true := hclosed c rfl
      have hapart : ¬(c = '\r' ∧ back.head? = some '\n') := fun h => hfuse ⟨congrArg some h.1, h.2⟩
      rw [List.singleton_append, lines_cons_break hbreak hapart, lines_cons_break hbreak (by simp)]
      rfl
    | cons d front =>
      have hrest : lines (d :: front ++ back) = lines (d :: front) ++ lines back := ih hclosed hfuse
      cases hbreak : isBreak c with
      | true =>
        by_cases hcrlf : c = '\r' ∧ d = '\n'
        · obtain ⟨rfl, rfl⟩ := hcrlf
          rw [lines_crlf, ← hrest]
          exact lines_crlf _
        · have hapart : ¬(c = '\r' ∧ some d = some '\n') := by simpa using hcrlf
          have hfront : lines (c :: d :: front) = [] :: lines (d :: front) := lines_cons_break hbreak hapart
          have hwhole : lines (c :: (d :: front ++ back)) = [] :: lines (d :: front ++ back) :=
            lines_cons_break hbreak hapart
          rw [List.cons_append, hwhole, hfront, hrest, List.cons_append]
      | false =>
        rw [List.cons_append, lines_cons hbreak, lines_cons hbreak, hrest]
        cases hlines : lines (d :: front) with
        | nil => exact absurd hlines (lines_cons_ne_nil d front)
        | cons line more => rfl

/-- Behind its last break a text has an open line, which may be empty. -/
theorem exists_open_line (t : Text) :
    ∃ closed line, t = closed ++ line ∧ IsClosed closed ∧ ∀ c ∈ line, isBreak c = false := by
  induction t using List.reverseRecOn with
  | nil => exact ⟨[], [], rfl, nofun, nofun⟩
  | append_singleton t c ih =>
    cases hc : isBreak c with
    | true =>
      refine ⟨t ++ [c], [], by simp, fun d hd => ?_, nofun⟩
      rw [List.getLast?_concat, Option.mem_some_iff] at hd
      rwa [← hd]
    | false =>
      obtain ⟨closed, line, rfl, hclosed, hline⟩ := ih
      refine ⟨closed, line ++ [c], List.append_assoc .., hclosed, fun d hd => ?_⟩
      rcases List.mem_append.1 hd with hd | hd
      · exact hline d hd
      · rwa [List.mem_singleton.1 hd]

/-- A line feed behind a carriage return ends no further line. -/
theorem lines_concat_crlf (t : Text) : lines (t ++ ['\r', '\n']) = lines (t ++ ['\r']) := by
  obtain ⟨closed, line, rfl, hclosed, hline⟩ := exists_open_line t
  have hfuse : ∀ rest, ¬Fuse closed (line ++ '\r' :: rest) := by
    intro rest
    by_cases hempty : line = []
    · rw [hempty]
      exact fun hfuse => absurd hfuse.2 (by simp)
    · exact not_fuse_append hempty hline closed _
  rw [List.append_assoc, List.append_assoc, lines_append hclosed (hfuse _), lines_append hclosed (hfuse _),
    lines_append_break hline (by decide), lines_append_break hline (by decide), lines_crlf]
  rfl

/-- A final line feed ends a line that is open, or an empty one if none is. -/
theorem lines_concat_feed (t : Text) :
    lines (t ++ ['\n']) = lines t ∨ lines (t ++ ['\n']) = lines t ++ [[]] := by
  by_cases hreturn : t.getLast? = some '\r'
  · obtain ⟨front, rfl⟩ := List.getLast?_eq_some_iff.1 hreturn
    rw [List.append_assoc]
    exact .inl (lines_concat_crlf front)
  · obtain ⟨closed, line, rfl, hclosed, hline⟩ := exists_open_line t
    by_cases hempty : line = []
    · subst hempty
      rw [List.append_nil] at hreturn ⊢
      exact .inr (lines_append hclosed fun hfuse => hreturn hfuse.1)
    · left
      have hclosedLine : lines (closed ++ line) = lines closed ++ lines line := by
        rw [lines_append hclosed]
        simpa using not_fuse_append hempty hline closed []
      rw [List.append_assoc, lines_append hclosed (not_fuse_append hempty hline closed _), hclosedLine,
        lines_append_feed hline, lines_eq_singleton hempty hline, lines_nil]

/-- In front of its first break a text has the rest of a line, which may be empty. -/
theorem exists_first_line (t : Text) :
    ∃ line rest, t = line ++ rest ∧ (∀ c ∈ line, isBreak c = false) ∧ ∀ c ∈ rest.head?, isBreak c = true := by
  induction t with
  | nil => exact ⟨[], [], rfl, nofun, nofun⟩
  | cons c t ih =>
    cases hc : isBreak c with
    | true =>
      refine ⟨[], c :: t, rfl, nofun, fun d hd => ?_⟩
      rwa [← Option.mem_some_iff.1 hd]
    | false =>
      obtain ⟨line, rest, rfl, hline, hrest⟩ := ih
      exact ⟨c :: line, rest, rfl, List.forall_mem_cons.2 ⟨hc, hline⟩, hrest⟩

/-! ### Breaks that are written in another way -/

/-- Text with unified breaks has the lines that it had. -/
theorem lines_unifyBreaks (t : Text) : lines (unifyBreaks t) = lines t := by
  induction t with
  | nil => rfl
  | cons c t ih =>
    by_cases hreturn : c = '\r'
    · subst hreturn
      by_cases hhead : t.head? = some '\n'
      · obtain ⟨rest, rfl⟩ := List.head?_eq_some_iff.1 hhead
        rw [unifyBreaks_crlf, ih, lines_crlf]
      · rw [unifyBreaks_cr hhead, lines_cons_break (by decide) (by simp), ih,
          lines_cons_break (by decide) fun hcrlf => hhead hcrlf.2]
    · rw [unifyBreaks_cons hreturn]
      cases hbreak : isBreak c with
      | true =>
        rw [lines_cons_break hbreak fun hcrlf => hreturn hcrlf.1, ih,
          lines_cons_break hbreak fun hcrlf => hreturn hcrlf.1]
      | false => rw [lines_cons hbreak, lines_cons hbreak, ih]

/-- The text with every line feed written as `ending`. -/
def writeBreaks (ending : Text) (t : Text) : Text := t.flatMap fun c => if c = '\n' then ending else [c]

theorem writeBreaks_feed (ending t : Text) :
    writeBreaks ending ('\n' :: t) = ending ++ writeBreaks ending t := rfl

theorem writeBreaks_cons {c : Char} (hc : c ≠ '\n') (ending t : Text) :
    writeBreaks ending (c :: t) = c :: writeBreaks ending t := by
  simp [writeBreaks, hc]

theorem feed_not_mem_writeBreaks (t : Text) : '\n' ∉ writeBreaks ['\r'] t := by
  intro h
  obtain ⟨c, -, hc⟩ := List.mem_flatMap.1 h
  split at hc
  · simp at hc
  · next hne => exact hne (List.mem_singleton.1 hc).symm

/-- Unifying breaks undoes the writing of line feeds as carriage returns, alone or with a line feed. -/
theorem unifyBreaks_writeBreaks {ending t : Text} (hending : ending = ['\r'] ∨ ending = ['\r', '\n'])
    (h : '\r' ∉ t) : unifyBreaks (writeBreaks ending t) = t := by
  induction t with
  | nil => rfl
  | cons c t ih =>
    have hrest := ih fun ht => h (List.mem_cons_of_mem c ht)
    by_cases hfeed : c = '\n'
    · rw [hfeed, writeBreaks_feed]
      rcases hending with rfl | rfl
      · have hhead : (writeBreaks ['\r'] t).head? ≠ some '\n' :=
          fun hhead => feed_not_mem_writeBreaks t (List.mem_of_mem_head? hhead)
        rw [List.singleton_append, unifyBreaks_cr hhead, hrest]
      · rw [List.cons_append, List.singleton_append, unifyBreaks_crlf,
          unifyBreaks_cons (by decide), hrest]
    · have hreturn : c ≠ '\r' := fun hc => h (hc ▸ List.mem_cons_self)
      rw [writeBreaks_cons hfeed, unifyBreaks_cons hreturn, hrest]

end HackAssembler.Text
