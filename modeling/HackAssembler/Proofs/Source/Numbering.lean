import HackAssembler.Proofs.Source.Cleaning

/-! Line numbers. Cleaning goes line by line, so that a text put together from two is cleaned part by part, where the
lines of the second one count on. Every physical line that says something is found under its own number and nowhere
else. -/
namespace HackAssembler

/-- The same line behind `k` more lines. -/
def SourceLine.moved (k : Nat) (l : SourceLine) : SourceLine := { l with line := l.line + k }

namespace Source

/-- In front of its comment the line has more than white space. -/
def SaysSomething (raw : Text) : Prop := ∃ c ∈ code raw, Text.isBlank c = false

instance (raw : Text) : Decidable (SaysSomething raw) := List.decidableBEx _ (code raw)

theorem cleanLine_ne_nil_iff {raw : Text} : cleanLine raw ≠ [] ↔ SaysSomething raw := by
  rw [cleanLine, Text.dropBlanks, Ne, List.filter_eq_nil_iff, SaysSomething]
  simp

/-! ### Lines behind other lines -/

theorem cleanFrom_append (k : Nat) (front back : List Text) :
    cleanFrom k (front ++ back) = cleanFrom k front ++ cleanFrom (k + front.length) back := by
  rw [cleanFrom, List.zipIdx_append, List.filterMap_append, Nat.add_comm]
  rfl

theorem cleanFrom_add (n k : Nat) (raws : List Text) :
    cleanFrom (n + k) raws = (cleanFrom n raws).map (.moved k) := by
  induction raws generalizing n with
  | nil => rfl
  | cons raw rest ih =>
    have hrest := ih (n + 1)
    rw [Nat.add_right_comm] at hrest
    by_cases hempty : cleanLine raw = []
    · rw [cleanFrom_cons_of_empty hempty, cleanFrom_cons_of_empty hempty, hrest]
    · have hnumber : ((n + k : Nat) : Int) + 1 = (n : Int) + 1 + k := by omega
      rw [cleanFrom_cons hempty, cleanFrom_cons hempty, hrest, List.map_cons, hnumber]
      rfl

/-- The lines of a text that begins with other lines keep what they say and count on. -/
theorem clean_of_lines {source back : Text} {front : List Text}
    (h : Text.lines source = front ++ Text.lines back) :
    clean source = cleanFrom 0 front ++ (clean back).map (.moved front.length) := by
  rw [clean_eq_cleanFrom, h, cleanFrom_append, cleanFrom_add, ← clean_eq_cleanFrom]

theorem cleanFrom_concat_nil (k : Nat) (raws : List Text) : cleanFrom k (raws ++ [[]]) = cleanFrom k raws := by
  have hnil : cleanFrom (k + raws.length) [[]] = [] := cleanFrom_cons_of_empty rfl _ []
  rw [cleanFrom_append, hnil, List.append_nil]

theorem clean_concat_feed (source : Text) : clean (source ++ ['\n']) = clean source := by
  rw [clean_eq_cleanFrom, clean_eq_cleanFrom]
  rcases Text.lines_concat_feed source with hlines | hlines
  · rw [hlines]
  · rw [hlines, cleanFrom_concat_nil]

theorem clean_append_feed (front back : Text) :
    clean (front ++ '\n' :: back) =
      clean front ++ (clean back).map (.moved (Text.lines (front ++ ['\n'])).length) := by
  have hclosed : Text.IsClosed (front ++ ['\n']) := by simp [Text.IsClosed, Text.isBreak]
  have hfuse : ¬Text.Fuse (front ++ ['\n']) back := by simp [Text.Fuse]
  have hlines := Text.lines_append hclosed hfuse
  rw [List.append_assoc, List.singleton_append] at hlines
  rw [clean_of_lines hlines, ← clean_eq_cleanFrom, clean_concat_feed]

/-! ### Numbers -/

theorem sourceLine?_eq_some_iff {raw : Text} {index : Nat} {l : SourceLine} :
    sourceLine? raw index = some l ↔
      SaysSomething raw ∧ l = ⟨cleanLine raw, (index : Int) + 1, Text.trimRight raw⟩ := by
  rw [← cleanLine_ne_nil_iff, sourceLine?]
  by_cases hempty : cleanLine raw = []
  · simp [hempty]
  · simp only [List.isEmpty_iff, hempty, if_false, ne_eq, not_false_eq_true, true_and, Option.some.injEq]
    exact eq_comm

theorem mem_cleanFrom_iff {k : Nat} {raws : List Text} {l : SourceLine} :
    l ∈ cleanFrom k raws ↔ ∃ (n : Nat) (raw : Text), raws[n]? = some raw ∧ SaysSomething raw ∧
      l = ⟨cleanLine raw, ((k + n : Nat) : Int) + 1, Text.trimRight raw⟩ := by
  rw [cleanFrom, List.mem_filterMap]
  constructor
  · rintro ⟨⟨raw, index⟩, hmem, hline⟩
    obtain ⟨hle, hraw⟩ := List.mem_zipIdx_iff_le_and_getElem?_sub.1 hmem
    obtain ⟨n, rfl⟩ := Nat.exists_eq_add_of_le hle
    rw [Nat.add_sub_cancel_left] at hraw
    exact ⟨n, raw, hraw, sourceLine?_eq_some_iff.1 hline⟩
  · rintro ⟨n, raw, hraw, hline⟩
    exact ⟨(raw, k + n), List.mk_add_mem_zipIdx_iff_getElem?.2 hraw, sourceLine?_eq_some_iff.2 hline⟩

theorem line_of_mem_cleanFrom {k : Nat} {raws : List Text} {l : SourceLine} (h : l ∈ cleanFrom k raws) :
    (k : Int) < l.line ∧ l.line ≤ k + raws.length := by
  obtain ⟨n, raw, hraw, -, rfl⟩ := mem_cleanFrom_iff.1 h
  have hn : n < raws.length := (List.getElem?_eq_some_iff.1 hraw).1
  constructor
  · show (k : Int) < ((k + n : Nat) : Int) + 1
    omega
  · show ((k + n : Nat) : Int) + 1 ≤ k + raws.length
    omega

theorem pairwise_cleanFrom (k : Nat) (raws : List Text) :
    (cleanFrom k raws).Pairwise fun l m => l.line < m.line := by
  induction raws generalizing k with
  | nil => exact .nil
  | cons raw rest ih =>
    by_cases hempty : cleanLine raw = []
    · rw [cleanFrom_cons_of_empty hempty]
      exact ih (k + 1)
    · rw [cleanFrom_cons hempty, List.pairwise_cons]
      refine ⟨fun m hm => ?_, ih (k + 1)⟩
      have hlow := (line_of_mem_cleanFrom hm).1
      show (k : Int) + 1 < m.line
      omega

theorem filter_line_cleanFrom_of_outside {k n : Nat} {raws : List Text} (h : n < k ∨ k + raws.length ≤ n) :
    (cleanFrom k raws).filter (·.line = (n : Int) + 1) = [] := by
  rw [List.filter_eq_nil_iff]
  intro l hl
  obtain ⟨hlow, hhigh⟩ := line_of_mem_cleanFrom hl
  simp only [decide_eq_true_eq]
  omega

/-- What stands under the number of a physical line: the line without its comment, or nothing. -/
theorem filter_line_clean {source : Text} {n : Nat} {raw : Text} (h : (Text.lines source)[n]? = some raw) :
    (clean source).filter (·.line = (n : Int) + 1) = (sourceLine? raw n).toList := by
  obtain ⟨hn, hraw⟩ := List.getElem?_eq_some_iff.1 h
  have hsplit : Text.lines source = (Text.lines source).take n ++ (raw :: (Text.lines source).drop (n + 1)) := by
    rw [← hraw, List.getElem_cons_drop, List.take_append_drop]
  have hlength : ((Text.lines source).take n).length = n := List.length_take_of_le (Nat.le_of_lt hn)
  have hcons : cleanFrom n (raw :: (Text.lines source).drop (n + 1)) =
      (sourceLine? raw n).toList ++ cleanFrom (n + 1) ((Text.lines source).drop (n + 1)) := by
    simp only [cleanFrom, List.zipIdx_cons, List.filterMap_cons]
    cases sourceLine? raw n <;> rfl
  have hown : (sourceLine? raw n).toList.filter (·.line = (n : Int) + 1) = (sourceLine? raw n).toList := by
    rw [List.filter_eq_self]
    intro l hl
    obtain ⟨-, rfl⟩ := sourceLine?_eq_some_iff.1 (Option.mem_toList.1 hl)
    exact decide_eq_true rfl
  have hfront : (cleanFrom 0 ((Text.lines source).take n)).filter (·.line = (n : Int) + 1) = [] :=
    filter_line_cleanFrom_of_outside (.inr (by omega))
  have hback : (cleanFrom (n + 1) ((Text.lines source).drop (n + 1))).filter (·.line = (n : Int) + 1) = [] :=
    filter_line_cleanFrom_of_outside (.inl (by omega))
  rw [clean_eq_cleanFrom, hsplit, cleanFrom_append, hlength, Nat.zero_add, hcons, List.filter_append,
    List.filter_append, hfront, hback, hown, List.nil_append, List.append_nil]

/-- Two texts that a line feed joins are cleaned one after the other, where the second one counts on behind the lines
of the first. In any text the numbers of the lines that are left go up, a line that is left comes from the physical
line with its number, and every physical line that says something is left once, under its number, and no other. -/
theorem clean_follows_lines :
    (∀ front back : Text, clean (front ++ '\n' :: back) =
      clean front ++ (clean back).map (.moved (Text.lines (front ++ ['\n'])).length)) ∧
    ∀ source : Text,
      (clean source).Pairwise (fun l m => l.line < m.line) ∧
      (∀ l ∈ clean source, ∃ (n : Nat) (raw : Text), (Text.lines source)[n]? = some raw ∧
        l = ⟨cleanLine raw, (n : Int) + 1, Text.trimRight raw⟩) ∧
      ∀ (n : Nat) (raw : Text), (Text.lines source)[n]? = some raw →
        (SaysSomething raw → (clean source).filter (·.line = (n : Int) + 1) =
          [⟨cleanLine raw, (n : Int) + 1, Text.trimRight raw⟩]) ∧
        (¬SaysSomething raw → (clean source).filter (·.line = (n : Int) + 1) = []) := by
  refine ⟨clean_append_feed, fun source => ⟨pairwise_cleanFrom 0 _, fun l hl => ?_, fun n raw hraw => ?_⟩⟩
  · obtain ⟨n, raw, hraw, -, hline⟩ := mem_cleanFrom_iff.1 hl
    rw [Nat.zero_add] at hline
    exact ⟨n, raw, hraw, hline⟩
  · rw [filter_line_clean hraw]
    constructor
    · intro hspeaks
      rw [sourceLine?_eq_some_iff.2 ⟨hspeaks, rfl⟩]
      rfl
    · intro hsilent
      have hnone : sourceLine? raw n = none := by
        rw [Option.eq_none_iff_forall_ne_some]
        exact fun l hl => hsilent (sourceLine?_eq_some_iff.1 hl).1
      rw [hnone]
      rfl

/-- Half a comment mark, and the half of a break that the line feed behind it makes whole. -/
def cutOff : Text := ['@', '1', '/', '\r']

/-- Behind an empty line and a comment stands a jump. -/
def lateJump : Text := ['\n', ' ', '/', '/', '\n', '0', ' ', ';', 'J', 'M', 'P', ' ']

def jumpLine : SourceLine := ⟨['0', ';', 'J', 'M', 'P'], 4, ['0', ' ', ';', 'J', 'M', 'P']⟩

theorem clean_follows_lines_of_cutOff :
    clean (cutOff ++ '\n' :: lateJump) = clean cutOff ++ (clean lateJump).map (.moved 1) ∧
    (Text.lines (cutOff ++ '\n' :: lateJump))[3]? = some ['0', ' ', ';', 'J', 'M', 'P', ' '] ∧
    SaysSomething ['0', ' ', ';', 'J', 'M', 'P', ' '] ∧
    (clean (cutOff ++ '\n' :: lateJump)).filter (·.line = 4) = [jumpLine] ∧
    (Text.lines (cutOff ++ '\n' :: lateJump))[2]? = some [' ', '/', '/'] ∧
    ¬SaysSomething [' ', '/', '/'] ∧
    (clean (cutOff ++ '\n' :: lateJump)).filter (·.line = 3) = [] ∧
    jumpLine ∈ clean (cutOff ++ '\n' :: lateJump) ∧
    ∃ (n : Nat) (raw : Text), (Text.lines (cutOff ++ '\n' :: lateJump))[n]? = some raw ∧
      jumpLine = ⟨cleanLine raw, (n : Int) + 1, Text.trimRight raw⟩ := by
  obtain ⟨hjoined, hnumbers⟩ := clean_follows_lines
  obtain ⟨-, hplace, hunder⟩ := hnumbers (cutOff ++ '\n' :: lateJump)
  have hjump : (Text.lines (cutOff ++ '\n' :: lateJump))[3]? = some ['0', ' ', ';', 'J', 'M', 'P', ' '] := by
    decide +kernel
  have hcomment : (Text.lines (cutOff ++ '\n' :: lateJump))[2]? = some [' ', '/', '/'] := by decide +kernel
  have hspeaks : SaysSomething ['0', ' ', ';', 'J', 'M', 'P', ' '] := by decide
  have hsilent : ¬SaysSomething [' ', '/', '/'] := by decide
  have hone : (Text.lines (cutOff ++ ['\n'])).length = 1 := by decide +kernel
  have hmem : jumpLine ∈ clean (cutOff ++ '\n' :: lateJump) := by decide +kernel
  have hfirst := hjoined cutOff lateJump
  rw [hone] at hfirst
  exact ⟨hfirst, hjump, hspeaks, (hunder 3 _ hjump).1 hspeaks, hcomment, hsilent, (hunder 2 _ hcomment).2 hsilent,
    hmem, hplace jumpLine hmem⟩

end Source

end HackAssembler
