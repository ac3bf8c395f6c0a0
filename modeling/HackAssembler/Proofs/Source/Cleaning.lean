import Mathlib.Tactic.Common
import HackAssembler.Output.Words
import HackAssembler.Proofs.Text.Lines
import HackAssembler.Source

/-! Cleaning: the physical line behind each line that is left, and text that is left as it stands. -/
namespace HackAssembler

namespace Source

/-- What cleaning leaves of lines that stand behind `k` others. -/
def cleanFrom (k : Nat) (raws : List Text) : List SourceLine :=
  (raws.zipIdx k).filterMap fun (raw, index) => sourceLine? raw index

theorem clean_eq_cleanFrom (source : Text) : clean source = cleanFrom 0 (Text.lines source) := rfl

theorem cleanFrom_cons_of_empty {raw : Text} (h : cleanLine raw = []) (k : Nat) (rest : List Text) :
    cleanFrom k (raw :: rest) = cleanFrom (k + 1) rest := by
  simp [cleanFrom, sourceLine?, h]

theorem cleanFrom_cons {raw : Text} (h : cleanLine raw ≠ []) (k : Nat) (rest : List Text) :
    cleanFrom k (raw :: rest) =
      ⟨cleanLine raw, (k : Int) + 1, Text.trimRight raw⟩ :: cleanFrom (k + 1) rest := by
  simp [cleanFrom, sourceLine?, h]

/-! ### Places -/

/-- A physical line that leaves a line of the wanted kind. -/
def leaves (wanted : Text → Bool) (raw : Text) : Bool :=
  !(cleanLine raw).isEmpty && wanted (cleanLine raw)

/-- How many of the first `n` physical lines leave a line of the wanted kind. -/
def countBefore (wanted : Text → Bool) (source : Text) (n : Nat) : Nat :=
  ((Text.lines source).take n).countP (leaves wanted)

private theorem filter_cleanFrom_cons_of_not_leaves {wanted : Text → Bool} {raw : Text}
    (h : leaves wanted raw = false) (k : Nat) (rest : List Text) :
    ((cleanFrom k (raw :: rest)).filter fun l => wanted l.text) =
      (cleanFrom (k + 1) rest).filter fun l => wanted l.text := by
  by_cases hempty : cleanLine raw = []
  · rw [cleanFrom_cons_of_empty hempty]
  · have hunwanted : wanted (cleanLine raw) = false := by simpa [leaves, hempty] using h
    rw [cleanFrom_cons hempty, List.filter_cons_of_neg (by simp [hunwanted])]

private theorem filter_cleanFrom_cons_of_leaves {wanted : Text → Bool} {raw : Text}
    (h : leaves wanted raw = true) (k : Nat) (rest : List Text) :
    ((cleanFrom k (raw :: rest)).filter fun l => wanted l.text) =
      ⟨cleanLine raw, (k : Int) + 1, Text.trimRight raw⟩ ::
        (cleanFrom (k + 1) rest).filter fun l => wanted l.text := by
  rw [leaves, Bool.and_eq_true_iff] at h
  obtain ⟨hkept, hwanted⟩ := h
  rw [cleanFrom_cons (by simpa using hkept), List.filter_cons_of_pos (by simpa using hwanted)]

private theorem getElem?_filter_cleanFrom {wanted : Text → Bool} {raws : List Text} {k i : Nat}
    {line : SourceLine} (h : ((cleanFrom k raws).filter fun l => wanted l.text)[i]? = some line) :
    ∃ (n : Nat) (raw : Text), raws[n]? = some raw ∧
      line = ⟨cleanLine raw, ((k + n : Nat) : Int) + 1, Text.trimRight raw⟩ ∧
      (raws.take n).countP (leaves wanted) = i := by
  induction raws generalizing k i with
  | nil => cases h
  | cons raw rest ih =>
    cases hleaves : leaves wanted raw with
    | false =>
      rw [filter_cleanFrom_cons_of_not_leaves hleaves] at h
      obtain ⟨n, found, hfound, hline, hcount⟩ := ih h
      refine ⟨n + 1, found, hfound, ?_, ?_⟩
      · rw [hline, Nat.add_right_comm, Nat.add_assoc]
      · rw [List.take_succ_cons, List.countP_cons_of_neg (by simp [hleaves]), hcount]
    | true =>
      rw [filter_cleanFrom_cons_of_leaves hleaves] at h
      cases i with
      | zero =>
        obtain rfl := Option.some.inj h
        exact ⟨0, raw, rfl, rfl, rfl⟩
      | succ i =>
        obtain ⟨n, found, hfound, hline, hcount⟩ := ih h
        refine ⟨n + 1, found, hfound, ?_, ?_⟩
        · rw [hline, Nat.add_right_comm, Nat.add_assoc]
        · rw [List.take_succ_cons, List.countP_cons_of_pos hleaves, hcount]

/-- The place of a line among those of its kind tells which physical line it comes from. -/
theorem getElem?_filter_clean {wanted : Text → Bool} {source : Text} {i : Nat} {line : SourceLine}
    (h : ((clean source).filter fun l => wanted l.text)[i]? = some line) :
    ∃ (n : Nat) (raw : Text), (Text.lines source)[n]? = some raw ∧
      line = ⟨cleanLine raw, (n : Int) + 1, Text.trimRight raw⟩ ∧ countBefore wanted source n = i := by
  obtain ⟨n, raw, hraw, hline, hcount⟩ := getElem?_filter_cleanFrom h
  rw [Nat.zero_add] at hline
  exact ⟨n, raw, hraw, hline, hcount⟩

/-! ### Text that stays -/

/-- Cleaning leaves nothing out of `t`: it has neither white space nor a slash. -/
def IsPlain (t : Text) : Prop := ∀ c ∈ t, Text.isBlank c = false ∧ c ≠ '/'

instance (t : Text) : Decidable (IsPlain t) := List.decidableBAll _ t

theorem code_of_isPlain {t : Text} (h : IsPlain t) : code t = t := by
  induction t with
  | nil => rfl
  | cons c t ih =>
    have hc : c ≠ '/' := (h c List.mem_cons_self).2
    rw [code_cons fun hslash => hc hslash.1, ih fun d hd => h d (List.mem_cons_of_mem c hd)]

theorem cleanLine_of_isPlain {t : Text} (h : IsPlain t) : cleanLine t = t := by
  rw [cleanLine, code_of_isPlain h, Text.dropBlanks, List.filter_eq_self]
  intro c hc
  rw [(h c hc).1]
  rfl

end Source

namespace Text

theorem trimRight_eq_self {t : Text} (h : ∀ c ∈ t, isBlank c = false) : trimRight t = t := by
  have hreverse : t.reverse.dropWhile isBlank = t.reverse := by
    cases hr : t.reverse with
    | nil => rfl
    | cons c rest =>
      have hc : c ∈ t := List.mem_reverse.1 (hr ▸ List.mem_cons_self)
      rw [List.dropWhile_cons_of_neg (by simp [h c hc])]
  rw [trimRight, hreverse, List.reverse_reverse]

end Text

namespace Source

theorem IsPlain.isUnbroken {t : Text} (h : IsPlain t) : Text.IsUnbroken t :=
  Text.isUnbroken_of_not_blank fun c hc => (h c hc).1

theorem isPlain_of_isDigit {t : Text} (h : ∀ c ∈ t, c.isDigit = true) : IsPlain t := by
  intro c hc
  refine ⟨Text.isBlank_eq_false_of_isDigit (h c hc), ?_⟩
  rintro rfl
  exact absurd (h '/' hc) (by decide)

/-- A single plain line is all that is left of itself. -/
theorem clean_of_isPlain {t : Text} (hne : t ≠ []) (h : IsPlain t) : clean t = [⟨t, 1, t⟩] := by
  have hclean := cleanLine_of_isPlain h
  rw [clean_eq_cleanFrom, Text.lines_eq_singleton hne h.isUnbroken, cleanFrom_cons (by rwa [hclean]),
    hclean, Text.trimRight_eq_self fun c hc => (h c hc).1]
  rfl

theorem map_text_ofLines (lines : List Text) : (ofLines lines).map SourceLine.text = lines := by
  rw [ofLines, List.map_map]
  exact List.zipIdx_map_fst 0 lines

/-- Plain lines that are written one below the other are left as they stand. -/
theorem map_text_clean_terminated {lines : List Text} (h : ∀ line ∈ lines, line ≠ [] ∧ IsPlain line) :
    (clean (Output.terminated lines)).map SourceLine.text = lines := by
  have hfrom : ∀ k, (cleanFrom k (Text.lines (Output.terminated lines))).map SourceLine.text = lines := by
    induction lines with
    | nil => exact fun _ => rfl
    | cons line rest ih =>
      intro k
      obtain ⟨hne, hplain⟩ := h line List.mem_cons_self
      have hclean := cleanLine_of_isPlain hplain
      rw [Output.terminated_cons, Text.lines_append_feed hplain.isUnbroken,
        cleanFrom_cons (by rwa [hclean]), List.map_cons, hclean,
        ih fun next hnext => h next (List.mem_cons_of_mem line hnext)]
  exact hfrom 0

end Source

end HackAssembler
