/-! Text, and the right fold with one character of lookahead that line breaking and comments need. -/
namespace HackAssembler

/-- Source text, names and messages are sequences of characters, so that lengths, padding and order all
count characters. -/
abbrev Text := List Char

namespace Text

/-- Wording of the program's own. It stays folded in proofs that do not look inside it. -/
@[irreducible] def ofString (s : String) : Text := s.toList

instance : Coe String Text := ⟨ofString⟩

theorem ofString_eq (s : String) : ofString s = s.toList := by
  simp [ofString]

/-- A right fold whose step also sees the character that follows, if there is one. -/
def foldrPeek {β : Type} (step : Char → Option Char → β → β) (last : β) (t : Text) : β :=
  (t.foldr (fun c (seen : Option Char × β) => (some c, step c seen.1 seen.2)) (none, last)).2

variable {β : Type} (step : Char → Option Char → β → β) (last : β)

@[simp] theorem foldrPeek_nil : foldrPeek step last [] = last := rfl

private theorem foldr_peek_fst (t : Text) :
    (t.foldr (fun c (seen : Option Char × β) => (some c, step c seen.1 seen.2)) (none, last)).1 =
      t.head? := by
  cases t <;> rfl

@[simp] theorem foldrPeek_cons (c : Char) (t : Text) :
    foldrPeek step last (c :: t) = step c t.head? (foldrPeek step last t) := by
  simp only [foldrPeek, List.foldr_cons, foldr_peek_fst]

/-- The characters of `t` in front of the first `c`, all of them if there is none. -/
def before (c : Char) (t : Text) : Text := t.takeWhile (· ≠ c)

/-- The characters of `t` behind the first `c`, none if there is no `c`. -/
def after (c : Char) (t : Text) : Text := (t.dropWhile (· ≠ c)).drop 1

@[simp] theorem before_nil (c : Char) : before c [] = [] := rfl

@[simp] theorem after_nil (c : Char) : after c [] = [] := rfl

theorem before_eq_self {c : Char} {t : Text} (h : c ∉ t) : before c t = t := by
  induction t with
  | nil => rfl
  | cons d t ih =>
    have hd : d ≠ c := fun hd => h (hd ▸ List.mem_cons_self)
    simpa [before, hd] using ih fun ht => h (List.mem_cons_of_mem d ht)

/-- Cutting at a character that occurs loses nothing else. -/
theorem before_append_after {c : Char} {t : Text} (h : c ∈ t) : before c t ++ c :: after c t = t := by
  induction t with
  | nil => simp at h
  | cons d t ih =>
    by_cases hd : d = c
    · subst hd
      simp [before, after]
    · have ht : c ∈ t := by
        rcases List.mem_cons.1 h with h | h
        · exact absurd h.symm hd
        · exact h
      simpa [before, after, hd] using ih ht

end Text

end HackAssembler
