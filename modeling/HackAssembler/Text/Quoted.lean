import HackAssembler.Text.Invisible

/-! Quoted text, in which no character is invisible and the closing quote is the first bare one. -/
namespace HackAssembler.Text

/-- Lower-case hexadecimal in a fixed width. -/
private def hexadecimal (width n : Nat) : Text := (Nat.toDigits 16 n).leftpad width '0'

/-- One character between the quotes `mark`. -/
private def escaped (mark c : Char) : Text :=
  if c = mark ∨ c = '\\' then ['\\', c]
  else if c = '\n' then ['\\', 'n']
  else if c = '\r' then ['\\', 'r']
  else if c = '\t' then ['\\', 't']
  else if isInvisible c then
    if c.toNat < 0x100 then '\\' :: 'x' :: hexadecimal 2 c.toNat
    else if c.toNat < 0x10000 then '\\' :: 'u' :: hexadecimal 4 c.toNat
    else '\\' :: 'U' :: hexadecimal 8 c.toNat
  else [c]

/-- Single quotes, unless the text holds one and no double quote. -/
def quote (t : Text) : Text :=
  let mark := if '\'' ∈ t ∧ '"' ∉ t then '"' else '\''
  mark :: t.flatMap (escaped mark) ++ [mark]

private theorem isInvisible_of_mem_toDigits {n : Nat} {c : Char} (h : c ∈ Nat.toDigits 16 n) :
    isInvisible c = false := by
  have hdigit : ∀ d : Fin 16, 0x20 ≤ (Nat.digitChar d).toNat ∧ (Nat.digitChar d).toNat < 0x7f := by decide
  induction n using Nat.strongRecOn with
  | ind n ih =>
    rw [Nat.toDigits_eq_if (by decide)] at h
    split at h
    next hlt =>
      rw [List.mem_singleton.1 h]
      exact isInvisible_eq_false_of_ascii (hdigit ⟨n, hlt⟩)
    next hge =>
      rcases List.mem_append.1 h with h | h
      · exact ih (n / 16) (by omega) h
      · have hlt : n % 16 < 16 := Nat.mod_lt n (by decide)
        rw [List.mem_singleton.1 h]
        exact isInvisible_eq_false_of_ascii (hdigit ⟨n % 16, hlt⟩)

private theorem isInvisible_of_mem_hexadecimal {width n : Nat} {c : Char} (h : c ∈ hexadecimal width n) :
    isInvisible c = false := by
  rcases List.mem_append.1 h with h | h
  · rw [List.eq_of_mem_replicate h]
    exact isInvisible_eq_false_of_ascii (by decide)
  · exact isInvisible_of_mem_toDigits h

private theorem isInvisible_of_mem_escaped {mark c d : Char} (hmark : isInvisible mark = false)
    (h : d ∈ escaped mark c) : isInvisible d = false := by
  have hslash : isInvisible '\\' = false := isInvisible_eq_false_of_ascii (by decide)
  have hpair : ∀ second, isInvisible second = false → d ∈ ['\\', second] → isInvisible d = false := by
    intro second hsecond hd
    rcases List.mem_cons.1 hd with rfl | hd
    · exact hslash
    · rw [List.mem_singleton.1 hd]
      exact hsecond
  have hnumber : ∀ letter width, isInvisible letter = false →
      d ∈ '\\' :: letter :: hexadecimal width c.toNat → isInvisible d = false := by
    intro letter width hletter hd
    rcases List.mem_cons.1 hd with rfl | hd
    · exact hslash
    · rcases List.mem_cons.1 hd with rfl | hd
      · exact hletter
      · exact isInvisible_of_mem_hexadecimal hd
  unfold escaped at h
  split at h
  next hc =>
    rcases hc with rfl | rfl
    · exact hpair _ hmark h
    · exact hpair _ hslash h
  split at h
  · exact hpair 'n' (isInvisible_eq_false_of_ascii (by decide)) h
  split at h
  · exact hpair 'r' (isInvisible_eq_false_of_ascii (by decide)) h
  split at h
  · exact hpair 't' (isInvisible_eq_false_of_ascii (by decide)) h
  split at h
  · split at h
    · exact hnumber 'x' 2 (isInvisible_eq_false_of_ascii (by decide)) h
    · split at h
      · exact hnumber 'u' 4 (isInvisible_eq_false_of_ascii (by decide)) h
      · exact hnumber 'U' 8 (isInvisible_eq_false_of_ascii (by decide)) h
  next hvisible =>
    rw [List.mem_singleton.1 h]
    exact eq_false_of_ne_true hvisible

private theorem exists_mark (t : Text) :
    ∃ mark, isInvisible mark = false ∧ quote t = mark :: t.flatMap (escaped mark) ++ [mark] := by
  by_cases hmark : '\'' ∈ t ∧ '"' ∉ t
  · exact ⟨'"', isInvisible_eq_false_of_ascii (by decide), by simp only [quote, if_pos hmark]⟩
  · exact ⟨'\'', isInvisible_eq_false_of_ascii (by decide), by simp only [quote, if_neg hmark]⟩

/-- Quoted text shows all that is in it. -/
theorem isInvisible_of_mem_quote {t : Text} {c : Char} (h : c ∈ quote t) : isInvisible c = false := by
  obtain ⟨mark, hmark, hquote⟩ := exists_mark t
  rw [hquote, List.cons_append, List.mem_cons, List.mem_append, List.mem_singleton] at h
  rcases h with rfl | h | rfl
  · exact hmark
  · obtain ⟨d, -, hd⟩ := List.mem_flatMap.1 h
    exact isInvisible_of_mem_escaped hmark hd
  · exact hmark

end HackAssembler.Text
