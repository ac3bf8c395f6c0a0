import HackAssembler.Symbol.Basic

/-! First occurrences: the distinct elements of a list in order, the position of one among them, and the symbol
that a list of names has for one of them. -/
namespace List

section Distinct
variable {α : Type}

/-- Cut in front of its first `a`, a list ends there. -/
theorem takeWhile_ne_append_cons [DecidableEq α] {front : List α} {a : α} (h : a ∉ front)
    (rest : List α) : (front ++ a :: rest).takeWhile (· ≠ a) = front := by
  have hall : ∀ b ∈ front, decide (b ≠ a) = true :=
    fun b hb => decide_eq_true fun hba => h (hba ▸ hb)
  rw [takeWhile_append_of_pos hall, takeWhile_cons_of_neg (by simp), append_nil]

theorem takeWhile_ne_eq_self [DecidableEq α] {l : List α} {a : α} (h : a ∉ l) :
    l.takeWhile (· ≠ a) = l := by
  have hall : ∀ b ∈ l, decide (b ≠ a) = true :=
    fun b hb => decide_eq_true fun hba => h (hba ▸ hb)
  simpa using @takeWhile_append_of_pos _ _ l [] hall

variable [BEq α] [LawfulBEq α]

/-- An element at the end counts only if it is new. -/
theorem eraseDups_concat_of_mem {l : List α} {a : α} (h : a ∈ l) :
    (l ++ [a]).eraseDups = l.eraseDups := by
  rw [eraseDups_append, cons_removeAll]
  simp [h]

theorem eraseDups_concat_of_not_mem {l : List α} {a : α} (h : a ∉ l) :
    (l ++ [a]).eraseDups = l.eraseDups ++ [a] := by
  rw [eraseDups_append, cons_removeAll]
  simp [h, eraseDups_cons]

theorem eraseDups_eq_self {l : List α} (h : l.Nodup) : l.eraseDups = l := by
  induction l with
  | nil => rfl
  | cons a l ih =>
    obtain ⟨hout, hrest⟩ := nodup_cons.1 h
    have hkeep : l.filter (fun b => !b == a) = l := by
      rw [filter_eq_self]
      intro b hb
      simp [ne_of_mem_of_not_mem hb hout]
    rw [eraseDups_cons, hkeep, ih hrest]

/-- The position of `a` among the distinct elements is the number of those that occur in front of it. -/
theorem idxOf_eraseDups [DecidableEq α] (l : List α) (a : α) :
    l.eraseDups.idxOf a = (l.takeWhile (· ≠ a)).eraseDups.length := by
  by_cases h : a ∈ l
  · obtain ⟨front, rest, rfl, hfront⟩ := eq_append_cons_of_mem h
    have hnew : (a :: rest).removeAll front = a :: rest.removeAll front := by
      rw [cons_removeAll]
      simp [hfront]
    have hout : a ∉ front.eraseDups := by rwa [mem_eraseDups]
    rw [takeWhile_ne_append_cons hfront, eraseDups_append, hnew, eraseDups_cons, idxOf_append,
      if_neg hout, idxOf_cons_self, Nat.zero_add]
  · rw [takeWhile_ne_eq_self h, idxOf_eq_length]
    rwa [mem_eraseDups]

end Distinct

end List

namespace HackAssembler

/-- Symbols made of names are found by these, each with the place where its name stands first. -/
theorem find?_mapIdx_name (symbol : Nat → Text → Symbol) (hname : ∀ i name, (symbol i name).name = name)
    (names : List Text) (name : Text) :
    (names.mapIdx symbol).find? (·.name = name) =
      if name ∈ names then some (symbol (names.idxOf name) name) else none := by
  induction names generalizing symbol with
  | nil => rfl
  | cons first rest ih =>
    rw [List.mapIdx_cons]
    by_cases h : first = name
    · subst h
      simp [hname]
    · have hrest := ih (fun i => symbol (i + 1)) fun i => hname (i + 1)
      have hfirst : (first == name) = false := by simpa using h
      rw [List.find?_cons_of_neg (by simpa [hname] using h), hrest, List.idxOf_cons, hfirst]
      simp [Ne.symm h]

theorem find?_map_name (symbol : Text → Symbol) (hname : ∀ name, (symbol name).name = name)
    (names : List Text) (name : Text) :
    (names.map symbol).find? (·.name = name) =
      if name ∈ names then some (symbol name) else none := by
  induction names with
  | nil => rfl
  | cons first rest ih =>
    rw [List.map_cons]
    by_cases h : first = name
    · subst h
      simp [hname]
    · rw [List.find?_cons_of_neg (by simpa [hname] using h), ih]
      simp [Ne.symm h]

end HackAssembler
