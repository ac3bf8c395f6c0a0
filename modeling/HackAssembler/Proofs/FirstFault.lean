import HackAssembler.Text.Basic

/-! Sequences of results, taken together: all the values, or the first fault and nothing else. -/
namespace Except
variable {ε α β : Type} {f : α → β} {x : Except ε α}

theorem map_eq_ok_iff {b : β} : x.map f = .ok b ↔ ∃ a, x = .ok a ∧ f a = b := by
  cases x <;> simp [Except.map]

theorem map_eq_error_iff {e : ε} : x.map f = .error e ↔ x = .error e := by
  cases x <;> simp [Except.map]

theorem mapError_eq_ok_iff {g : ε → β} {a : α} : x.mapError g = .ok a ↔ x = .ok a := by
  cases x with
  | error e => exact ⟨nofun, nofun⟩
  | ok b =>
    show Except.ok b = .ok a ↔ _
    rw [Except.ok.injEq, Except.ok.injEq]

theorem mapError_eq_error_iff {g : ε → β} {b : β} : x.mapError g = .error b ↔ ∃ e, x = .error e ∧ g e = b := by
  cases x with
  | error e =>
    show Except.error (g e) = .error b ↔ _
    simp
  | ok a => exact ⟨nofun, nofun⟩

end Except

namespace HackAssembler

def collect {ε α : Type} : List (Except ε α) → Except ε (List α)
  | [] => .ok []
  | .error e :: _ => .error e
  | .ok a :: rest => (collect rest).map (a :: ·)

variable {ε α : Type}

@[simp] theorem collect_nil : collect ([] : List (Except ε α)) = .ok [] := rfl

@[simp] theorem collect_cons_error (e : ε) (rest : List (Except ε α)) :
    collect (.error e :: rest) = .error e := rfl

@[simp] theorem collect_cons_ok (a : α) (rest : List (Except ε α)) :
    collect (.ok a :: rest) = (collect rest).map (a :: ·) := rfl

private theorem collect_map_ok (values : List α) :
    collect (values.map Except.ok : List (Except ε α)) = .ok values := by
  induction values with
  | nil => rfl
  | cons a rest ih =>
    rw [List.map_cons, collect_cons_ok, ih]
    rfl

theorem collect_eq_ok_iff {results : List (Except ε α)} {values : List α} :
    collect results = .ok values ↔ results = values.map .ok := by
  constructor
  · intro h
    induction results generalizing values with
    | nil =>
      obtain rfl := Except.ok.inj h
      rfl
    | cons first rest ih =>
      cases first with
      | error e => cases h
      | ok a =>
        rw [collect_cons_ok] at h
        cases hrest : collect rest with
        | error e =>
          rw [hrest] at h
          cases h
        | ok tail =>
          rw [hrest] at h
          obtain rfl := Except.ok.inj h
          rw [List.map_cons, ← ih hrest]
  · rintro rfl
    exact collect_map_ok values

/-- A fault ends the sequence if every result in front of it is a value. -/
theorem collect_eq_error_iff {results : List (Except ε α)} {e : ε} :
    collect results = .error e ↔
      ∃ i : Nat, results[i]? = some (Except.error e) ∧
        ∀ j < i, ∃ a, results[j]? = some (Except.ok a) := by
  induction results with
  | nil => simp [collect]
  | cons first rest ih =>
    cases first with
    | error e' =>
      constructor
      · intro h
        obtain rfl := Except.error.inj h
        exact ⟨0, rfl, fun j hj => absurd hj (Nat.not_lt_zero j)⟩
      · rintro ⟨i, hi, hfront⟩
        cases i with
        | zero =>
          rw [List.getElem?_cons_zero] at hi
          obtain rfl := Except.error.inj (Option.some.inj hi)
          rfl
        | succ i =>
          obtain ⟨a, ha⟩ := hfront 0 (Nat.succ_pos i)
          cases ha
    | ok a =>
      have hskip : collect (.ok a :: rest) = .error e ↔ collect rest = .error e := by
        rw [collect_cons_ok]
        cases collect rest <;> simp [Except.map]
      rw [hskip, ih]
      constructor
      · rintro ⟨i, hi, hfront⟩
        refine ⟨i + 1, hi, fun j hj => ?_⟩
        cases j with
        | zero => exact ⟨a, rfl⟩
        | succ j => exact hfront j (by omega)
      · rintro ⟨i, hi, hfront⟩
        cases i with
        | zero => cases hi
        | succ i => exact ⟨i, hi, fun j hj => hfront (j + 1) (by omega)⟩

end HackAssembler
