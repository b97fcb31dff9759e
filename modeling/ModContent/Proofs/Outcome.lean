import Mathlib.Data.List.Forall2

/-!
# Outcomes

Results that may be errors are opened here once. Two steps succeed when both do
(`bind_eq_ok_iff`), and a traversal of a list succeeds when it does at every element and fails at
the first element that does.
-/

namespace ModContent

universe u v w

/-- Two steps succeed when the first does and the second does from its result. -/
theorem bind_eq_ok_iff {ε : Type v} {α β : Type u} {x : Except ε α} {f : α → Except ε β} {b : β} :
    x >>= f = .ok b ↔ ∃ a, x = .ok a ∧ f a = .ok b := by
  cases x <;> simp [bind, Except.bind]

/-- A success is one whatever the errors are turned into. -/
theorem mapError_eq_ok_iff {ε : Type v} {ε' : Type w} {α : Type u} {x : Except ε α} {f : ε → ε'}
    {a : α} : x.mapError f = .ok a ↔ x = .ok a := by
  cases x <;> simp [Except.mapError]

variable {α : Type w} {β : Type u} {ε : Type v} {f : α → Except ε β}

/-- A traversal that succeeds succeeds at each element. -/
theorem forall₂_of_mapM {xs : List α} {ys : List β} (h : xs.mapM f = .ok ys) :
    List.Forall₂ (fun x y ↦ f x = .ok y) xs ys := by
  induction xs generalizing ys with
  | nil =>
    obtain rfl := Except.ok.inj h
    exact .nil
  | cons x rest ih =>
    rw [List.mapM_cons] at h
    obtain ⟨y, hx, h⟩ := bind_eq_ok_iff.1 h
    obtain ⟨tail, hrest, h⟩ := bind_eq_ok_iff.1 h
    obtain rfl := Except.ok.inj h
    exact .cons hx (ih hrest)

/-- A traversal succeeds if every item does, and it gives what they give. -/
theorem mapM_eq_ok_iff {xs : List α} {ys : List β} :
    xs.mapM f = .ok ys ↔ List.Forall₂ (fun x y ↦ f x = .ok y) xs ys := by
  refine ⟨forall₂_of_mapM, fun h ↦ ?_⟩
  induction h with
  | nil => rfl
  | cons hx _ ih =>
    rw [List.mapM_cons, hx, ih]
    rfl

/-- Each result of a traversal that succeeds is the result of one element. -/
theorem exists_of_mem_mapM {xs : List α} {ys : List β} (h : xs.mapM f = .ok ys) {y : β}
    (hy : y ∈ ys) : ∃ x ∈ xs, f x = .ok y := by
  obtain ⟨hlength, hget⟩ := List.forall₂_iff_get.1 (forall₂_of_mapM h)
  obtain ⟨i, hi, rfl⟩ := List.mem_iff_getElem.1 hy
  exact ⟨xs[i], List.getElem_mem _, hget i (hlength ▸ hi) hi⟩

/-- A traversal that fails has the error of the first element that fails. -/
theorem exists_of_mapM_error {xs : List α} {error : ε} (h : xs.mapM f = .error error) :
    ∃ before x after, xs = before ++ x :: after ∧ (∀ y ∈ before, ∃ z, f y = .ok z) ∧
      f x = .error error := by
  induction xs with
  | nil => cases h
  | cons x rest ih =>
    rw [List.mapM_cons] at h
    cases hx : f x with
    | error other =>
      rw [hx] at h
      obtain rfl := Except.error.inj h
      exact ⟨[], x, rest, rfl, nofun, hx⟩
    | ok z =>
      have hrest : rest.mapM f = .error error := by
        cases hrest : rest.mapM f with
        | error other =>
          rw [hx, hrest] at h
          exact h
        | ok zs =>
          rw [hx, hrest] at h
          cases h
      obtain ⟨before, y, after, rfl, hbefore, hy⟩ := ih hrest
      exact ⟨x :: before, y, after, rfl, List.forall_mem_cons.2 ⟨⟨z, hx⟩, hbefore⟩, hy⟩

/-- A traversal succeeds if and only if it does so at each element. -/
theorem exists_mapM_eq_ok_iff {xs : List α} :
    (∃ ys, xs.mapM f = .ok ys) ↔ ∀ x ∈ xs, ∃ y, f x = .ok y := by
  constructor
  · rintro ⟨ys, h⟩ x hx
    obtain ⟨hlength, hget⟩ := List.forall₂_iff_get.1 (forall₂_of_mapM h)
    obtain ⟨i, hi, rfl⟩ := List.mem_iff_getElem.1 hx
    exact ⟨ys[i], hget i hi (hlength ▸ hi)⟩
  · intro hall
    cases h : xs.mapM f with
    | ok ys => exact ⟨ys, rfl⟩
    | error error =>
      obtain ⟨before, x, after, rfl, -, hx⟩ := exists_of_mapM_error h
      obtain ⟨y, hy⟩ := hall x (by simp)
      rw [hx] at hy
      cases hy

end ModContent
