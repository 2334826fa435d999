import Mathlib.Data.List.TakeWhile

/-!
# Longest initial stretches

`takeWhile` and `dropWhile` cut a list after the longest initial stretch of elements that satisfy a
condition. The first element after it decides where that stretch ends, and what comes later does not.
-/
namespace ServiceLint

variable {α : Type _} {p : α → Bool}

/-- The first element that is not passed over fails the condition. -/
theorem dropWhile_cons_neg {l r : List α} {a : α} (h : l.dropWhile p = a :: r) : p a = false := by
  have := List.head?_dropWhile_not p l
  rw [h] at this
  exact this

theorem takeWhile_stretch {w rest : List α} (hw : ∀ x ∈ w, p x = true)
    (hr : ∀ x ∈ rest.head?, p x = false) : (w ++ rest).takeWhile p = w := by
  rw [List.takeWhile_append_of_pos hw]
  cases rest with
  | nil => simp
  | cons x rest => simp [hr x rfl]

theorem dropWhile_stretch {w rest : List α} (hw : ∀ x ∈ w, p x = true)
    (hr : ∀ x ∈ rest.head?, p x = false) : (w ++ rest).dropWhile p = rest := by
  rw [List.dropWhile_append_of_pos hw]
  cases rest with
  | nil => simp
  | cons x rest => simp [hr x rfl]

/-! ## A list with a known stop -/

theorem takeWhile_append_stop {s : α} (hs : p s = false) (u v : List α) :
    (u ++ s :: v).takeWhile p = u.takeWhile p := by
  induction u with
  | nil => simp [hs]
  | cons c u ih => by_cases hc : p c <;> simp [hc, ih]

theorem dropWhile_append_stop {s : α} (hs : p s = false) (u v : List α) :
    (u ++ s :: v).dropWhile p = u.dropWhile p ++ s :: v := by
  induction u with
  | nil => simp [hs]
  | cons c u ih => by_cases hc : p c <;> simp [hc, ih]

end ServiceLint
