import Mathlib.Data.List.Basic
import ServiceLint.Text.LineIndex

/-!
# Searching the table of lines

The search halves a stretch of the table. What it keeps is `LineIndex.Narrowed`: all before the stretch is smaller than
what is looked for, and all after it is larger. So it ends at the element itself, or at the only place where it could
stand (`search_eq_ok`, `search_eq_error`). With the correction for the second case, the line of an offset is the last
one that starts at or before it (`lineOf_eq`).
-/
namespace ServiceLint.LineIndex

variable {xs : List Nat} {x lo hi : Nat}

/-- If `x` stands in the list at all, it stands in the stretch from `lo` up to `hi`. -/
structure Narrowed (xs : List Nat) (x lo hi : Nat) : Prop where
  before : ∀ y ∈ xs.take lo, y < x
  after : ∀ y ∈ xs.drop hi, x < y

theorem Narrowed.all (xs : List Nat) (x : Nat) : Narrowed xs x 0 xs.length where
  before y hy := by cases hy
  after y hy := by rw [List.drop_length] at hy; cases hy

/-- A search that finds gives the index of what was looked for. -/
theorem search_eq_ok {hhi : hi ≤ xs.length} {i : Nat} (h : search xs x lo hi hhi = .ok i) : xs[i]? = some x := by
  fun_induction search xs x lo hi hhi with
  | case1 lo hi hhi hlt mid hmid hcompare ih => exact ih h
  | case2 lo hi hhi hlt mid hmid hcompare ih => exact ih h
  | case3 lo hi hhi hlt mid hmid hcompare =>
    have hin : mid < xs.length := by omega
    rw [← Except.ok.inj h, List.getElem?_eq_getElem hin, Nat.compare_eq_eq.1 hcompare]
  | case4 => cases h

/-- The elements that are not larger than `x` are as many as stand before a place that divides the list there. -/
theorem length_takeWhile_le {n : Nat} (hn : n ≤ xs.length) (hbefore : ∀ y ∈ xs.take n, y ≤ x)
    (hafter : ∀ y ∈ xs.drop n, x < y) : (xs.takeWhile (· ≤ x)).length = n := by
  have htake : ∀ y ∈ xs.take n, decide (y ≤ x) = true := fun y hy => decide_eq_true (hbefore y hy)
  have hdrop : (xs.drop n).takeWhile (· ≤ x) = [] := by
    cases hrest : xs.drop n with
    | nil => rfl
    | cons y ys =>
      have := hafter y (hrest ▸ List.mem_cons_self)
      exact List.takeWhile_cons_of_neg (by simpa using this)
  rw [← List.take_append_drop n xs, List.takeWhile_append_of_pos htake, hdrop, List.append_nil,
    List.length_take, Nat.min_eq_left hn]

section Sorted

variable (hsorted : xs.Pairwise (· < ·))
include hsorted

theorem le_getElem_of_mem_take {mid y : Nat} (hmid : mid < xs.length) (hy : y ∈ xs.take (mid + 1)) : y ≤ xs[mid] := by
  rw [← List.take_append_getElem hmid, List.mem_append, List.mem_singleton] at hy
  rcases hy with hy | rfl
  · rw [← List.take_append_drop mid xs, List.drop_eq_getElem_cons hmid] at hsorted
    exact Nat.le_of_lt ((List.pairwise_append.1 hsorted).2.2 y hy xs[mid] List.mem_cons_self)
  · exact Nat.le_refl _

theorem getElem_le_of_mem_drop {mid y : Nat} (hmid : mid < xs.length) (hy : y ∈ xs.drop mid) : xs[mid] ≤ y := by
  have hdrop := hsorted.sublist (List.drop_sublist mid xs)
  rw [List.drop_eq_getElem_cons hmid] at hy hdrop
  rcases List.mem_cons.1 hy with rfl | hy
  · exact Nat.le_refl _
  · exact Nat.le_of_lt (List.rel_of_pairwise_cons hdrop hy)

/-- A smaller element leaves the part after it. -/
theorem Narrowed.right {mid : Nat} (h : Narrowed xs x lo hi) (hmid : mid < xs.length) (hlt : xs[mid] < x) :
    Narrowed xs x (mid + 1) hi :=
  ⟨fun _ hy => Nat.lt_of_le_of_lt (le_getElem_of_mem_take hsorted hmid hy) hlt, h.after⟩

/-- A larger one leaves the part before it. -/
theorem Narrowed.left {mid : Nat} (h : Narrowed xs x lo hi) (hmid : mid < xs.length) (hlt : x < xs[mid]) :
    Narrowed xs x lo mid :=
  ⟨h.before, fun _ hy => Nat.lt_of_lt_of_le hlt (getElem_le_of_mem_drop hsorted hmid hy)⟩

/-- One that does not find gives the place that divides the smaller elements from the larger ones. -/
theorem search_eq_error {hhi : hi ≤ xs.length} {i : Nat} (hle : lo ≤ hi) (hn : Narrowed xs x lo hi)
    (h : search xs x lo hi hhi = .error i) : i ≤ xs.length ∧ Narrowed xs x i i := by
  fun_induction search xs x lo hi hhi with
  | case1 lo hi hhi hlt mid hmid hcompare ih =>
    exact ih (by omega) (hn.right hsorted (by omega) (Nat.compare_eq_lt.1 hcompare)) h
  | case2 lo hi hhi hlt mid hmid hcompare ih =>
    exact ih (by omega) (hn.left hsorted (by omega) (Nat.compare_eq_gt.1 hcompare)) h
  | case3 => cases h
  | case4 lo hi hhi hlt =>
    obtain rfl := Except.error.inj h
    obtain rfl : lo = hi := Nat.le_antisymm hle (Nat.le_of_not_lt hlt)
    exact ⟨hhi, hn⟩

end Sorted

/-- The line of an offset is the last one that starts at or before it, whether a line starts there or not. -/
theorem lineOf_eq {index : LineIndex} (hsorted : index.starts.Pairwise (· < ·)) (offset : Nat) :
    index.lineOf offset = (index.starts.takeWhile (· ≤ offset)).length - 1 := by
  unfold lineOf
  split
  · next line hfound =>
    obtain ⟨hline, heq⟩ := List.getElem?_eq_some_iff.1 (search_eq_ok hfound)
    have hcount : (index.starts.takeWhile (· ≤ offset)).length = line + 1 :=
      length_takeWhile_le hline (fun y hy => heq ▸ le_getElem_of_mem_take hsorted hline hy) fun y hy => by
        rw [← heq]
        have htail := hsorted.sublist (List.drop_sublist line index.starts)
        rw [List.drop_eq_getElem_cons hline] at htail
        exact List.rel_of_pairwise_cons htail hy
    rw [hcount, Nat.add_sub_cancel]
  · next place hmissing =>
    obtain ⟨hplace, hcut⟩ := search_eq_error hsorted (Nat.zero_le _) (.all _ _) hmissing
    rw [length_takeWhile_le hplace (fun y hy => Nat.le_of_lt (hcut.before y hy)) hcut.after]

end ServiceLint.LineIndex
