import Mathlib.Data.List.Basic
import ServiceLint.Text.Pieces

/-!
# Replacing a word

A word is replaced where it is found from left to right. Where its first character does not stand, nothing changes
(`replaceFrom_stretch`), so what becomes of a text is found stretch by stretch.
-/
namespace ServiceLint.Text

theorem replaceFrom_skip (word by_ w rest : List Char) :
    replaceFrom word by_ w.length (w ++ rest) = replaceFrom word by_ 0 rest := by
  induction w with
  | nil => rfl
  | cons c w ih => simpa [replaceFrom] using ih

/-- A found word is replaced. -/
theorem replaceFrom_word (c : Char) (w by_ rest : List Char) :
    replaceFrom (c :: w) by_ 0 ((c :: w) ++ rest) = by_ ++ replaceFrom (c :: w) by_ 0 rest := by
  have hfound : (c :: w).isPrefixOf (c :: (w ++ rest)) = true := by simp
  rw [List.cons_append, replaceFrom, if_pos hfound, List.length_cons, Nat.add_sub_cancel, replaceFrom_skip]

/-- A stretch without the first character of the word stays. -/
theorem replaceFrom_stretch {c : Char} {w by_ cs : List Char} (h : c ∉ cs) (rest : List Char) :
    replaceFrom (c :: w) by_ 0 (cs ++ rest) = cs ++ replaceFrom (c :: w) by_ 0 rest := by
  induction cs with
  | nil => rfl
  | cons d ds ih =>
    simp only [List.mem_cons, not_or] at h
    have hne : (c == d) = false := by simpa using h.1
    simp [replaceFrom, List.isPrefixOf, hne, ih h.2]

/-! ## Replacing a character -/

/-- Replacing a character replaces it wherever it stands. -/
theorem replace_char (c : Char) (by_ cs : List Char) :
    replace [c] by_ cs = cs.flatMap fun d => if d = c then by_ else [d] := by
  unfold replace
  induction cs with
  | nil => rfl
  | cons d ds ih =>
    rw [List.flatMap_cons, ← ih]
    by_cases h : d = c
    · subst h
      simpa using replaceFrom_word d [] by_ ds
    · have hfree : c ∉ [d] := by simpa using Ne.symm h
      have hstay := @replaceFrom_stretch c [] by_ [d] hfree ds
      simpa [h] using hstay

/-- Replacing `c` replaces what stands between the parts. -/
theorem replace_intercalate {c : Char} {parts : List (List Char)} (by_ : List Char)
    (h : ∀ part ∈ parts, c ∉ part) :
    replace [c] by_ ([c].intercalate parts) = by_.intercalate parts := by
  unfold replace
  induction parts with
  | nil => rfl
  | cons part rest ih =>
    obtain ⟨hpart, hrest⟩ := List.forall_mem_cons.1 h
    cases rest with
    | nil =>
      have hstay := @replaceFrom_stretch c [] by_ part hpart []
      simpa [replaceFrom] using hstay
    | cons next rest =>
      rw [List.intercalate_cons_cons, List.append_assoc, replaceFrom_stretch hpart, replaceFrom_word,
        ih hrest, List.intercalate_cons_cons, List.append_assoc]

end ServiceLint.Text
