import Mathlib.Data.List.Basic
import Mathlib.Data.List.DropRight
import ServiceLint.Proofs.Stretch
import ServiceLint.Text.Pieces

/-!
# Parts of a text

White space at the ends of a text, and what stands before and after a character.
-/
namespace ServiceLint.Text

/-! ## White space at the ends -/

theorem notMem_of_blank {c : Char} {cs : List Char} (hc : isWhiteSpace c = false)
    (h : ∀ x ∈ cs, isWhiteSpace x = true) : c ∉ cs := by
  intro hmem
  rw [h c hmem] at hc
  cases hc

theorem trimEnd_append (a b : List Char) :
    trimEnd (a ++ b) = if trimEnd b = [] then trimEnd a else a ++ trimEnd b := by
  simp only [trimEnd, dropEndWhile, List.reverse_append, List.dropWhile_append, List.reverse_eq_nil_iff,
    List.isEmpty_iff]
  split <;> simp

theorem trimEnd_cons_space {c : Char} (hc : isWhiteSpace c = true) (cs : List Char) :
    trimEnd (c :: cs) = if trimEnd cs = [] then [] else c :: trimEnd cs := by
  have h := trimEnd_append [c] cs
  have hone : trimEnd [c] = [] := by simp [trimEnd, dropEndWhile, hc]
  rwa [hone] at h

theorem trimEnd_cons {c : Char} (hc : isWhiteSpace c = false) (cs : List Char) :
    trimEnd (c :: cs) = c :: trimEnd cs := by
  have h := trimEnd_append [c] cs
  have hone : trimEnd [c] = [c] := by simp [trimEnd, dropEndWhile, hc]
  rw [hone] at h
  rw [← List.singleton_append, h]
  split
  · next hnil => rw [hnil]
  · rfl

theorem exists_of_dropEndWhile (p : Char → Bool) (cs : List Char) :
    ∃ w, cs = dropEndWhile p cs ++ w ∧ ∀ c ∈ w, p c = true := by
  refine ⟨(cs.reverse.takeWhile p).reverse, ?_, fun c hc => ?_⟩
  · rw [dropEndWhile, ← List.reverse_append, List.takeWhile_append_dropWhile, List.reverse_reverse]
  · exact List.mem_takeWhile_imp (List.mem_reverse.1 hc)

/-- Trimming drops white space and nothing else. -/
theorem exists_blank_of_trimEnd (cs : List Char) :
    ∃ w, cs = trimEnd cs ++ w ∧ ∀ c ∈ w, isWhiteSpace c = true :=
  exists_of_dropEndWhile isWhiteSpace cs

theorem exists_blank_of_trim (cs : List Char) :
    ∃ l r, cs = l ++ trim cs ++ r ∧ (∀ c ∈ l, isWhiteSpace c = true) ∧ ∀ c ∈ r, isWhiteSpace c = true := by
  obtain ⟨r, hr, hblank⟩ := exists_blank_of_trimEnd (cs.dropWhile isWhiteSpace)
  refine ⟨cs.takeWhile isWhiteSpace, r, ?_, fun c hc => List.mem_takeWhile_imp hc, hblank⟩
  rw [trim, List.append_assoc, ← hr, List.takeWhile_append_dropWhile]

theorem trimEnd_prefix (cs : List Char) : trimEnd cs <+: cs := by
  obtain ⟨w, hw, -⟩ := exists_blank_of_trimEnd cs
  exact ⟨w, hw.symm⟩

theorem trimEnd_append_blank (a : List Char) {b : List Char} (h : ∀ c ∈ b, isWhiteSpace c = true) :
    trimEnd (a ++ b) = trimEnd a := by
  have hb : trimEnd b = [] := by simpa [trimEnd, dropEndWhile] using h
  rw [trimEnd_append, if_pos hb]

theorem trimEnd_trim (cs : List Char) : trimEnd (trim cs) = trim cs := by
  rw [trim, trimEnd, dropEndWhile, trimEnd, dropEndWhile, List.reverse_reverse, List.dropWhile_idempotent]

theorem dropWhile_of_prefix {p : Char → Bool} {a b : List Char} (h : a <+: b) (hb : b.dropWhile p = b) :
    a.dropWhile p = a := by
  cases a with
  | nil => rfl
  | cons c a =>
    obtain ⟨rest, rfl⟩ := h
    rw [List.dropWhile_cons_of_neg (by simp [dropWhile_cons_neg hb])]

theorem dropWhile_trim (cs : List Char) : (trim cs).dropWhile isWhiteSpace = trim cs := by
  have hstart := trimEnd_prefix (cs.dropWhile isWhiteSpace)
  exact dropWhile_of_prefix hstart (List.dropWhile_idempotent _ _)

theorem trimEnd_last {cs : List Char} {c : Char} (h : (trimEnd cs).getLast? = some c) :
    isWhiteSpace c = false := by
  rw [trimEnd, dropEndWhile, List.getLast?_reverse] at h
  have hhead := List.head?_dropWhile_not isWhiteSpace cs.reverse
  rwa [h] at hhead

theorem dropEndWhile_concat {p : Char → Bool} {c : Char} (hc : p c = false) (cs : List Char) :
    dropEndWhile p (cs ++ [c]) = cs ++ [c] := by
  simp [dropEndWhile, hc]

/-- A text without white space has none to trim. -/
theorem trim_of_forall {cs : List Char} (h : ∀ c ∈ cs, isWhiteSpace c = false) : trim cs = cs := by
  have hend : ∀ ds : List Char, (∀ c ∈ ds, isWhiteSpace c = false) → ds.dropWhile isWhiteSpace = ds := by
    intro ds hds
    cases ds with
    | nil => rfl
    | cons d ds => rw [List.dropWhile_cons_of_neg (by simp [hds d List.mem_cons_self])]
  rw [trim, trimEnd, dropEndWhile, hend cs h, hend cs.reverse fun c hc => h c (List.mem_reverse.1 hc),
    List.reverse_reverse]

theorem trimEnd_append_word (a : List Char) {w : List Char} (hw : w ≠ [])
    (hspace : ∀ c ∈ w, isWhiteSpace c = false) : trimEnd (a ++ w) = a ++ w := by
  obtain ⟨front, c, rfl⟩ := (List.eq_nil_or_concat' w).resolve_left hw
  rw [← List.append_assoc]
  exact dropEndWhile_concat (hspace c (by simp)) _

/-- A word with white space around it is what is left of it. -/
theorem trim_append_word {l w r : List Char} (hl : ∀ c ∈ l, isWhiteSpace c = true) (hw : w ≠ [])
    (hspace : ∀ c ∈ w, isWhiteSpace c = false) (hr : ∀ c ∈ r, isWhiteSpace c = true) : trim (l ++ w ++ r) = w := by
  have hhead : ∀ c ∈ (w ++ r).head?, isWhiteSpace c = false := by
    cases w with
    | nil => exact absurd rfl hw
    | cons d w => exact fun c hc => hspace c (by simp_all)
  rw [trim, List.append_assoc, dropWhile_stretch hl hhead, trimEnd_append_blank w hr]
  exact trimEnd_append_word [] hw hspace

/-! ## Before and after a character -/

theorem ne_of_notMem {c : Char} {cs : List Char} (h : c ∉ cs) : ∀ x ∈ cs, decide (x ≠ c) = true := by
  intro x hx
  rw [decide_eq_true_eq]
  rintro rfl
  exact h hx

theorem afterLast_of_notMem {c : Char} {cs : List Char} (h : c ∉ cs) : afterLast c cs = cs := by
  rw [afterLast, List.takeWhile_eq_self_iff.2 (ne_of_notMem (by simpa using h)), List.reverse_reverse]

theorem afterLast_append {c : Char} {a b : List Char} (h : c ∉ b) : afterLast c (a ++ c :: b) = b := by
  rw [afterLast, List.reverse_append, List.reverse_cons, List.append_assoc,
    takeWhile_stretch (ne_of_notMem (by simpa using h)) (by simp), List.reverse_reverse]

theorem beforeFirst?_append {c : Char} {a : List Char} (h : c ∉ a) (b : List Char) :
    beforeFirst? c (a ++ c :: b) = some a := by
  have hmem : (a ++ c :: b).contains c = true := by simp
  rw [beforeFirst?, if_pos hmem, takeWhile_stretch (ne_of_notMem h) (by simp)]

/-- What precedes the first `c` has none, and the text goes on with `c`. -/
theorem beforeFirst?_eq_some {c : Char} {cs a : List Char} (h : beforeFirst? c cs = some a) :
    c ∉ a ∧ ∃ b, cs = a ++ c :: b := by
  unfold beforeFirst? at h
  split at h
  · next hmem =>
    obtain ⟨a', b, rfl, hfree⟩ := List.eq_append_cons_of_mem (List.contains_iff_mem.1 hmem)
    rw [takeWhile_stretch (ne_of_notMem hfree) (by simp)] at h
    obtain rfl := Option.some.inj h
    exact ⟨hfree, b, rfl⟩
  · cases h

/-- What follows the last `c` has none, and `c` precedes it. -/
theorem exists_afterLast {c : Char} {cs : List Char} (h : c ∈ cs) :
    c ∉ afterLast c cs ∧ ∃ a, cs = a ++ c :: afterLast c cs := by
  obtain ⟨b, a, hsplit, hfree⟩ := List.eq_append_cons_of_mem (List.mem_reverse.2 h)
  have hcs : cs = a.reverse ++ c :: b.reverse := by
    rw [← List.reverse_reverse cs, hsplit]
    simp
  have hlast : afterLast c cs = b.reverse := by
    rw [hcs, afterLast_append (by simpa using hfree)]
  rw [hlast]
  exact ⟨by simpa using hfree, a.reverse, hcs⟩

/-- A character that is not in what comes last stands before it. -/
theorem append_eq_append_cons {c : Char} {a b front rest : List Char} (h : a ++ b = front ++ c :: rest) (hb : c ∉ b) :
    ∃ mid, a = front ++ c :: mid ∧ rest = mid ++ b := by
  obtain ⟨mid, -, hb'⟩ | ⟨mid, ha, hrest⟩ := List.append_eq_append_iff.1 h
  · exact absurd (by simp [hb']) hb
  · obtain ⟨-, rfl⟩ | ⟨mid', rfl, hmid⟩ := List.append_eq_cons_iff.1 hrest.symm
    · exact absurd List.mem_cons_self hb
    · exact ⟨mid', ha, hmid⟩

/-- What stands before a `c` does not matter to what follows the last one. -/
theorem afterLast_append_cons {c : Char} {a b : List Char} : afterLast c (a ++ c :: b) = afterLast c b := by
  by_cases hb : c ∈ b
  · obtain ⟨hfree, front, hfront⟩ := exists_afterLast hb
    have hsplit : a ++ c :: b = (a ++ c :: front) ++ c :: afterLast c b := by
      rw [List.append_assoc, List.cons_append, ← hfront]
    rw [hsplit, afterLast_append hfree]
  · rw [afterLast_append hb, afterLast_of_notMem hb]

/-! ## Dotted paths -/

theorem mem_intercalate {c x : Char} {parts : List (List Char)} (h : x ∈ [c].intercalate parts) :
    x = c ∨ ∃ part ∈ parts, x ∈ part := by
  induction parts with
  | nil => simp at h
  | cons part rest ih =>
    cases rest with
    | nil =>
      rw [List.intercalate_singleton] at h
      exact Or.inr ⟨part, by simp, h⟩
    | cons next rest =>
      rw [List.intercalate_cons_cons, List.append_assoc, List.singleton_append, List.mem_append,
        List.mem_cons] at h
      rcases h with h | h | h
      · exact Or.inr ⟨part, by simp, h⟩
      · exact Or.inl h
      · rcases ih h with h | ⟨part', hin, h⟩
        · exact Or.inl h
        · exact Or.inr ⟨part', List.mem_cons_of_mem _ hin, h⟩

/-- After the last `c` of parts put together with `c` stands the last part. -/
theorem afterLast_intercalate {c : Char} {last : List Char} {parts : List (List Char)}
    (h : ∀ part ∈ parts, c ∉ part) (hlast : parts.getLast? = some last) :
    afterLast c ([c].intercalate parts) = last := by
  induction parts with
  | nil => cases hlast
  | cons part rest ih =>
    obtain ⟨hpart, hrest⟩ := List.forall_mem_cons.1 h
    cases rest with
    | nil =>
      obtain rfl : part = last := Option.some.inj hlast
      rw [List.intercalate_singleton, afterLast_of_notMem hpart]
    | cons next rest =>
      rw [List.getLast?_cons_cons] at hlast
      rw [List.intercalate_cons_cons, List.append_assoc, List.singleton_append, afterLast_append_cons,
        ih hrest hlast]

end ServiceLint.Text
