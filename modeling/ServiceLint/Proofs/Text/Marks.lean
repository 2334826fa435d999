import ServiceLint.Text.Marked
import ServiceLint.Proofs.Text.Coordinates
import ServiceLint.Proofs.Text.Trim

/-!
# Positions of marks

The position of a mark is counted by a walk of its own, which passes over carriage returns. The position that the
line index gives to the place of the mark counts them. So the two agree on the line, and on the character but for the
carriage returns between the start of the line and the mark (`Marked.extract_position`).
-/
namespace ServiceLint.Marked

open Text LineIndex

variable {before after marked : List Char}

/-- A text with one mark is divided by it. -/
theorem exists_mark (h : marked.count '*' = 1) :
    ∃ before after, marked = before ++ '*' :: after ∧ '*' ∉ before ∧ '*' ∉ after := by
  have hmem : '*' ∈ marked := List.count_pos_iff.1 (by omega)
  obtain ⟨before, after, rfl, hbefore⟩ := List.eq_append_cons_of_mem hmem
  refine ⟨before, after, rfl, hbefore, ?_⟩
  rw [List.count_append, List.count_cons_self] at h
  exact List.count_eq_zero.1 (by omega)

/-- The walk counts line feeds, and of the last line all characters but carriage returns. -/
theorem foldl_advance (a : List Char) :
    a.foldl advance (0, 0) = (a.count '\n', (lastLine a).countP (· ≠ '\r')) := by
  induction a using List.reverseRecOn with
  | nil => rfl
  | append_singleton a c ih =>
    rw [List.foldl_concat, ih, List.count_append]
    by_cases hfeed : c = '\n'
    · rw [hfeed, lastLine_append_feed]
      rfl
    · rw [lastLine_append_of_ne a hfeed, List.countP_append]
      by_cases hreturn : c = '\r'
      · simp [advance, hreturn]
      · simp [advance, hfeed, hreturn]

/-- What the walk counts on a line, and the carriage returns that it passes over, are all characters of the line. -/
theorem countP_add_count (line : List Char) : line.countP (· ≠ '\r') + line.count '\r' = line.length := by
  rw [List.length_eq_countP_add_countP (· ≠ '\r'), List.count]
  congr 1
  exact List.countP_congr fun c _ => by simp

/-- The mark is left out of the text, and its position is what the walk counts before it. -/
theorem extract_mark (hbefore : '*' ∉ before) (hafter : '*' ∉ after) :
    extract (before ++ '*' :: after) =
      .ok (before ++ after, ⟨word (before.count '\n'), word ((lastLine before).countP (· ≠ '\r'))⟩) := by
  have hcount : (before ++ '*' :: after).count '*' = 1 := by
    rw [List.count_append, List.count_cons_self, List.count_eq_zero_of_not_mem hbefore,
      List.count_eq_zero_of_not_mem hafter]
  have htake : (before ++ '*' :: after).takeWhile (· ≠ '*') = before :=
    takeWhile_stretch (ne_of_notMem hbefore) (by simp)
  have hfilter : (before ++ '*' :: after).filter (· ≠ '*') = before ++ after := by
    rw [List.filter_append, List.filter_cons_of_neg (by simp), List.filter_eq_self.2 (ne_of_notMem hbefore),
      List.filter_eq_self.2 (ne_of_notMem hafter)]
  unfold extract
  rw [hcount]
  simp only [htake, hfilter, foldl_advance]

/-- A text with one mark, of fewer than UInt32.size bytes, gives the text without the mark and a position on the line
on which the mark stands. It is the position that the line index gives to the offset of the mark exactly when there is
no carriage return between the start of the line and the mark; the characters of the two differ by the number of
carriage returns there. -/
theorem extract_position (hmark : marked.count '*' = 1) (hsize : size marked < UInt32.size) :
    ∃ before after p q, marked = before ++ '*' :: after ∧ '*' ∉ before ++ after ∧
      extract marked = .ok (before ++ after, p) ∧
      (ofText (before ++ after)).position? (size before) = .ok q ∧
      (p = q ↔ '\r' ∉ lastLine before) ∧ p.line = q.line ∧
      p.character.toNat + (lastLine before).count '\r' = q.character.toNat := by
  obtain ⟨before, after, rfl, hbefore, hafter⟩ := exists_mark hmark
  have hsize' : size before < UInt32.size := by
    simp only [size_append] at hsize
    omega
  have hall := countP_add_count (lastLine before)
  have hlength := length_lastLine_le before
  have hcharacter : (word ((lastLine before).countP (· ≠ '\r'))).toNat = (lastLine before).countP (· ≠ '\r') :=
    toNat_word (by omega)
  have hindex : (word (lastLine before).length).toNat = (lastLine before).length := toNat_word (by omega)
  refine ⟨before, after, _, _, rfl, by simp [hbefore, hafter], extract_mark hbefore hafter,
    position?_eq_ok_iff.2 ⟨isBoundary_size before after, rfl⟩, ?_⟩
  rw [position_size]
  refine ⟨?_, rfl, ?_⟩
  · rw [Position.mk.injEq, ← UInt32.toNat_inj (b := word (lastLine before).length), hcharacter, hindex,
      ← List.count_eq_zero]
    constructor
    · rintro ⟨-, heq⟩
      omega
    · intro hnone
      exact ⟨rfl, by omega⟩
  · simp only [hcharacter, hindex, hall]

/-- The mark stands on the second line, after a character of several bytes and a carriage return that ends no line. -/
theorem extract_position_return : ∃ marked text p q, marked = "a\r\nä\r*b\r\n".toList ∧
    text = "a\r\nä\rb\r\n".toList ∧ marked.count '*' = 1 ∧ size marked < UInt32.size ∧
    extract marked = .ok (text, p) ∧ (ofText text).position? 6 = .ok q ∧ p ≠ q ∧ p.line = q.line ∧
    p.character.toNat + 1 = q.character.toNat := by
  let front := ['a', '\r', '\n', 'ä', '\r']
  let back := ['b', '\r', '\n']
  have hmark : (front ++ '*' :: back).count '*' = 1 := by decide
  have hsize : size (front ++ '*' :: back) < UInt32.size := by decide
  obtain ⟨before, after, p, q, hsplit, -, hextract, hposition, hiff, hline, hcharacter⟩ :=
    extract_position hmark hsize
  -- the mark divides the text in one way only
  obtain ⟨rfl, -, rfl⟩ := (List.append_cons_inj_of_notMem (by decide) (by decide)).1 hsplit
  refine ⟨_, _, p, q, String.toList_ofList.symm, String.toList_ofList.symm, hmark, hsize, hextract, hposition,
    fun heq => ?_, hline, hcharacter⟩
  exact hiff.1 heq (by decide)

end ServiceLint.Marked
