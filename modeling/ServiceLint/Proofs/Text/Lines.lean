import Mathlib.Data.List.Basic
import Mathlib.Data.List.Induction
import ServiceLint.Text.LineIndex
import ServiceLint.Text.Pieces
import ServiceLint.Proofs.Text.Cut
import ServiceLint.Proofs.Text.Search

/-!
# Positions and offsets

For a text cut into `a ++ b`, the position of the cut has as line the number of line feeds in `a` and
as character the length of the last line of `a` (`position_size`). Positions grow strictly with the
offset (`position_lt`), and each leads back to its offset unless the cut falls between a carriage
return and the line feed after it (`offset?_position`). All of this is for texts whose size fits in a
32-bit word, since larger counts are not told apart.

The way back is described at a cut too: `offset?_eq` says which offsets a line has, and every offset that
a position leads to is such a cut (`exists_cut_of_offset?`).
-/
namespace ServiceLint

namespace Text

/-- The last line of a text, which starts after its last line feed. -/
def lastLine (cs : List Char) : List Char := afterLast '\n' cs

@[simp]
theorem lastLine_nil : lastLine [] = [] := rfl

theorem lastLine_append_feed (a : List Char) : lastLine (a ++ ['\n']) = [] := by
  simp [lastLine, afterLast]

theorem lastLine_append_of_ne {c : Char} (a : List Char) (h : c ≠ '\n') :
    lastLine (a ++ [c]) = lastLine a ++ [c] := by
  simp [lastLine, afterLast, h]

/-- The last line ends the text. -/
theorem exists_append_lastLine (a : List Char) : ∃ front, a = front ++ lastLine a :=
  ⟨(a.reverse.dropWhile (· ≠ '\n')).reverse, by
    rw [lastLine, afterLast, ← List.reverse_append, List.takeWhile_append_dropWhile,
      List.reverse_reverse]⟩

/-- Text without a line feed makes the last line longer. -/
theorem lastLine_append_of_notMem {a b : List Char} (h : '\n' ∉ b) :
    lastLine (a ++ b) = lastLine a ++ b := by
  induction b using List.reverseRecOn with
  | nil => simp
  | append_singleton b c ih =>
    simp only [List.mem_append, List.mem_singleton, not_or] at h
    rw [← List.append_assoc, lastLine_append_of_ne _ (Ne.symm h.2), ih h.1, List.append_assoc]

theorem dropReturn_return (cs : List Char) : dropReturn (cs ++ ['\r']) = cs := by
  simp [dropReturn]

theorem dropReturn_concat {c : Char} (h : c ≠ '\r') (cs : List Char) : dropReturn (cs ++ [c]) = cs ++ [c] := by
  unfold dropReturn
  split
  · next heq => simp_all
  · rfl

theorem dropReturn_prefix (cs : List Char) : dropReturn cs <+: cs := by
  obtain rfl | ⟨front, c, rfl⟩ := List.eq_nil_or_concat' cs
  · exact List.nil_prefix
  · by_cases hc : c = '\r'
    · rw [hc, dropReturn_return]
      exact List.prefix_append front _
    · exact ⟨[], by rw [List.append_nil, dropReturn_concat hc]⟩

/-- What the first line of a text holds, up to its terminator. -/
def restOfLine (cs : List Char) : List Char :=
  if '\n' ∈ cs then dropReturn (cs.takeWhile (· ≠ '\n')) else cs

theorem restOfLine_of_notMem {cs : List Char} (h : '\n' ∉ cs) : restOfLine cs = cs := if_neg h

theorem restOfLine_append_feed {line : List Char} (rest : List Char) (h : '\n' ∉ line) :
    restOfLine (line ++ '\n' :: rest) = dropReturn line := by
  have hall : ∀ c ∈ line, decide (c ≠ '\n') = true := by
    intro c hc
    rw [decide_eq_true_eq]
    rintro rfl
    exact h hc
  rw [restOfLine, if_pos (by simp), List.takeWhile_append_of_pos hall]
  simp

theorem restOfLine_prefix (cs : List Char) : restOfLine cs <+: cs := by
  unfold restOfLine
  split
  · have hdrop := dropReturn_prefix (cs.takeWhile (· ≠ '\n'))
    exact hdrop.trans (List.takeWhile_prefix _)
  · exact List.prefix_rfl

theorem feed_notMem_restOfLine (cs : List Char) : '\n' ∉ restOfLine cs := by
  by_cases h : '\n' ∈ cs
  · obtain ⟨line, rest, rfl, hline⟩ := List.eq_append_cons_of_mem h
    rw [restOfLine_append_feed rest hline]
    have hdrop := dropReturn_prefix line
    exact fun hmem => hline (hdrop.subset hmem)
  · rwa [restOfLine_of_notMem h]

end Text

namespace LineIndex

open Text

/-! ## Where lines start -/

theorem startsAfter_append (o : Nat) (a b : List Char) :
    startsAfter o (a ++ b) = startsAfter o a ++ startsAfter (o + size a) b := by
  induction a generalizing o with
  | nil => simp [startsAfter]
  | cons c a ih =>
    by_cases hc : c = '\n' <;> simp [startsAfter, hc, ih, Nat.add_assoc]

theorem length_startsAfter (o : Nat) (a : List Char) : (startsAfter o a).length = a.count '\n' := by
  induction a generalizing o with
  | nil => rfl
  | cons c a ih => by_cases hc : c = '\n' <;> simp [startsAfter, hc, ih]

/-- A line starts after the beginning of the text and not after its end. -/
theorem mem_startsAfter {o x : Nat} {a : List Char} (h : x ∈ startsAfter o a) :
    o < x ∧ x ≤ o + size a := by
  induction a generalizing o with
  | nil => cases h
  | cons c a ih =>
    have hc := c.utf8Size_pos
    have hrec : x ∈ startsAfter (o + c.utf8Size) a → o < x ∧ x ≤ o + size (c :: a) := by
      intro hx
      have := ih hx
      simp only [size_cons]
      omega
    by_cases hn : c = '\n'
    · simp only [startsAfter, hn, if_true, List.mem_cons] at h
      subst hn
      rcases h with rfl | h
      · simp only [size_cons]; omega
      · exact hrec h
    · simp only [startsAfter, hn, if_false] at h
      exact hrec h

/-- Each line starts after the ones before it. -/
theorem starts_pairwise (text : List Char) : (ofText text).starts.Pairwise (· < ·) := by
  have hafter : ∀ (a : List Char) (o : Nat), (startsAfter o a).Pairwise (· < ·) := by
    intro a
    induction a with
    | nil => exact fun o => List.Pairwise.nil
    | cons c a ih =>
      intro o
      simp only [startsAfter]
      split
      · exact List.Pairwise.cons (fun x hx => (mem_startsAfter hx).1) (ih _)
      · exact ih _
  exact List.Pairwise.cons (fun x hx => (mem_startsAfter hx).1) (hafter text 0)

/-- The last line of `a` starts where the text before it ends. -/
theorem getLast?_starts (a : List Char) :
    (0 :: startsAfter 0 a).getLast? = some (size a - size (lastLine a)) := by
  induction a using List.reverseRecOn with
  | nil => rfl
  | append_singleton a c ih =>
    rw [startsAfter_append, ← List.cons_append]
    by_cases hc : c = '\n'
    · subst hc
      simp only [startsAfter, if_true, List.getLast?_concat, lastLine_append_feed]
      simp
    · have hs : size a + c.utf8Size - (size (lastLine a) + c.utf8Size) =
        size a - size (lastLine a) := by omega
      simpa [startsAfter, hc, lastLine_append_of_ne a hc, hs] using ih

theorem getElem?_starts (a b : List Char) :
    (ofText (a ++ b)).starts[a.count '\n']? = some (size a - size (lastLine a)) := by
  have hlen : (0 :: startsAfter 0 a).length = a.count '\n' + 1 := by
    simp [length_startsAfter]
  have hlast := getLast?_starts a
  rw [List.getLast?_eq_getElem?, hlen, Nat.add_sub_cancel] at hlast
  rw [ofText, startsAfter_append, ← List.cons_append, List.getElem?_append_left (by omega), hlast]

theorem takeWhile_starts (a b : List Char) :
    (ofText (a ++ b)).starts.takeWhile (· ≤ size a) = 0 :: startsAfter 0 a := by
  have hall : ∀ x ∈ 0 :: startsAfter 0 a, decide (x ≤ size a) = true := by
    intro x hx
    rcases List.mem_cons.1 hx with rfl | hx
    · simp
    · have := mem_startsAfter hx
      simp only [decide_eq_true_eq]
      omega
  rw [ofText, startsAfter_append, ← List.cons_append, List.takeWhile_append_of_pos hall]
  cases hb : startsAfter (0 + size a) b with
  | nil => simp
  | cons x xs =>
    have := mem_startsAfter (a := b) (x := x) (o := 0 + size a) (hb ▸ List.mem_cons_self)
    have hx : decide (x ≤ size a) = false := by simp only [decide_eq_false_iff_not]; omega
    simp [hx]

/-! ## The position of an offset -/

/-- The search finds the line of a cut: it has as many lines before it as there are line feeds. -/
theorem lineOf_size (a b : List Char) : (ofText (a ++ b)).lineOf (size a) = a.count '\n' := by
  rw [lineOf_eq (starts_pairwise (a ++ b)), takeWhile_starts, List.length_cons, Nat.add_sub_cancel, length_startsAfter]

/-- The position of a cut: the line feeds before it, and the characters of its line before it. The line is in the
table, and the text has the slice from its start. -/
theorem position?_size (a b : List Char) :
    (ofText (a ++ b)).position? (size a) = .ok ⟨word (a.count '\n'), word (lastLine a).length⟩ := by
  obtain ⟨front, hf⟩ := exists_append_lastLine a
  have hsz : size a = size front + size (lastLine a) := by
    rw [← size_append, ← hf]
  have hstart : (ofText (a ++ b)).lineStart? (a.count '\n') = some (size front) := by
    rw [lineStart?, getElem?_starts]
    congr 1
    omega
  have htext : a ++ b = front ++ (lastLine a ++ b) := by rw [← List.append_assoc, ← hf]
  have hslice : slice? (a ++ b) (size front) (size a) = some (lastLine a) := by
    have hfront : isBoundary (size front) (a ++ b) = true := htext ▸ isBoundary_size front _
    have hmid := slice_mid front (lastLine a) b
    rw [← List.append_assoc, ← hf, ← hsz] at hmid
    rw [slice?, if_pos ⟨by omega, hfront, isBoundary_size a b⟩, hmid]
  have hall : (ofText (a ++ b)).text = a ++ b := rfl
  simp only [position?, hall, isBoundary_size, if_true, lineOf_size, hstart, hslice]

theorem position_size (a b : List Char) :
    (ofText (a ++ b)).position (size a) = ⟨word (a.count '\n'), word (lastLine a).length⟩ := by
  rw [position, position?_size]
  rfl

theorem toNat_word {n : Nat} (h : n < UInt32.size) : (word n).toNat = n := by
  have hmin : min n 4294967295 = n := Nat.min_eq_left (Nat.le_of_lt_succ h)
  rw [word, hmin]
  exact UInt32.toNat_ofNat_of_lt h

theorem word_lt {m n : Nat} (h : m < n) (hn : n < UInt32.size) : word m < word n := by
  rw [UInt32.lt_iff_toNat_lt, toNat_word hn, toNat_word (by omega)]
  exact h

theorem count_feed_le_size (a : List Char) : a.count '\n' ≤ size a :=
  Nat.le_trans List.count_le_length (length_le_size a)

theorem size_lastLine_le (a : List Char) : size (lastLine a) ≤ size a := by
  obtain ⟨front, hf⟩ := exists_append_lastLine a
  have := congrArg size hf
  simp only [size_append] at this
  omega

theorem length_lastLine_le (a : List Char) : (lastLine a).length ≤ size a :=
  Nat.le_trans (length_le_size _) (size_lastLine_le a)

/-- Positions grow strictly with the offset. -/
theorem position_lt {a b c : List Char} (hb : b ≠ []) (hsize : size (a ++ b ++ c) < UInt32.size) :
    ((ofText (a ++ b ++ c)).position (size a)).lt
      ((ofText (a ++ b ++ c)).position (size (a ++ b))) = true := by
  have hsa : size (a ++ b) < UInt32.size := by simp only [size_append] at *; omega
  have hcount := Nat.lt_of_le_of_lt (count_feed_le_size (a ++ b)) hsa
  have hlen := Nat.lt_of_le_of_lt (length_lastLine_le (a ++ b)) hsa
  rw [position_size (a ++ b) c, List.append_assoc, position_size a (b ++ c)]
  simp only [Position.lt, Bool.or_eq_true, decide_eq_true_eq, Bool.and_eq_true, beq_iff_eq]
  by_cases hn : '\n' ∈ b
  · -- a line feed in between: the line number grows
    refine Or.inl (word_lt ?_ hcount)
    have := List.count_pos_iff.2 hn
    simp only [List.count_append]
    omega
  · -- the same line, with more characters before the second offset
    refine Or.inr ⟨by simp [List.count_append, List.count_eq_zero_of_not_mem hn], word_lt ?_ hlen⟩
    have := List.length_pos_iff.2 hb
    rw [lastLine_append_of_notMem hn, List.length_append]
    omega

/-! ## Back to the offset -/

theorem head?_startsAfter_of_notMem {o : Nat} {b : List Char} (h : '\n' ∉ b) :
    (startsAfter o b).head? = none := by
  rw [List.head?_eq_none_iff, ← List.length_eq_zero_iff, length_startsAfter]
  exact List.count_eq_zero_of_not_mem h

theorem head?_startsAfter_append_feed {o : Nat} {f : List Char} (b : List Char) (h : '\n' ∉ f) :
    (startsAfter o (f ++ '\n' :: b)).head? = some (o + size f + 1) := by
  have hf : startsAfter o f = [] := by
    rw [← List.length_eq_zero_iff, length_startsAfter]
    exact List.count_eq_zero_of_not_mem h
  simp [startsAfter_append, hf, startsAfter, show '\n'.utf8Size = 1 from rfl]

/-- Where the line after a cut starts, if there is one. -/
theorem getElem?_starts_succ (a b : List Char) :
    (ofText (a ++ b)).starts[a.count '\n' + 1]? = (startsAfter (size a) b).head? := by
  have hlen : (0 :: startsAfter 0 a).length = a.count '\n' + 1 := by
    simp [length_startsAfter]
  rw [ofText, startsAfter_append, ← List.cons_append, List.getElem?_append_right (by omega), hlen]
  simp [List.head?_eq_getElem?]

/-- The byte before a line feed is a carriage return exactly when the character is. -/
theorem slice_before_feed {x y : List Char} :
    (0 < size x && slice (x ++ '\n' :: y) (size x - 1) (size x) == ['\r']) = true ↔
      x.getLast? = some '\r' := by
  obtain rfl | ⟨g, c, rfl⟩ := List.eq_nil_or_concat' x
  · simp
  · have hc := c.utf8Size_pos
    have hpos : 0 < size g + c.utf8Size := by omega
    have hleft : size (g ++ [c]) - 1 = size g + (c.utf8Size - 1) := by simp; omega
    have hright : size (g ++ [c]) = size g + c.utf8Size := by simp
    rw [hleft, hright, List.append_assoc, slice_append_right, List.getLast?_concat]
    simp only [hpos, decide_true, Bool.true_and, beq_iff_eq, Option.some.injEq]
    by_cases hone : c.utf8Size = 1
    · -- a character of one byte is the slice itself
      have hslice : slice ([c] ++ '\n' :: y) (c.utf8Size - 1) c.utf8Size = [c] := by
        simp [slice, hone, takeBytes]
      rw [hslice, List.singleton_inj]
    · -- a longer one is passed over, and the slice is the line feed
      have hz : c.utf8Size - 1 ≠ 0 := by omega
      have hw : c.utf8Size - (c.utf8Size - 1) = 1 := by omega
      have hne : c ≠ '\r' := by rintro rfl; exact hone rfl
      simp [slice, dropBytes, takeBytes, hz, hw, hne]

/-- The line of a cut ends where the rest of it ends, unless the cut divides the terminator. -/
theorem lineEnd_eq {a b : List Char} (hcut : ¬ (a.getLast? = some '\r' ∧ b.head? = some '\n')) :
    (ofText (a ++ b)).lineEnd (a.count '\n') = size (a ++ restOfLine b) := by
  simp only [lineEnd, getElem?_starts_succ]
  by_cases hn : '\n' ∈ b
  · obtain ⟨f, b', rfl, hfree⟩ := List.eq_append_cons_of_mem hn
    simp only [head?_startsAfter_append_feed b' hfree, Nat.add_sub_cancel, ← size_append,
      restOfLine_append_feed b' hfree]
    rw [show (ofText (a ++ (f ++ '\n' :: b'))).text = (a ++ f) ++ '\n' :: b' by simp [ofText]]
    simp only [slice_before_feed]
    obtain rfl | ⟨f', c, rfl⟩ := List.eq_nil_or_concat' f
    · -- what stands before the line feed stands before the cut
      rw [List.append_nil, if_neg fun h => hcut ⟨h, rfl⟩]
      simp [dropReturn]
    · rw [← List.append_assoc, List.getLast?_concat]
      by_cases hc : c = '\r'
      · rw [if_pos (by rw [hc]), hc, dropReturn_return]
        simp [show '\r'.utf8Size = 1 from rfl]
      · rw [if_neg (by simpa using hc), dropReturn_concat hc, List.append_assoc]
  · simp only [head?_startsAfter_of_notMem hn, restOfLine_of_notMem hn]
    rfl

/-- The offsets that positions on the line of a cut lead to: one before each character of the line, and one
before its terminator. -/
theorem offset?_eq {a b : List Char} {p : Position}
    (hcut : ¬ (a.getLast? = some '\r' ∧ b.head? = some '\n')) (hline : p.line.toNat = a.count '\n') :
    (ofText (a ++ b)).offset? p =
      if p.character.toNat ≤ (lastLine a ++ restOfLine b).length then
        some (size a - size (lastLine a) + size ((lastLine a ++ restOfLine b).take p.character.toNat))
      else none := by
  obtain ⟨front, hf⟩ := exists_append_lastLine a
  obtain ⟨rest, hrest⟩ := restOfLine_prefix b
  have hsz : size a = size front + size (lastLine a) := by rw [← size_append, ← hf]
  have hstart : size a - size (lastLine a) = size front := by omega
  have hcontent : slice (a ++ b) (size front) (size (a ++ restOfLine b)) = lastLine a ++ restOfLine b := by
    have hslice := slice_mid front (lastLine a ++ restOfLine b) rest
    have hall : front ++ (lastLine a ++ restOfLine b ++ rest) = a ++ b := by
      rw [List.append_assoc, hrest, ← List.append_assoc, ← hf]
    have hstop : size front + size (lastLine a ++ restOfLine b) = size (a ++ restOfLine b) := by
      simp only [size_append, hsz, Nat.add_assoc]
    rwa [hall, hstop] at hslice
  simp only [offset?, lineStart?, hline, getElem?_starts, hstart, Option.bind_some, lineEnd_eq hcut]
  rw [show (ofText (a ++ b)).text = a ++ b from rfl, hcontent]

/-- The position of a cut leads back to it, unless the cut divides a line terminator. -/
theorem offset?_position {a b : List Char} (hsize : size (a ++ b) < UInt32.size)
    (hcut : ¬ (a.getLast? = some '\r' ∧ b.head? = some '\n')) :
    (ofText (a ++ b)).offset? ((ofText (a ++ b)).position (size a)) = some (size a) := by
  have hsa : size a < UInt32.size := by simp only [size_append] at hsize; omega
  have hcount := Nat.lt_of_le_of_lt (count_feed_le_size a) hsa
  have hlen := Nat.lt_of_le_of_lt (length_lastLine_le a) hsa
  have hle := size_lastLine_le a
  rw [position_size, offset?_eq hcut (toNat_word hcount)]
  simp [toNat_word hlen, hle]

/-! ## Every offset is a cut -/

/-- A line after the first one starts after a line feed. -/
theorem exists_cut_of_getElem?_startsAfter {o n i : Nat} {cs : List Char}
    (h : (startsAfter o cs)[i]? = some n) :
    ∃ a b, cs = a ++ '\n' :: b ∧ n = o + size a + 1 ∧ a.count '\n' = i := by
  induction cs generalizing o i with
  | nil => cases h
  | cons c cs ih =>
    by_cases hc : c = '\n'
    · subst hc
      simp only [startsAfter, if_true] at h
      cases i with
      | zero => exact ⟨[], cs, rfl, (Option.some.inj h).symm, rfl⟩
      | succ i =>
        obtain ⟨a, b, rfl, rfl, rfl⟩ := ih (by simpa using h)
        exact ⟨'\n' :: a, b, rfl, by simp only [size_cons]; omega, by simp⟩
    · simp only [startsAfter, if_neg hc] at h
      obtain ⟨a, b, rfl, rfl, rfl⟩ := ih h
      exact ⟨c :: a, b, rfl, by simp only [size_cons]; omega, by simp [hc]⟩

/-- A line starts at a cut with as many line feeds before it as there are lines. -/
theorem exists_cut_of_lineStart? {text : List Char} {line n : Nat}
    (h : (ofText text).lineStart? line = some n) :
    ∃ a b, text = a ++ b ∧ size a = n ∧ a.count '\n' = line ∧ lastLine a = [] := by
  cases line with
  | zero => exact ⟨[], text, rfl, Option.some.inj h, rfl, rfl⟩
  | succ line =>
    have htail : (startsAfter 0 text)[line]? = some n := by simpa [lineStart?, ofText] using h
    obtain ⟨a, b, rfl, rfl, rfl⟩ := exists_cut_of_getElem?_startsAfter htail
    refine ⟨a ++ ['\n'], b, by simp, ?_, by simp, lastLine_append_feed a⟩
    simp [show '\n'.utf8Size = 1 from rfl]

/-- A position leads to the cut that has its line and character. -/
theorem exists_cut_of_offset? {text : List Char} {p : Position} {n : Nat}
    (h : (ofText text).offset? p = some n) :
    ∃ a b, text = a ++ b ∧ size a = n ∧ a.count '\n' = p.line.toNat ∧
      (lastLine a).length = p.character.toNat := by
  obtain ⟨start, hstart, -⟩ := Option.bind_eq_some_iff.1 h
  obtain ⟨a, b, rfl, -, hline, hempty⟩ := exists_cut_of_lineStart? hstart
  -- no terminator is divided where a line starts
  have hcut : ¬ (a.getLast? = some '\r' ∧ b.head? = some '\n') := by
    rintro ⟨hlast, -⟩
    obtain ⟨g, rfl⟩ := List.getLast?_eq_some_iff.1 hlast
    rw [lastLine_append_of_ne g (by decide)] at hempty
    simp at hempty
  rw [offset?_eq hcut hline.symm, hempty, List.nil_append] at h
  split at h
  · next hle =>
    obtain ⟨rest, hrest⟩ := restOfLine_prefix b
    have hfree : '\n' ∉ (restOfLine b).take p.character.toNat := fun hmem =>
      feed_notMem_restOfLine b (List.mem_of_mem_take hmem)
    refine ⟨a ++ (restOfLine b).take p.character.toNat, (restOfLine b).drop p.character.toNat ++ rest,
      ?_, ?_, ?_, ?_⟩
    · rw [List.append_assoc, ← List.append_assoc (List.take _ _), List.take_append_drop, hrest]
    · simpa using h
    · rw [List.count_append, hline, List.count_eq_zero_of_not_mem hfree, Nat.add_zero]
    · rw [lastLine_append_of_notMem hfree, hempty, List.nil_append, List.length_take, Nat.min_eq_left hle]
  · cases h

/-- A position never leads into a character. -/
theorem offset?_isBoundary {text : List Char} {p : Position} {n : Nat}
    (h : (ofText text).offset? p = some n) : isBoundary n text = true := by
  obtain ⟨a, b, rfl, rfl, -⟩ := exists_cut_of_offset? h
  exact isBoundary_size a b

end LineIndex

end ServiceLint
