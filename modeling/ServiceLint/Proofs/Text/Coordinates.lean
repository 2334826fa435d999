import ServiceLint.Proofs.Text.Lines

/-!
# Positions as coordinates

A position counts lines and characters as a walk over the text does, character by character
(`LineIndex.position_scan`). So later offsets have later positions, and a span whose ends lie between
characters always has a location.

Positions and offsets lead back to each other (`LineIndex.position_roundTrip`). There is one kind of offset
that no position leads to: the one between a carriage return and the line feed that it ends a line with.
-/
namespace ServiceLint

namespace Position

theorem lt_irrefl (p : Position) : p.lt p = false := by
  simp [Position.lt]

theorem lt_asymm {p q : Position} (h : p.lt q = true) : q.lt p = false := by
  simp only [Position.lt, Bool.or_eq_true, Bool.and_eq_true, decide_eq_true_eq, beq_iff_eq,
    UInt32.lt_iff_toNat_lt] at h
  simp only [Position.lt, Bool.or_eq_false_iff, Bool.and_eq_false_imp, decide_eq_false_iff_not, beq_iff_eq,
    UInt32.lt_iff_toNat_lt]
  rcases h with h | ⟨h, h'⟩
  · refine ⟨by omega, fun he => ?_⟩
    rw [he] at h
    omega
  · refine ⟨by rw [h]; omega, fun _ => by omega⟩

theorem le_of_lt {p q : Position} (h : p.lt q = true) : p.le q = true := by
  rw [Position.le, lt_asymm h]
  rfl

end Position

namespace Text

/-- The line and character after one more character: a line feed starts a line, and any other character is
one further on its line. -/
def advance (place : Nat × Nat) (c : Char) : Nat × Nat :=
  if c = '\n' then (place.1 + 1, 0) else (place.1, place.2 + 1)

/-- A walk over a text counts its line feeds and the characters of its last line. -/
theorem foldl_advance (a : List Char) : a.foldl advance (0, 0) = (a.count '\n', (lastLine a).length) := by
  induction a using List.reverseRecOn with
  | nil => rfl
  | append_singleton a c ih =>
    rw [List.foldl_concat, ih, List.count_append]
    by_cases hc : c = '\n'
    · rw [hc, lastLine_append_feed]
      rfl
    · rw [lastLine_append_of_ne a hc, List.length_append]
      simp [advance, hc]

/-- The offset lies between a carriage return and the line feed after it. -/
def DividesTerminator (text : List Char) (n : Nat) : Prop :=
  ∃ a b, text = a ++ '\r' :: '\n' :: b ∧ n = size a + 1

theorem dividesTerminator_iff {a b : List Char} :
    DividesTerminator (a ++ b) (size a) ↔ a.getLast? = some '\r' ∧ b.head? = some '\n' := by
  constructor
  · rintro ⟨front, rest, htext, hsize⟩
    rw [List.append_cons] at htext
    obtain ⟨rfl, rfl⟩ := append_inj_size htext (by rw [hsize, size_append]; rfl)
    exact ⟨List.getLast?_concat, rfl⟩
  · rintro ⟨hlast, hhead⟩
    obtain ⟨front, rfl⟩ := List.getLast?_eq_some_iff.1 hlast
    obtain ⟨rest, rfl⟩ := List.head?_eq_some_iff.1 hhead
    exact ⟨front, rest, by simp, size_append front ['\r']⟩

end Text

namespace LineIndex

open Text

variable {text : List Char}

/-- An offset between characters has a position; no other offset has. -/
theorem position?_eq_ok_iff {n : Nat} {p : Position} :
    (ofText text).position? n = .ok p ↔ isBoundary n text = true ∧ (ofText text).position n = p := by
  by_cases h : isBoundary n text = true
  · obtain ⟨a, b, rfl, rfl⟩ := isBoundary_iff.1 h
    rw [position?_size, position_size, Except.ok.injEq]
    exact (and_iff_right h).symm
  · have hnone : (ofText text).position? n = .error (.notBoundary n) := if_neg h
    simp [hnone, h]

theorem word_toNat (w : UInt32) : word w.toNat = w := by
  have := w.toNat_lt
  rw [word, Nat.min_eq_left (by omega), UInt32.ofNat_toNat]

/-- In a text of fewer than UInt32.size bytes the numbers of a position are the counts themselves. -/
theorem toNat_position {a b : List Char} (hsize : size (a ++ b) < UInt32.size) :
    ((ofText (a ++ b)).position (size a)).line.toNat = a.count '\n' ∧
      ((ofText (a ++ b)).position (size a)).character.toNat = (lastLine a).length := by
  have hsa : size a < UInt32.size := by simp only [size_append] at hsize; omega
  rw [position_size]
  exact ⟨toNat_word (Nat.lt_of_le_of_lt (count_feed_le_size a) hsa),
    toNat_word (Nat.lt_of_le_of_lt (length_lastLine_le a) hsa)⟩

/-! ## Order -/

theorem position_lt_of_lt {i j : Nat} (hsize : size text < UInt32.size) (hi : isBoundary i text = true)
    (hj : isBoundary j text = true) (hij : i < j) :
    ((ofText text).position i).lt ((ofText text).position j) = true := by
  obtain ⟨a, b, htext, rfl⟩ := isBoundary_iff.1 hi
  obtain ⟨a', b', htext', rfl⟩ := isBoundary_iff.1 hj
  -- the later cut has more before it
  obtain ⟨mid, rfl⟩ : ∃ mid, a' = a ++ mid := by
    rcases List.append_eq_append_iff.1 (htext.symm.trans htext') with ⟨mid, hmid, -⟩ | ⟨mid, hmid, -⟩
    · exact ⟨mid, hmid⟩
    · rw [hmid, size_append] at hij
      omega
  subst htext'
  have hne : mid ≠ [] := by
    rintro rfl
    rw [List.append_nil] at hij
    omega
  exact position_lt hne hsize

theorem position_le_of_le {i j : Nat} (hsize : size text < UInt32.size) (hi : isBoundary i text = true)
    (hj : isBoundary j text = true) (hij : i ≤ j) :
    ((ofText text).position i).le ((ofText text).position j) = true := by
  rcases Nat.lt_or_eq_of_le hij with hlt | rfl
  · exact Position.le_of_lt (position_lt_of_lt hsize hi hj hlt)
  · rw [Position.le, Position.lt_irrefl]
    rfl

/-- A span is located without fault: its ends lie between characters, and their positions are in order. -/
theorem location?_of_isBoundary {s : Span} (hsize : size text < UInt32.size)
    (hstart : isBoundary s.start text = true) (hstop : isBoundary s.stop text = true)
    (hle : s.start ≤ s.stop) (file : String) :
    (ofText text).location? file s = .ok ((ofText text).location file s) := by
  rw [location?, position?_eq_ok_iff.2 ⟨hstart, rfl⟩, position?_eq_ok_iff.2 ⟨hstop, rfl⟩]
  exact if_pos (position_le_of_le hsize hstart hstop hle)

/-- The position of an offset between characters is what a walk over the text up to there counts: the line
feeds before the offset, and the characters after the last of them. Positions grow strictly with the offset,
and a span that goes forward has a location. -/
theorem position_scan (hsize : size text < UInt32.size) :
    (∀ o, isBoundary o text = true → ∃ p, (ofText text).position? o = .ok p ∧
      (p.line.toNat, p.character.toNat) = (takeBytes o text).foldl advance (0, 0) ∧
      p.line.toNat = (takeBytes o text).count '\n' ∧
      p.character.toNat = (lastLine (takeBytes o text)).length) ∧
    (∀ o₁ o₂ p₁ p₂, (ofText text).position? o₁ = .ok p₁ → (ofText text).position? o₂ = .ok p₂ →
      o₁ < o₂ → p₁.lt p₂ = true) ∧
    ∀ file s, isBoundary s.start text = true → isBoundary s.stop text = true → s.start ≤ s.stop →
      ∃ l, (ofText text).location? file s = .ok l := by
  refine ⟨fun o ho => ⟨_, position?_eq_ok_iff.2 ⟨ho, rfl⟩, ?_⟩, ?_, ?_⟩
  · obtain ⟨a, b, rfl, rfl⟩ := isBoundary_iff.1 ho
    obtain ⟨hline, hcharacter⟩ := toNat_position hsize
    rw [takeBytes_size, foldl_advance, hline, hcharacter]
    exact ⟨rfl, rfl, rfl⟩
  · intro o₁ o₂ p₁ p₂ h₁ h₂ hlt
    obtain ⟨hb₁, rfl⟩ := position?_eq_ok_iff.1 h₁
    obtain ⟨hb₂, rfl⟩ := position?_eq_ok_iff.1 h₂
    exact position_lt_of_lt hsize hb₁ hb₂ hlt
  · exact fun file s hstart hstop hle => ⟨_, location?_of_isBoundary hsize hstart hstop hle file⟩

/-- The last of three lines, after a character of several bytes and a carriage return of its own. -/
theorem position_scan_third : ∃ text p, text = "a\nä\r\nb\rö".toList ∧ size text < UInt32.size ∧
    (ofText text).position? 8 = .ok p ∧ (p.line.toNat, p.character.toNat) = (2, 2) ∧
    ∃ l, (ofText text).location? "m.bal" ⟨2, 8⟩ = .ok l := by
  generalize htext : "a\nä\r\nb\rö".toList = text
  have hsize : size text < UInt32.size := by
    rw [← htext]
    decide +kernel
  have hboundary : isBoundary 2 text = true ∧ isBoundary 8 text = true := by
    rw [← htext]
    decide +kernel
  have hwalk : (takeBytes 8 text).foldl advance (0, 0) = (2, 2) := by
    rw [← htext]
    decide +kernel
  obtain ⟨hposition, -, hlocation⟩ := position_scan hsize
  obtain ⟨p, hp, hpair, -⟩ := hposition 8 hboundary.2
  exact ⟨text, p, rfl, hsize, hp, hpair.trans hwalk, hlocation "m.bal" ⟨2, 8⟩ hboundary.1 hboundary.2 (by decide)⟩

/-! ## There and back -/

/-- The content of a line ends before its terminator, so the position inside the terminator leads nowhere. -/
theorem offset?_divided {a b : List Char} (hsize : size (a ++ '\r' :: '\n' :: b) < UInt32.size) :
    (ofText (a ++ '\r' :: '\n' :: b)).offset?
      ((ofText (a ++ '\r' :: '\n' :: b)).position (size a + 1)) = none := by
  have hposition := toNat_position (a := a ++ ['\r']) (b := '\n' :: b) (by rwa [← List.append_cons])
  rw [← List.append_cons, show size (a ++ ['\r']) = size a + 1 from size_append a ['\r']] at hposition
  have hline : (a ++ ['\r']).count '\n' = a.count '\n' := by simp
  have hreturn : '\n' ∉ ['\r'] := by decide
  have hrest : restOfLine ('\r' :: '\n' :: b) = [] := restOfLine_append_feed b hreturn
  rw [offset?_eq (by simp) (hposition.1.trans hline), hrest, hposition.2,
    lastLine_append_of_ne a (by decide), List.append_nil, if_neg (by simp)]

/-- A position that leads to an offset is the position of that offset. In a text of fewer than UInt32.size
bytes every offset between characters is led back to by its position, but for those inside a line terminator,
to which no position leads. -/
theorem position_roundTrip (text : List Char) :
    (∀ p o, (ofText text).offset? p = some o →
      isBoundary o text = true ∧ (ofText text).position? o = .ok p) ∧
    (size text < UInt32.size → ∀ o, isBoundary o text = true →
      ∃ p, (ofText text).position? o = .ok p ∧
        (DividesTerminator text o → (ofText text).offset? p = none) ∧
        (¬ DividesTerminator text o → (ofText text).offset? p = some o)) := by
  constructor
  · intro p o h
    have hboundary := offset?_isBoundary h
    obtain ⟨a, b, rfl, rfl, hline, hcharacter⟩ := exists_cut_of_offset? h
    refine ⟨hboundary, position?_eq_ok_iff.2 ⟨hboundary, ?_⟩⟩
    rw [position_size, hline, hcharacter, word_toNat, word_toNat]
  · intro hsize o ho
    refine ⟨_, position?_eq_ok_iff.2 ⟨ho, rfl⟩, ?_, fun hwhole => ?_⟩
    · rintro ⟨a, b, rfl, rfl⟩
      exact offset?_divided hsize
    · obtain ⟨a, b, rfl, rfl⟩ := isBoundary_iff.1 ho
      exact offset?_position hsize fun hcut => hwhole (dividesTerminator_iff.2 hcut)

/-- A line that ends with a carriage return after a character of several bytes: no position leads to the
offset in its terminator, while the start of the next line is found again. -/
theorem position_roundTrip_return : ∃ text p q, text = "é\r\nx".toList ∧ size text < UInt32.size ∧
    DividesTerminator text 3 ∧ (ofText text).position? 3 = .ok p ∧ (ofText text).offset? p = none ∧
    ¬ DividesTerminator text 4 ∧ (ofText text).position? 4 = .ok q ∧ (ofText text).offset? q = some 4 := by
  have hinside : DividesTerminator ['é', '\r', '\n', 'x'] 3 := ⟨['é'], ['x'], rfl, rfl⟩
  have houtside : ¬ DividesTerminator ['é', '\r', '\n', 'x'] 4 := fun h =>
    absurd (dividesTerminator_iff (a := ['é', '\r', '\n']) (b := ['x']).1 h) (by decide)
  have hsize : size ['é', '\r', '\n', 'x'] < UInt32.size := by decide
  obtain ⟨-, hback⟩ := position_roundTrip ['é', '\r', '\n', 'x']
  obtain ⟨p, hp, hnone, -⟩ := hback hsize 3 (by decide)
  obtain ⟨q, hq, -, hsome⟩ := hback hsize 4 (by decide)
  exact ⟨_, p, q, String.toList_ofList.symm, hsize, hinside, hp, hnone hinside, houtside, hq, hsome houtside⟩

end LineIndex

end ServiceLint
