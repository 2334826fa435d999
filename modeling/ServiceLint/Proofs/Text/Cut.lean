import ServiceLint.Text.Bytes

/-!
# Cutting a text at byte offsets

Every offset that the analyzer computes is the size of an initial part of the text. Cutting there
gives back exactly that part (`takeBytes_size`, `dropBytes_size`), and a slice between two such
offsets is the stretch between them (`slice_mid`). A slice depends on nothing but that stretch:
`slice_append_left` and `slice_append_right` say so for a text that is extended at either end.
-/
namespace ServiceLint.Text

theorem size_pos {cs : List Char} (h : cs ≠ []) : 0 < size cs := by
  cases cs with
  | nil => exact absurd rfl h
  | cons c cs => have := c.utf8Size_pos; simp only [size_cons]; omega

theorem length_le_size (cs : List Char) : cs.length ≤ size cs := by
  induction cs with
  | nil => simp
  | cons c cs ih => have := c.utf8Size_pos; simp only [List.length_cons, size_cons]; omega

@[simp]
theorem takeBytes_zero (cs : List Char) : takeBytes 0 cs = [] := by
  cases cs <;> simp [takeBytes]

@[simp]
theorem dropBytes_zero (cs : List Char) : dropBytes 0 cs = cs := by
  cases cs <;> simp [dropBytes]

/-! ## At the size of an initial part -/

theorem dropBytes_size_add (a b : List Char) (n : Nat) :
    dropBytes (size a + n) (a ++ b) = dropBytes n b := by
  induction a with
  | nil => simp
  | cons c a ih =>
    have hc := c.utf8Size_pos
    have hz : ¬ c.utf8Size + size a + n = 0 := by omega
    have hs : c.utf8Size + size a + n - c.utf8Size = size a + n := by omega
    simp only [List.cons_append, dropBytes, size_cons, hz, if_false, hs, ih]

@[simp]
theorem dropBytes_size (a b : List Char) : dropBytes (size a) (a ++ b) = b := by
  simpa using dropBytes_size_add a b 0

theorem takeBytes_size_add (a b : List Char) (n : Nat) :
    takeBytes (size a + n) (a ++ b) = a ++ takeBytes n b := by
  induction a with
  | nil => simp
  | cons c a ih =>
    have hc := c.utf8Size_pos
    have hz : ¬ c.utf8Size + size a + n = 0 := by omega
    have hs : c.utf8Size + size a + n - c.utf8Size = size a + n := by omega
    simp only [List.cons_append, takeBytes, size_cons, hz, if_false, hs, ih]

@[simp]
theorem takeBytes_size (a b : List Char) : takeBytes (size a) (a ++ b) = a := by
  simpa using takeBytes_size_add a b 0

/-- A text has one initial part of each size. -/
theorem append_inj_size {a b c d : List Char} (h : a ++ b = c ++ d) (hs : size a = size c) :
    a = c ∧ b = d := by
  have ha : takeBytes (size a) (a ++ b) = a := takeBytes_size a b
  rw [h, hs, takeBytes_size] at ha
  subst ha
  exact ⟨rfl, List.append_cancel_left h⟩

/-- An offset is a boundary when it is the size of an initial part. -/
theorem isBoundary_iff {n : Nat} {cs : List Char} :
    isBoundary n cs = true ↔ ∃ a b, cs = a ++ b ∧ size a = n := by
  induction cs generalizing n with
  | nil =>
    constructor
    · intro h
      simp only [isBoundary, beq_iff_eq] at h
      exact ⟨[], [], rfl, h.symm⟩
    · rintro ⟨a, b, hab, rfl⟩
      obtain ⟨rfl, rfl⟩ := List.append_eq_nil_iff.1 hab.symm
      rfl
  | cons c cs ih =>
    simp only [isBoundary, Bool.or_eq_true, beq_iff_eq, Bool.and_eq_true, decide_eq_true_eq, ih]
    constructor
    · rintro (rfl | ⟨hle, a, b, rfl, hs⟩)
      · exact ⟨[], c :: cs, rfl, rfl⟩
      · exact ⟨c :: a, b, rfl, by simp only [size_cons]; omega⟩
    · rintro ⟨a, b, hab, rfl⟩
      cases a with
      | nil => exact Or.inl rfl
      | cons d a =>
        obtain ⟨rfl, rfl⟩ := List.cons.inj hab
        exact Or.inr ⟨by simp, a, b, rfl, by simp⟩

theorem isBoundary_size (a b : List Char) : isBoundary (size a) (a ++ b) = true :=
  isBoundary_iff.2 ⟨a, b, rfl, rfl⟩

theorem isBoundary_zero (cs : List Char) : isBoundary 0 cs = true :=
  isBoundary_iff.2 ⟨[], cs, rfl, rfl⟩

/-- A boundary of a text is a boundary of any initial part that reaches so far. -/
theorem isBoundary_of_append {n : Nat} {a b : List Char} (h : isBoundary n (a ++ b) = true)
    (hn : n ≤ size a) : isBoundary n a = true := by
  obtain ⟨c, d, hcd, rfl⟩ := isBoundary_iff.1 h
  rcases List.append_eq_append_iff.1 hcd with ⟨mid, rfl, -⟩ | ⟨mid, rfl, -⟩
  · rw [size_append] at hn
    cases mid with
    | nil => simpa using isBoundary_size a []
    | cons c mid =>
      have := size_pos (List.cons_ne_nil c mid)
      omega
  · exact isBoundary_size c mid

theorem size_takeBytes {n : Nat} {cs : List Char} (h : isBoundary n cs = true) :
    size (takeBytes n cs) = n := by
  obtain ⟨a, b, rfl, rfl⟩ := isBoundary_iff.1 h
  rw [takeBytes_size]

/-! ## Slices -/

/-- The slice between two initial parts is what the longer one has more. -/
theorem slice_mid (a b c : List Char) : slice (a ++ (b ++ c)) (size a) (size a + size b) = b := by
  simp [slice]

/-- A slice does not depend on what comes before it. -/
theorem slice_append_right (a b : List Char) (i j : Nat) :
    slice (a ++ b) (size a + i) (size a + j) = slice b i j := by
  have hij : size a + j - (size a + i) = j - i := by omega
  simp only [slice, dropBytes_size_add, hij]

theorem takeBytes_append_of_le {n : Nat} {a : List Char} (b : List Char) (h : n ≤ size a) :
    takeBytes n (a ++ b) = takeBytes n a := by
  induction a generalizing n with
  | nil =>
    obtain rfl : n = 0 := by simpa using h
    simp
  | cons c a ih =>
    by_cases hn : n = 0
    · simp [hn]
    · simp only [size_cons] at h
      simp only [List.cons_append, takeBytes, hn, if_false, ih (show n - c.utf8Size ≤ size a by omega)]

/-- A slice does not depend on what comes after it. -/
theorem slice_append_left {a : List Char} (b : List Char) {i j : Nat} (hi : isBoundary i a = true)
    (hj : j ≤ size a) : slice (a ++ b) i j = slice a i j := by
  obtain ⟨x, y, rfl, rfl⟩ := isBoundary_iff.1 hi
  simp only [size_append] at hj
  simp only [slice, List.append_assoc, dropBytes_size]
  exact takeBytes_append_of_le b (by omega)

/-- What stands before an offset goes up to a lower one, and from there on. -/
theorem takeBytes_append_slice {i j : Nat} {cs : List Char} (h : isBoundary i cs = true) (hij : i ≤ j) :
    takeBytes i cs ++ slice cs i j = takeBytes j cs := by
  obtain ⟨a, b, rfl, rfl⟩ := isBoundary_iff.1 h
  obtain ⟨n, rfl⟩ := Nat.exists_eq_add_of_le hij
  rw [takeBytes_size, slice, dropBytes_size, takeBytes_size_add, Nat.add_sub_cancel_left]

/-- A slice of the initial part that two texts have in common is a slice of both. -/
theorem slice_common {a b c : List Char} {i j : Nat} (hi : isBoundary i (a ++ b) = true) (hij : i ≤ j)
    (hj : j ≤ size a) : slice (a ++ c) i j = slice (a ++ b) i j := by
  have hi' := isBoundary_of_append hi (Nat.le_trans hij hj)
  rw [slice_append_left c hi' hj, slice_append_left b hi' hj]

end ServiceLint.Text
