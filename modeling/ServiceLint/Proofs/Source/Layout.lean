import ServiceLint.Proofs.Source.Scans

/-!
# Where things stand in a text

Spans and tokens are laid out one after the other between two offsets: `InOrder` and `Laid` say so, in
the manner of a cursor that moves from the lower bound to the upper one. Every end of a span is a place
where the text can be cut: between two characters, and never inside a line terminator (`CleanCut`).

The tokens of a text are laid out in it (`Scans.laid`). The rest of this module takes layouts apart:
`laid_append` divides them, `Laid.span` covers a stretch of tokens by one span.
-/
namespace ServiceLint

/-- The text can be cut at the offset: between two characters, and not inside a line terminator. -/
def CleanCut (text : List Char) (n : Nat) : Prop :=
  ∃ a b, text = a ++ b ∧ Text.size a = n ∧ ¬ (a.getLast? = some '\r' ∧ b.head? = some '\n')

theorem CleanCut.isBoundary {text : List Char} {n : Nat} (h : CleanCut text n) :
    Text.isBoundary n text = true := by
  obtain ⟨a, b, rfl, rfl, -⟩ := h
  exact Text.isBoundary_size a b

theorem CleanCut.le_size {text : List Char} {n : Nat} (h : CleanCut text n) : n ≤ Text.size text := by
  obtain ⟨a, b, rfl, rfl, -⟩ := h
  simp

/-- The span covers something, lies between the two offsets and ends at clean cuts. -/
structure Span.Fits (text : List Char) (lo hi : Nat) (s : Span) : Prop where
  lo_le : lo ≤ s.start
  lt : s.start < s.stop
  le_hi : s.stop ≤ hi
  start : CleanCut text s.start
  stop : CleanCut text s.stop

theorem Span.Fits.mono {text : List Char} {lo hi lo' hi' : Nat} {s : Span} (h : s.Fits text lo hi)
    (hlo : lo' ≤ lo) (hhi : hi ≤ hi') : s.Fits text lo' hi' :=
  ⟨Nat.le_trans hlo h.lo_le, h.lt, Nat.le_trans h.le_hi hhi, h.start, h.stop⟩

theorem Span.Fits.self {text : List Char} {lo hi : Nat} {s : Span} (h : s.Fits text lo hi) :
    s.Fits text s.start s.stop :=
  ⟨Nat.le_refl _, h.lt, Nat.le_refl _, h.start, h.stop⟩

/-- The spans stand one after the other between the two offsets. -/
def InOrder (text : List Char) (lo : Nat) : List Span → Nat → Prop
  | [], hi => lo ≤ hi
  | s :: ss, hi => s.Fits text lo s.stop ∧ InOrder text s.stop ss hi

section InOrder

variable {text : List Char} {lo hi : Nat} {ss : List Span}

theorem InOrder.le (h : InOrder text lo ss hi) : lo ≤ hi := by
  induction ss generalizing lo with
  | nil => exact h
  | cons s ss ih =>
    obtain ⟨hs, hss⟩ := h
    have := ih hss
    have := hs.lo_le
    have := hs.lt
    omega

theorem InOrder.mono {lo' hi' : Nat} (h : InOrder text lo ss hi) (hlo : lo' ≤ lo) (hhi : hi ≤ hi') :
    InOrder text lo' ss hi' := by
  induction ss generalizing lo lo' with
  | nil => exact Nat.le_trans hlo (Nat.le_trans h hhi)
  | cons s ss ih => exact ⟨h.1.mono hlo (Nat.le_refl _), ih h.2 (Nat.le_refl _)⟩

/-- A span that fits before some others stands in order with them. -/
theorem InOrder.cons {mid : Nat} {s : Span} (hs : s.Fits text lo mid) (h : InOrder text mid ss hi) :
    InOrder text lo (s :: ss) hi :=
  ⟨⟨hs.lo_le, hs.lt, Nat.le_refl _, hs.start, hs.stop⟩, h.mono hs.le_hi (Nat.le_refl _)⟩

theorem InOrder.append {mid : Nat} {ss' : List Span} (h : InOrder text lo ss mid)
    (h' : InOrder text mid ss' hi) : InOrder text lo (ss ++ ss') hi := by
  induction ss generalizing lo with
  | nil => exact h'.mono h (Nat.le_refl _)
  | cons s ss ih => exact ⟨h.1, ih h.2⟩

/-- Each of the spans fits between the two offsets. -/
theorem InOrder.fits (h : InOrder text lo ss hi) {s : Span} (hs : s ∈ ss) : s.Fits text lo hi := by
  induction ss generalizing lo with
  | nil => cases hs
  | cons s' ss ih =>
    obtain ⟨hfit, hss⟩ := h
    rcases List.mem_cons.1 hs with rfl | hs
    · exact hfit.mono (Nat.le_refl _) hss.le
    · refine (ih hss hs).mono ?_ (Nat.le_refl _)
      have := hfit.lo_le
      have := hfit.lt
      omega

/-- Each of the spans ends before the later ones start. -/
theorem InOrder.pairwise (h : InOrder text lo ss hi) : ss.Pairwise fun a b => a.stop ≤ b.start := by
  induction ss generalizing lo with
  | nil => exact .nil
  | cons s ss ih => exact .cons (fun b hb => (h.2.fits hb).lo_le) (ih h.2)

end InOrder

/-! ## Tokens -/

/-- The token stands in the text where it says, and a name is written as one. -/
structure Token.Stands (text : List Char) (t : Token) : Prop where
  lt : t.start < t.stop
  start : CleanCut text t.start
  stop : CleanCut text t.stop
  slice : Text.slice text t.start t.stop = t.chars
  name : t.isName = true → IsNameText t.chars

/-- A brace or semicolon that was read from a text is a punctuator. -/
theorem Token.Stands.isPunct {text : List Char} {t : Token} {s : String} (h : t.Stands text)
    (hs : ¬ IsNameText s.toList) (ht : t.is s = true) : t.isPunct s = true := by
  simp only [Token.is, Bool.and_eq_true, Bool.or_eq_true, beq_iff_eq] at ht
  obtain ⟨hident | hpunct, htext⟩ := ht
  · exact absurd (h.name (by simp [Token.isName, hident])) (by rw [Token.chars, htext]; exact hs)
  · simp [Token.isPunct, hpunct, htext]

/-- The tokens stand in the text, one after the other between the two offsets. -/
def Laid (text : List Char) (lo : Nat) : List Token → Nat → Prop
  | [], hi => lo ≤ hi
  | t :: ts, hi => lo ≤ t.start ∧ t.Stands text ∧ Laid text t.stop ts hi

section Laid

variable {text : List Char} {lo hi : Nat} {ts us : List Token} {t : Token}

theorem laid_append : Laid text lo (ts ++ us) hi ↔ ∃ mid, Laid text lo ts mid ∧ Laid text mid us hi := by
  induction ts generalizing lo with
  | nil =>
    simp only [List.nil_append, Laid]
    constructor
    · exact fun h => ⟨lo, Nat.le_refl _, h⟩
    · rintro ⟨mid, hle, h⟩
      cases us with
      | nil => exact Nat.le_trans hle h
      | cons u us => exact ⟨Nat.le_trans hle h.1, h.2⟩
  | cons t ts ih =>
    simp only [List.cons_append, Laid, ih]
    constructor
    · rintro ⟨h₁, h₂, mid, h₃, h₄⟩
      exact ⟨mid, ⟨h₁, h₂, h₃⟩, h₄⟩
    · rintro ⟨mid, ⟨h₁, h₂, h₃⟩, h₄⟩
      exact ⟨h₁, h₂, mid, h₃, h₄⟩

theorem Laid.le (h : Laid text lo ts hi) : lo ≤ hi := by
  induction ts generalizing lo with
  | nil => exact h
  | cons t ts ih =>
    obtain ⟨hlo, ht, hts⟩ := h
    have := ih hts
    have := ht.lt
    omega

/-- Every token takes a byte. -/
theorem Laid.length_le (h : Laid text lo ts hi) : lo + ts.length ≤ hi := by
  induction ts generalizing lo with
  | nil => exact h
  | cons t ts ih =>
    obtain ⟨hlo, ht, hts⟩ := h
    have := ih hts
    have := ht.lt
    rw [List.length_cons]
    omega

theorem Laid.stands (h : Laid text lo ts hi) (ht : t ∈ ts) : t.Stands text := by
  induction ts generalizing lo with
  | nil => cases ht
  | cons u us ih =>
    rcases List.mem_cons.1 ht with rfl | ht
    · exact h.2.1
    · exact ih h.2.2 ht

/-- Tokens are laid out from where the first one starts. -/
theorem Laid.from_head (h : Laid text lo ts hi) (hf : ts.head? = some t) :
    lo ≤ t.start ∧ Laid text t.start ts hi := by
  obtain ⟨more, rfl⟩ := List.head?_eq_some_iff.1 hf
  exact ⟨h.1, Nat.le_refl _, h.2⟩

theorem Laid.mono {lo' : Nat} (h : Laid text lo ts hi) (hlo : lo' ≤ lo) : Laid text lo' ts hi := by
  have := laid_append.2 ⟨lo, (show Laid text lo' [] lo from hlo), h⟩
  rwa [List.nil_append] at this

/-- A token fits where it stands. -/
theorem Laid.head (h : Laid text lo (t :: ts) hi) : t.span.Fits text lo t.stop :=
  ⟨h.1, h.2.1.lt, Nat.le_refl _, h.2.1.start, h.2.1.stop⟩

/-- Up to a token, tokens are laid out before it; from it on, after it. -/
theorem Laid.cut (h : Laid text lo (ts ++ t :: us) hi) :
    Laid text lo ts t.start ∧ t.Stands text ∧ Laid text t.stop us hi := by
  obtain ⟨mid, h₁, h₂, h₃, h₄⟩ := laid_append.1 h
  refine ⟨?_, h₃, h₄⟩
  have := laid_append.2 ⟨mid, h₁, (show Laid text mid [] t.start from h₂)⟩
  rwa [List.append_nil] at this

/-- Some of the tokens stand in the text one after the other, too. -/
theorem Laid.sublist (h : us.Sublist ts) (hl : Laid text lo ts hi) : Laid text lo us hi := by
  induction h generalizing lo with
  | slnil => exact hl
  | cons t _ ih => exact (ih hl.2.2).mono (Nat.le_trans hl.1 (Nat.le_of_lt hl.2.1.lt))
  | cons_cons t _ ih => exact ⟨hl.1, hl.2.1, ih hl.2.2⟩

/-- The span from the first to the last of some tokens fits where they stand. -/
theorem Laid.span {first last : Token} (h : Laid text lo ts hi) (hf : ts.head? = some first)
    (hl : ts.getLast? = some last) : Span.Fits text lo hi ⟨first.start, last.stop⟩ := by
  obtain ⟨more, rfl⟩ := List.head?_eq_some_iff.1 hf
  obtain ⟨front, hfront⟩ := List.getLast?_eq_some_iff.1 hl
  have hlast : Laid text lo (front ++ last :: []) hi := by rwa [← hfront]
  obtain ⟨-, hls, hend⟩ := hlast.cut
  obtain ⟨hlo, hfs, hmore⟩ := h
  refine ⟨hlo, ?_, hend, hfs.start, hls.stop⟩
  show first.start < last.stop
  have hlt := hfs.lt
  -- the last token is the first one, or comes after it
  rcases List.mem_cons.1 (List.mem_of_getLast? hl) with rfl | hmem
  · exact hls.lt
  · obtain ⟨a, b, rfl⟩ := List.append_of_mem hmem
    have := (hmore.cut).1.le
    have := hls.lt
    omega

/-- What reaches from the first token through a later one fits, and the rest is laid out after it. -/
theorem Laid.spanTo {first : Token} (h : Laid text lo (ts ++ t :: us) hi)
    (hf : (ts ++ t :: us).head? = some first) :
    Span.Fits text lo t.stop ⟨first.start, t.stop⟩ ∧ Laid text t.stop us hi := by
  obtain ⟨hfront, ht, hrest⟩ := h.cut
  have hused : Laid text lo (ts ++ [t]) t.stop :=
    laid_append.2 ⟨_, hfront, Nat.le_refl _, ht, Nat.le_refl _⟩
  refine ⟨hused.span ?_ List.getLast?_concat, hrest⟩
  rw [← hf]
  cases ts <;> rfl

end Laid

/-! ## The tokens of a text -/

/-- A token that was read stands in the text that it was read from. -/
theorem Scans.stands {text cs rest : List Char} {o p : Nat} {ts : List Token} {t : Token}
    (pre : List Char) (h : Scans o cs ts p rest) (htext : text = pre ++ cs) (ho : o = Text.size pre)
    (ht : t ∈ ts) : t.Stands text := by
  obtain ⟨a, c, tail, b, hcs, hstart, hspace, hhead, hlex⟩ := h.mem_lexes ht
  have hreturn : c ≠ '\r' := by rintro rfl; revert hspace; decide
  have hfeed : c ≠ '\n' := by rintro rfl; revert hspace; decide
  obtain ⟨w, hw⟩ := List.head?_eq_some_iff.1 hhead
  have hpre : Text.size (pre ++ a) = t.start := by rw [Text.size_append, hstart, ho]
  have hsplit : text = (pre ++ a) ++ (t.chars ++ b) := by rw [htext, hcs, List.append_assoc]
  refine ⟨h.start_lt_stop ht, ⟨pre ++ a, t.chars ++ b, hsplit, hpre, ?_⟩,
    ⟨pre ++ a ++ t.chars, b, by rw [hsplit]; simp, ?_, ?_⟩, ?_, fun hname => ?_⟩
  · rintro ⟨-, hb⟩
    rw [hw] at hb
    exact hfeed (Option.some.inj hb)
  · rw [Text.size_append, hpre, Token.stop_eq]
  · rintro ⟨hl, -⟩
    refine hlex.getLast?_ne_return hreturn ?_
    rw [hw, List.getLast?_append] at hl
    rw [hw]
    simpa [List.getLast?_cons] using hl
  · rw [hsplit, ← hpre, Token.stop_eq, ← hpre]
    exact Text.slice_mid _ _ _
  · refine hlex.isNameText ?_
    simpa [Token.isName] using hname

theorem Scans.laid {text cs rest : List Char} {o p : Nat} {ts : List Token} (pre : List Char)
    (h : Scans o cs ts p rest) (htext : text = pre ++ cs) (ho : o = Text.size pre) :
    Laid text o ts p := by
  have hpair := h.pairwise
  have hstands : ∀ t ∈ ts, t.Stands text := fun t ht => h.stands pre htext ho ht
  have hlow : ∀ t ∈ ts, o ≤ t.start := fun t ht => h.start_le ht
  have hhigh : ∀ t ∈ ts, t.stop ≤ p := by
    intro t ht
    obtain ⟨_, _, _, _, hp⟩ := h.mem ht
    exact hp
  have hop : o ≤ p := by
    obtain ⟨_, _, hp⟩ := h.suffix
    omega
  clear h htext ho
  induction ts generalizing o with
  | nil => exact hop
  | cons t ts ih =>
    obtain ⟨hafter, hpair⟩ := List.pairwise_cons.1 hpair
    refine ⟨hlow t List.mem_cons_self, hstands t List.mem_cons_self, ih hpair ?_ hafter ?_ ?_⟩
    · exact fun u hu => hstands u (List.mem_cons_of_mem _ hu)
    · exact fun u hu => hhigh u (List.mem_cons_of_mem _ hu)
    · exact hhigh t List.mem_cons_self

/-- The tokens of a text are laid out in it. -/
theorem tokenize_laid {text : List Char} {tokens : List Token} (h : tokenize text = .ok tokens) :
    Laid text 0 tokens (Text.size text) := by
  have := (scan_eq_ok_iff.1 h).laid [] rfl rfl
  rwa [Nat.zero_add] at this

/-- What a given text is read to can be found by computing, without a way to compare errors. -/
theorem eq_ok_of_toOption {ε α : Type} {x : Except ε α} {a : α} (h : x.toOption = some a) : x = .ok a := by
  cases x with
  | error e => cases h
  | ok b => exact congrArg Except.ok (Option.some.inj h)

/-- What a given text fails with can be found by computing, without a way to compare results. -/
theorem eq_error_of_decide {ε α : Type} [DecidableEq ε] {x : Except ε α} {e : ε}
    (h : (match x with | .error e' => decide (e' = e) | .ok _ => false) = true) : x = .error e := by
  cases x with
  | error e' => exact congrArg Except.error (of_decide_eq_true h)
  | ok a => cases h

end ServiceLint
