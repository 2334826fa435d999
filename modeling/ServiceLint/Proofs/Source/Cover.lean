import Mathlib.Data.List.Basic
import ServiceLint.Proofs.Source.Layout

/-!
# What tokens leave out

The tokens of a text cover it but for white space and comments (`tokenize_covers`): each token is a stretch of
the text that looks as its kind says, they stand one after the other, and what stands before, between and after
them is a gap, `IsGap`. What a comment is depends on what follows it, since a comment goes on to the next line
feed, wherever that is.
-/
namespace ServiceLint

/-- White space and comments that stand before the rest of a text. A comment starts with two slashes or a hash
sign and goes on to the next line feed or to the end of the text. -/
inductive IsGap (rest : List Char) : List Char → Prop
  | nil : IsGap rest []
  | space {c : Char} {gap : List Char} (hc : Text.isWhiteSpace c = true) (h : IsGap rest gap) :
      IsGap rest (c :: gap)
  | comment {mark line gap : List Char} (hmark : mark = ['/', '/'] ∨ mark = ['#']) (hline : '\n' ∉ line)
      (hend : ∀ c ∈ (gap ++ rest).head?, c = '\n') (h : IsGap rest gap) : IsGap rest (mark ++ line ++ gap)

/-- Where the stretch before the tokens ends: at the first one, or at the end of the text. -/
def firstStart (text : List Char) : List Token → Nat
  | [] => Text.size text
  | t :: _ => t.start

/-- Where the stretch after the tokens starts: at the end of the last one, or at the beginning of the text. -/
def lastStop (ts : List Token) : Nat := (ts.getLast?.map Token.stop).getD 0

/-- The tokens are all of the text but for gaps. -/
structure Covers (text : List Char) (tokens : List Token) : Prop where
  /-- Tokens are stretches of the text, between two of its characters. -/
  stands : ∀ t ∈ tokens, t.start < t.stop ∧ Text.isBoundary t.start text = true ∧
    Text.isBoundary t.stop text = true ∧ Text.slice text t.start t.stop = t.chars
  order : tokens.Pairwise fun a b => a.stop ≤ b.start
  shape : ∀ t ∈ tokens, t.kind.Shape t.chars (Text.dropBytes t.stop text)
  /-- There is a gap at each place in the list of tokens, at both ends too. -/
  gaps : ∀ us vs, tokens = us ++ vs →
    IsGap (Text.dropBytes (firstStart text vs) text) (Text.slice text (lastStop us) (firstStart text vs))

theorem startsComment_cases {c : Char} {cs : List Char} (h : startsComment c cs = true) :
    ∃ mark line, (mark = ['/', '/'] ∨ mark = ['#']) ∧ '\n' ∉ line ∧
      c :: cs.takeWhile (· ≠ '\n') = mark ++ line := by
  have hline : ∀ w : List Char, '\n' ∉ w.takeWhile (· ≠ '\n') := fun w hw => by
    simpa using List.mem_takeWhile_imp hw
  simp only [startsComment, Bool.or_eq_true, Bool.and_eq_true, beq_iff_eq] at h
  rcases h with rfl | ⟨rfl, hslash⟩
  · exact ⟨['#'], _, Or.inr rfl, hline cs, rfl⟩
  · obtain ⟨cs, rfl⟩ := List.head?_eq_some_iff.1 hslash
    exact ⟨['/', '/'], _, Or.inl rfl, hline cs, rfl⟩

/-- A reading that gives no token passes over a gap. -/
theorem Scans.isGap {o p : Nat} {cs rest : List Char} {ts : List Token} (h : Scans o cs ts p rest)
    (hts : ts = []) : ∃ gap, cs = gap ++ rest ∧ p = o + Text.size gap ∧ IsGap rest gap := by
  induction h with
  | stop => exact ⟨[], rfl, rfl, .nil⟩
  | @space o p c cs rest ts hc _ ih =>
    obtain ⟨gap, rfl, rfl, hgap⟩ := ih hts
    exact ⟨c :: gap, rfl, by rw [Text.size_cons, Nat.add_assoc], .space hc hgap⟩
  | @comment o p c cs rest ts _ hs _ ih =>
    obtain ⟨gap, hcs, rfl, hgap⟩ := ih hts
    obtain ⟨mark, line, hmark, hline, heq⟩ := startsComment_cases hs
    -- what is left after the comment is empty or starts with the line feed
    have hend : ∀ x ∈ (gap ++ rest).head?, x = '\n' := by
      intro x hx
      obtain ⟨tail, htail⟩ := List.head?_eq_some_iff.1 hx
      simpa using dropWhile_cons_neg (p := (· ≠ '\n')) (hcs.trans htail)
    refine ⟨mark ++ line ++ gap, ?_, ?_, .comment hmark hline hend hgap⟩
    · rw [← heq, List.append_assoc, ← hcs, List.cons_append, List.takeWhile_append_dropWhile]
    · rw [Nat.add_assoc, ← heq, Text.size_append]
  | token => cases hts

/-- A reading of a whole text can be stopped after any of its tokens. -/
theorem Scans.resume {p : Nat} {text rest : List Char} {us vs : List Token}
    (h : Scans 0 text (us ++ vs) p rest) :
    ∃ pre mid, text = pre ++ mid ∧ Text.size pre = lastStop us ∧ Scans (lastStop us) mid vs p rest := by
  obtain rfl | ⟨us, u, rfl⟩ := List.eq_nil_or_concat' us
  · exact ⟨[], text, rfl, rfl, h⟩
  · rw [List.append_assoc, List.singleton_append] at h
    obtain ⟨post, hbefore, -, hafter⟩ := h.split rfl
    obtain ⟨pre, htext, hstart⟩ := hbefore.suffix
    have hstop : lastStop (us ++ [u]) = u.stop := by simp [lastStop]
    refine ⟨pre ++ u.chars, post, by rw [htext, List.append_assoc], ?_, hstop ▸ hafter⟩
    rw [hstop, Text.size_append, Token.stop_eq, hstart, Nat.zero_add]

/-- Before the first token of a reading, or before the end if there is none, there is a gap. -/
theorem Scans.exists_gap {o : Nat} {text mid : List Char} {vs : List Token}
    (h : Scans o mid vs (Text.size text) []) :
    ∃ gap after, mid = gap ++ after ∧ firstStart text vs = o + Text.size gap ∧ IsGap after gap := by
  cases vs with
  | nil =>
    obtain ⟨gap, hmid, hp, hgap⟩ := h.isGap rfl
    exact ⟨gap, [], hmid, hp, hgap⟩
  | cons t vs =>
    obtain ⟨post, hbefore, -⟩ := h.split (List.nil_append _).symm
    obtain ⟨gap, hmid, hstart, hgap⟩ := hbefore.isGap rfl
    exact ⟨gap, t.chars ++ post, hmid, hstart, hgap⟩

/-- The tokens of a text are all of it but for white space and comments, and each has the shape of its kind. -/
theorem tokenize_covers {text : List Char} {tokens : List Token} (h : tokenize text = .ok tokens) :
    Covers text tokens := by
  have hscan := scan_eq_ok_iff.1 h
  rw [Nat.zero_add] at hscan
  refine ⟨fun t ht => ?_, hscan.pairwise, fun t ht => ?_, fun us vs hsplit => ?_⟩
  · have hstands := hscan.stands [] rfl rfl ht
    exact ⟨hstands.lt, hstands.start.isBoundary, hstands.stop.isBoundary, hstands.slice⟩
  · obtain ⟨a, c, tail, b, htext, hstart, -, -, hlexes⟩ := hscan.mem_lexes ht
    have hafter : Text.dropBytes t.stop text = b := by
      rw [Token.stop_eq, hstart, Nat.zero_add, ← Text.size_append, htext, ← List.append_assoc,
        Text.dropBytes_size]
    rw [hafter]
    exact hlexes.shape
  · rw [hsplit] at hscan
    obtain ⟨pre, mid, rfl, hpre, hmid⟩ := hscan.resume
    obtain ⟨gap, after, rfl, hfirst, hgap⟩ := hmid.exists_gap
    rw [hfirst, ← hpre, Text.slice_mid, ← Text.size_append, ← List.append_assoc, Text.dropBytes_size]
    exact hgap

/-- A text with comments of both kinds, before a quoted name, in a line of its own and at the end. -/
theorem tokenize_covers_comments : ∃ text tokens, text = "'é//x\n# y\n \"a\\\"\"0.5->`b\n`//".toList ∧
    tokenize text = .ok tokens ∧ tokens.map (·.kind) = [.quotedIdent, .string, .number, .punct, .template] ∧
    Covers text tokens := by
  generalize htext : "'é//x\n# y\n \"a\\\"\"0.5->`b\n`//".toList = text
  have hchars : text = _ := htext.symm.trans String.toList_ofList
  have hcheck : (tokenize text).toOption.map (·.map (·.kind)) =
      some [.quotedIdent, .string, .number, .punct, .template] := by
    rw [hchars]
    decide +kernel
  obtain ⟨tokens, htokens, hkinds⟩ := Option.map_eq_some_iff.1 hcheck
  have htok := eq_ok_of_toOption htokens
  exact ⟨text, tokens, rfl, htok, hkinds, tokenize_covers htok⟩

end ServiceLint
