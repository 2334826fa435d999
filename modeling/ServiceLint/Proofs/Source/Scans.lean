import ServiceLint.Proofs.Source.Lexeme
import ServiceLint.Proofs.Text.Cut

/-!
# Reading tokens up to a place in the text

`Scans o cs ts p rest` says that reading from offset `o` the text `cs` gives the tokens `ts` and comes
to offset `p`, where `rest` is left. `scan` is such a reading of a whole text (`scan_eq_ok_iff`), and a
reading can be stopped before any of its tokens (`Scans.split`).

The place of each token is known (`Scans.mem`), tokens do not overlap and stand in order
(`Scans.pairwise`). `Scans.frame` is what makes insertions possible: a reading that comes to a character with
which no token goes on is the same whatever follows that character.
-/
namespace ServiceLint

/-- Reading from offset `o` gives the tokens and comes to offset `p`, where the last text is left. -/
inductive Scans : Nat → List Char → List Token → Nat → List Char → Prop
  | stop (o : Nat) (cs : List Char) : Scans o cs [] o cs
  | space {o p : Nat} {c : Char} {cs rest : List Char} {ts : List Token}
      (hc : Text.isWhiteSpace c = true) (h : Scans (o + c.utf8Size) cs ts p rest) :
      Scans o (c :: cs) ts p rest
  | comment {o p : Nat} {c : Char} {cs rest : List Char} {ts : List Token}
      (hc : Text.isWhiteSpace c = false) (hs : startsComment c cs = true)
      (h : Scans (o + Text.size (c :: cs.takeWhile (· ≠ '\n'))) (cs.dropWhile (· ≠ '\n')) ts p rest) :
      Scans o (c :: cs) ts p rest
  | token {o p : Nat} {c : Char} {cs chars tail rest : List Char} {ts : List Token} {kind : TokenKind}
      (hc : Text.isWhiteSpace c = false) (hs : startsComment c cs = false)
      (hl : Lexes c cs kind chars tail) (h : Scans (o + Text.size chars) tail ts p rest) :
      Scans o (c :: cs) (⟨kind, o, String.ofList chars⟩ :: ts) p rest

def Token.chars (t : Token) : List Char := t.text.toList

@[simp]
theorem Token.chars_mk (kind : TokenKind) (o : Nat) (cs : List Char) :
    (Token.mk kind o (String.ofList cs)).chars = cs := by simp [Token.chars]

theorem Token.stop_eq (t : Token) : t.stop = t.start + Text.size t.chars := rfl

namespace Scans

variable {o p : Nat} {cs rest : List Char} {ts : List Token}

/-- The text that is left ends the text that was given. -/
theorem suffix (h : Scans o cs ts p rest) : ∃ pre, cs = pre ++ rest ∧ p = o + Text.size pre := by
  induction h with
  | stop => exact ⟨[], rfl, rfl⟩
  | @space o p c cs rest ts _ _ ih =>
    obtain ⟨pre, rfl, rfl⟩ := ih
    exact ⟨c :: pre, rfl, by simp [Nat.add_assoc]⟩
  | @comment o p c cs rest ts _ _ _ ih =>
    obtain ⟨pre, hpre, rfl⟩ := ih
    refine ⟨c :: (cs.takeWhile (· ≠ '\n') ++ pre), ?_, by simp [Nat.add_assoc]⟩
    rw [List.cons_append, List.append_assoc, ← hpre, List.takeWhile_append_dropWhile]
  | @token o p c cs chars tail rest ts kind _ _ hl _ ih =>
    obtain ⟨pre, rfl, rfl⟩ := ih
    exact ⟨chars ++ pre, by rw [List.append_assoc, lexeme_append hl.lexeme_eq], by simp [Nat.add_assoc]⟩

theorem trans {q : Nat} {end_ : List Char} {us : List Token} (h : Scans o cs ts p rest)
    (h' : Scans p rest us q end_) : Scans o cs (ts ++ us) q end_ := by
  induction h with
  | stop => exact h'
  | space hc _ ih => exact .space hc (ih h')
  | comment hc hs _ ih => exact .comment hc hs (ih h')
  | token hc hs hl _ ih => exact .token hc hs hl (ih h')

/-- A reading can be stopped before any of its tokens. -/
theorem split {us : List Token} {t : Token} {vs : List Token} (h : Scans o cs ts p rest)
    (hts : ts = us ++ t :: vs) :
    ∃ post, Scans o cs us t.start (t.chars ++ post) ∧
      Scans t.start (t.chars ++ post) [t] t.stop post ∧ Scans t.stop post vs p rest := by
  induction h generalizing us with
  | stop => simp at hts
  | space hc _ ih =>
    obtain ⟨post, h₁, h₂⟩ := ih hts
    exact ⟨post, .space hc h₁, h₂⟩
  | comment hc hs _ ih =>
    obtain ⟨post, h₁, h₂⟩ := ih hts
    exact ⟨post, .comment hc hs h₁, h₂⟩
  | @token o p c cs chars tail rest ts kind hc hs hl h ih =>
    cases us with
    | nil =>
      obtain ⟨rfl, rfl⟩ := List.cons.inj hts
      have happ := lexeme_append hl.lexeme_eq
      simp only [Token.chars_mk, Token.stop_eq]
      exact ⟨tail, by rw [happ]; exact .stop _ _, by rw [happ]; exact .token hc hs hl (.stop _ _), h⟩
    | cons u us =>
      obtain ⟨rfl, rfl⟩ := List.cons.inj hts
      obtain ⟨post, h₁, h₂⟩ := ih rfl
      exact ⟨post, .token hc hs hl h₁, h₂⟩

/-- A reading that comes to a character with which no token goes on is the same whatever follows it. -/
theorem frame {s : Char} {v : List Char} (h : Scans o cs ts p rest) (hs : EndsTokens s)
    (hr : rest = s :: v) (v' : List Char) :
    ∃ pre, cs = pre ++ s :: v ∧ Scans o (pre ++ s :: v') ts p (s :: v') := by
  induction h with
  | stop => exact ⟨[], hr, .stop _ _⟩
  | @space o p c cs rest ts hc _ ih =>
    obtain ⟨pre, rfl, hread⟩ := ih hr
    exact ⟨c :: pre, rfl, .space hc hread⟩
  | @comment o p c cs rest ts hc hcom _ ih =>
    obtain ⟨pre, hpre, hread⟩ := ih hr
    have hcs : cs = cs.takeWhile (· ≠ '\n') ++ pre ++ s :: v := by
      rw [List.append_assoc, ← hpre, List.takeWhile_append_dropWhile]
    generalize htw : cs.takeWhile (· ≠ '\n') = line at hcs hread
    -- the comment ends at a line feed that is still there
    have hline : ∀ x ∈ line, decide (x ≠ '\n') = true := fun x hx =>
      List.mem_takeWhile_imp (p := (· ≠ '\n')) (htw ▸ hx)
    have hfeed : ∀ x ∈ (pre ++ s :: v').head?, decide (x ≠ '\n') = false := by
      intro x hx
      have hx' : x ∈ (pre ++ s :: v).head? := by cases pre <;> simpa using hx
      obtain ⟨r, hr⟩ := List.head?_eq_some_iff.1 hx'
      exact dropWhile_cons_neg (p := (· ≠ '\n')) (hpre.trans hr)
    have hhead : (line ++ pre ++ s :: v').head? = cs.head? := by
      rw [hcs]; cases line ++ pre <;> simp
    refine ⟨c :: (line ++ pre), by rw [hcs]; rfl, ?_⟩
    rw [List.cons_append]
    refine .comment hc (by rwa [startsComment, hhead]) ?_
    rw [List.append_assoc, takeWhile_stretch hline hfeed, dropWhile_stretch hline hfeed]
    exact hread
  | @token o p c cs chars tail rest ts kind hc hcom hl _ ih =>
    obtain ⟨pre, rfl, hread⟩ := ih hr
    obtain ⟨u, rfl, hl'⟩ := lexeme_frame hs hl.lexeme_eq v'
    have hhead : (u ++ s :: v').head? = (u ++ s :: v).head? := by cases u <;> simp
    refine ⟨c :: u, rfl, ?_⟩
    rw [List.cons_append]
    exact .token hc (by rwa [startsComment, hhead]) (.of_lexeme hl') hread

/-! ## Where tokens stand -/

/-- Each token stands in the text where it says, and begins and ends away from line terminators. -/
theorem mem {t : Token} (h : Scans o cs ts p rest) (ht : t ∈ ts) :
    ∃ a b, cs = a ++ (t.chars ++ b) ∧ t.start = o + Text.size a ∧ t.stop ≤ p := by
  obtain ⟨us, vs, hts⟩ := List.append_of_mem ht
  obtain ⟨post, h₁, h₂, h₃⟩ := h.split hts
  obtain ⟨a, ha, hstart⟩ := h₁.suffix
  obtain ⟨_, _, hp⟩ := h₃.suffix
  exact ⟨a, post, ha, hstart, by omega⟩

/-- Each token was read where it stands, as far as the text that comes after it. -/
theorem mem_lexes {t : Token} (h : Scans o cs ts p rest) (ht : t ∈ ts) :
    ∃ a c tail b, cs = a ++ (t.chars ++ b) ∧ t.start = o + Text.size a ∧ Text.isWhiteSpace c = false ∧
      t.chars.head? = some c ∧ Lexes c tail t.kind t.chars b := by
  induction h with
  | stop => cases ht
  | @space o p c cs rest ts _ _ ih =>
    obtain ⟨a, d, tail, b, rfl, hstart, hlexes⟩ := ih ht
    exact ⟨c :: a, d, tail, b, rfl, by rw [hstart, Text.size_cons, Nat.add_assoc], hlexes⟩
  | @comment o p c cs rest ts _ _ _ ih =>
    obtain ⟨a, d, tail, b, ha, hstart, hlexes⟩ := ih ht
    refine ⟨c :: (cs.takeWhile (· ≠ '\n') ++ a), d, tail, b, ?_, ?_, hlexes⟩
    · rw [List.cons_append, List.append_assoc, ← ha, List.takeWhile_append_dropWhile]
    · rw [hstart, Nat.add_assoc, ← Text.size_append, List.cons_append]
  | @token o p c cs chars tail rest ts kind hc _ hl _ ih =>
    have happ := lexeme_append hl.lexeme_eq
    rcases List.mem_cons.1 ht with rfl | ht
    · obtain ⟨d, w, rfl⟩ := List.exists_cons_of_ne_nil (lexeme_ne_nil hl.lexeme_eq)
      obtain ⟨rfl, -⟩ := List.cons.inj happ
      rw [Token.chars_mk]
      exact ⟨[], d, cs, tail, happ.symm, rfl, hc, rfl, hl⟩
    · obtain ⟨a, d, tail', b, rfl, hstart, hlexes⟩ := ih ht
      refine ⟨chars ++ a, d, tail', b, ?_, ?_, hlexes⟩
      · rw [List.append_assoc, happ]
      · rw [hstart, Text.size_append, Nat.add_assoc]

theorem start_lt_stop {t : Token} (h : Scans o cs ts p rest) (ht : t ∈ ts) : t.start < t.stop := by
  obtain ⟨_, _, _, _, _, _, _, hhead, _⟩ := h.mem_lexes ht
  have hne : t.chars ≠ [] := by intro he; simp [he] at hhead
  have := Text.size_pos hne
  rw [Token.stop_eq]
  omega

theorem start_le {t : Token} (h : Scans o cs ts p rest) (ht : t ∈ ts) : o ≤ t.start := by
  obtain ⟨_, _, _, hstart, _⟩ := h.mem ht
  omega

/-- Tokens stand one after the other. -/
theorem pairwise (h : Scans o cs ts p rest) : ts.Pairwise fun a b => a.stop ≤ b.start := by
  induction h with
  | stop => exact .nil
  | space _ _ ih => exact ih
  | comment _ _ _ ih => exact ih
  | token _ _ _ h ih =>
    refine .cons (fun b hb => ?_) ih
    simpa [Token.stop_eq] using h.start_le hb

end Scans

/-! ## Reading a whole text -/

theorem Scans.scan_eq {o p : Nat} {cs rest : List Char} {ts : List Token} (h : Scans o cs ts p rest) :
    scan o cs = (scan p rest).map (ts ++ ·) := by
  induction h with
  | stop o cs => cases scan o cs <;> rfl
  | space hc _ ih => rw [scan, if_pos hc, ih]
  | comment hc hs _ ih => rw [scan, if_neg (by simp [hc]), if_pos hs, ih]
  | @token o p c cs chars tail rest ts kind hc hs hl _ ih =>
    rw [scan, if_neg (by simp [hc]), if_neg (by simp [hs])]
    split
    · next he => rw [hl.lexeme_eq] at he; cases he
    · next he =>
      rw [hl.lexeme_eq] at he
      cases he
      rw [ih]
      cases scan p rest <;> simp [Except.map]

theorem Scans.of_scan {o : Nat} {cs : List Char} {ts : List Token} (h : scan o cs = .ok ts) :
    Scans o cs ts (o + Text.size cs) [] := by
  fun_induction scan o cs generalizing ts with
  | case1 => cases h; exact .stop _ _
  | case2 o c cs hc ih =>
    have hread := ih h
    rw [Nat.add_assoc] at hread
    exact .space hc hread
  | case3 o c cs hc hs ih =>
    have hread := ih h
    rw [Nat.add_assoc, ← Text.size_append, List.cons_append, List.takeWhile_append_dropWhile] at hread
    exact .comment (by simpa using hc) hs hread
  | case4 => cases h
  | case5 => cases h
  | case6 o c cs hc hs kind chars tail hl _ tokens htok ih =>
    cases h
    have hread := ih htok
    rw [Nat.add_assoc, ← Text.size_append, lexeme_append hl] at hread
    exact .token (by simpa using hc) (by simpa using hs) (.of_lexeme hl) hread

/-- The tokens of a text are those of a reading to its end. -/
theorem scan_eq_ok_iff {o : Nat} {cs : List Char} {ts : List Token} :
    scan o cs = .ok ts ↔ Scans o cs ts (o + Text.size cs) [] := by
  refine ⟨Scans.of_scan, fun h => ?_⟩
  rw [h.scan_eq, scan]
  simp [Except.map]

end ServiceLint
