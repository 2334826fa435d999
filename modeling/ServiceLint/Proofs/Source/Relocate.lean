import ServiceLint.Proofs.Source.Layout
import ServiceLint.Proofs.Source.Move
import ServiceLint.Proofs.Source.Pieces
import ServiceLint.Proofs.Text.Trim
import ServiceLint.Text.Pieces

/-!
# Reading a text around a change

What comes before a brace or semicolon is read without regard to what follows it (`Scans.cut`), and what
comes after it is read the same way at another offset (`Scans.move`). `Moves.same_front` and
`Moves.same_end` give what parsing asks of the tokens on either side of the change.

White space and comments give no tokens. They still give none when white space at their end is replaced by
a line ending (`Scans.skips_trimEnd`), which is what ends a comment.
-/
namespace ServiceLint

/-! ## After the change -/

/-- Reading at another offset gives the tokens there. -/
theorem Scans.move {o p k : Nat} {cs rest : List Char} {ts : List Token} (h : Scans o cs ts p rest)
    (hk : k ≤ o) (k' : Nat) :
    Scans (o + k' - k) cs (ts.map (Token.move fun n => n + k' - k)) (p + k' - k) rest := by
  have hstep : ∀ o n, k ≤ o → o + n + k' - k = o + k' - k + n := by
    intro o n hk
    omega
  induction h with
  | stop => exact .stop _ _
  | space hc _ ih =>
    refine .space hc ?_
    rw [← hstep _ _ hk]
    exact ih (by omega)
  | comment hc hs _ ih =>
    refine .comment hc hs ?_
    rw [← hstep _ _ hk]
    exact ih (by omega)
  | token hc hs hl _ ih =>
    refine .token hc hs hl ?_
    rw [← hstep _ _ hk]
    exact ih (by omega)

/-- What ends a text is read as the end of another text. -/
theorem Scans.relocate {a v : List Char} {ts : List Token}
    (h : Scans (Text.size a) v ts (Text.size (a ++ v)) []) (a' : List Char) :
    Scans (Text.size a') v (ts.map (Token.move fun n => n + Text.size a' - Text.size a))
      (Text.size (a' ++ v)) [] := by
  have hmoved := h.move (Nat.le_refl _) (Text.size a')
  have hstart : Text.size a + Text.size a' - Text.size a = Text.size a' := by omega
  have hend : Text.size (a ++ v) + Text.size a' - Text.size a = Text.size (a' ++ v) := by
    rw [Text.size_append, Text.size_append]
    omega
  rwa [hstart, hend] at hmoved

/-- Two texts that end alike have the same tokens there. -/
theorem Moves.same_end {a a' v rest : List Char} {ts : List Token} {p : Nat}
    (h : Scans (Text.size a) v ts p rest) :
    Moves (fun n => n + Text.size a' - Text.size a) (a ++ v) (a' ++ v) ts := by
  constructor
  · intro t ht
    have := h.start_le ht
    simp only [Token.stop, Token.move_start, Token.move_text]
    omega
  · intro t ht u hu
    have ht' := h.start_le ht
    have hu' := h.start_le hu
    have hustop := h.start_lt_stop hu
    obtain ⟨i, hi⟩ := Nat.exists_eq_add_of_le ht'
    obtain ⟨j, hj⟩ := Nat.exists_eq_add_of_le (Nat.le_trans hu' (Nat.le_of_lt hustop))
    have hstart : t.start + Text.size a' - Text.size a = Text.size a' + i := by omega
    have hstop : (u.move fun n => n + Text.size a' - Text.size a).stop = Text.size a' + j := by
      simp only [Token.stop, Token.move_start, Token.move_text] at hj ⊢
      omega
    rw [Token.slice, Token.slice, hstop, Token.move_start, hstart, hi, hj, Text.slice_append_right,
      Text.slice_append_right]

/-! ## Before the change -/

/-- Two texts that begin alike have the same tokens there. -/
theorem Moves.same_front {a v v' : List Char} {ts : List Token} {p : Nat}
    (h : Scans 0 a ts p []) : Moves id (a ++ v) (a ++ v') ts := by
  refine ⟨fun t _ => rfl, fun t ht u hu => ?_⟩
  have hstart : Text.isBoundary t.start a = true := (h.stands [] rfl rfl ht).start.isBoundary
  have hstop : u.stop ≤ Text.size a := (h.stands [] rfl rfl hu).stop.le_size
  simp only [Token.move_id, Token.slice]
  rw [Text.slice_append_left v' hstart hstop, Text.slice_append_left v hstart hstop]

/-- A brace or semicolon that ends or starts something. -/
def Token.isMark (t : Token) : Prop :=
  t.isPunct ";" = true ∨ t.isPunct "\x7b" = true ∨ t.isPunct "\x7d" = true

theorem Token.isMark.exists_char {t : Token} (h : t.isMark) : ∃ sep, t.kind = .punct ∧
    t.text = String.ofList [sep] ∧ (sep = ';' ∨ sep = '\x7b' ∨ sep = '\x7d') := by
  simp only [Token.isMark, Token.isPunct, Bool.and_eq_true, beq_iff_eq] at h
  rcases h with ⟨hk, ht⟩ | ⟨hk, ht⟩ | ⟨hk, ht⟩
  · exact ⟨';', hk, ht, by decide⟩
  · exact ⟨'\x7b', hk, ht, by decide⟩
  · exact ⟨'\x7d', hk, ht, by decide⟩

/-- A brace or semicolon cuts a text. What stands up to it is read the same way whatever follows. -/
theorem Scans.cut {o p : Nat} {cs rest : List Char} {us vs : List Token} {t : Token} (ht : t.isMark)
    (h : Scans o cs (us ++ t :: vs) p rest) :
    ∃ a v, cs = a ++ v ∧ o + Text.size a = t.stop ∧ Scans t.stop v vs p rest ∧
      ∀ v', Scans o (a ++ v') (us ++ [t]) t.stop v' := by
  obtain ⟨post, hbefore, -, hafter⟩ := h.split rfl
  obtain ⟨sep, hkind, htext, hsep⟩ := ht.exists_char
  have hchars : t.chars = [sep] := by rw [Token.chars, htext, String.toList_ofList]
  have htoken : t = ⟨.punct, t.start, String.ofList [sep]⟩ := by
    cases t
    simp_all
  have hmark : EndsTokens sep := endsTokens_separator (by rcases hsep with rfl | rfl | rfl <;> rfl)
  have hspace : Text.isWhiteSpace sep = false := by rcases hsep with rfl | rfl | rfl <;> decide
  have hcomment : ∀ v, startsComment sep v = false := by
    intro v
    rcases hsep with rfl | rfl | rfl <;> rfl
  have hstop : t.stop = t.start + Text.size [sep] := by rw [Token.stop_eq, hchars]
  rw [hchars] at hbefore
  obtain ⟨a, hcs, hstart⟩ := hbefore.suffix
  refine ⟨a ++ [sep], post, by rw [hcs]; simp, by simp [hstop, hstart, Nat.add_assoc], hafter, fun v' => ?_⟩
  obtain ⟨a', ha', hread⟩ := hbefore.frame hmark rfl v'
  obtain rfl : a = a' := List.append_cancel_right (hcs.symm.trans ha')
  have hone := Scans.token (o := t.start) hspace (hcomment v') (.of_lexeme (lexeme_closing hsep v')) (.stop _ _)
  rw [← htoken, ← hstop] at hone
  rw [List.append_assoc]
  exact hread.trans hone

/-! ## White space and comments -/

/-- The text gives no tokens, whatever follows it. -/
def Skips (cs : List Char) : Prop := ∀ o rest, Scans o (cs ++ rest) [] (o + Text.size cs) rest

theorem skips_blank {cs : List Char} (h : ∀ c ∈ cs, Text.isWhiteSpace c = true) : Skips cs :=
  fun _ _ => .blank h (.stop _ _)

/-- What ends a line. -/
def IsLineEnding (e : List Char) : Prop := e = ['\n'] ∨ e = ['\r', '\n']

theorem IsLineEnding.blank {e : List Char} (h : IsLineEnding e) : ∀ c ∈ e, Text.isWhiteSpace c = true := by
  intro c hc
  have hmem : c = '\r' ∨ c = '\n' := by rcases h with rfl | rfl <;> simp_all
  rcases hmem with rfl | rfl <;> decide

theorem IsLineEnding.eq_feed {e : List Char} (h : IsLineEnding e) :
    ∃ w, e = w ++ ['\n'] ∧ ∀ x ∈ w, x = '\r' := by
  rcases h with rfl | rfl
  · exact ⟨[], rfl, by simp⟩
  · exact ⟨['\r'], rfl, by simp⟩

theorem startsComment_append {c : Char} {cs : List Char} (h : startsComment c cs = true) (rest : List Char) :
    startsComment c (cs ++ rest) = true := by
  cases cs with
  | nil => simp_all [startsComment]
  | cons d cs => exact h

theorem startsComment_trimEnd {c : Char} {cs : List Char} (h : startsComment c cs = true) :
    startsComment c (Text.trimEnd cs) = true := by
  simp only [startsComment, Bool.or_eq_true, Bool.and_eq_true, beq_iff_eq] at h
  rcases h with rfl | ⟨rfl, hslash⟩
  · rfl
  · obtain ⟨cs, rfl⟩ := List.head?_eq_some_iff.1 hslash
    rw [Text.trimEnd_cons (by decide)]
    rfl

theorem startsComment_takeWhile {c : Char} {cs : List Char} (h : startsComment c cs = true) :
    startsComment c (cs.takeWhile (· ≠ '\n')) = true := by
  simp only [startsComment, Bool.or_eq_true, Bool.and_eq_true, beq_iff_eq] at h
  rcases h with rfl | ⟨rfl, hslash⟩
  · rfl
  · obtain ⟨cs, rfl⟩ := List.head?_eq_some_iff.1 hslash
    rfl

theorem Skips.space {c : Char} {cs : List Char} (hc : Text.isWhiteSpace c = true) (h : Skips cs) :
    Skips (c :: cs) := by
  intro o rest
  have := h (o + c.utf8Size) rest
  rw [Nat.add_assoc] at this
  exact .space hc this

/-- A comment is skipped up to the line feed that ends it. -/
theorem Skips.comment {c : Char} {line cs : List Char} (hc : Text.isWhiteSpace c = false)
    (hs : startsComment c line = true) (hline : '\n' ∉ line) (hfeed : cs.head? = some '\n')
    (h : Skips cs) : Skips (c :: (line ++ cs)) := by
  intro o rest
  obtain ⟨cs, rfl⟩ := List.head?_eq_some_iff.1 hfeed
  have hbody : ∀ x ∈ line, decide (x ≠ '\n') = true := by
    intro x hx
    rw [decide_eq_true_eq]
    rintro rfl
    exact hline hx
  have hstop : ∀ x ∈ ('\n' :: cs ++ rest).head?, decide (x ≠ '\n') = false := by simp
  rw [List.cons_append, List.append_assoc]
  refine .comment hc (startsComment_append hs _) ?_
  rw [takeWhile_stretch hbody hstop, dropWhile_stretch hbody hstop]
  have := h (o + Text.size (c :: line)) rest
  rwa [Nat.add_assoc, ← Text.size_append, List.cons_append] at this

/-- A comment goes on to the end of its line. -/
theorem skips_comment {c : Char} {line e : List Char} (hc : Text.isWhiteSpace c = false)
    (hs : startsComment c line = true) (hline : '\n' ∉ line) (he : IsLineEnding e) :
    Skips (c :: (line ++ e)) := by
  obtain ⟨w, rfl, hw⟩ := he.eq_feed
  rw [← List.append_assoc]
  refine .comment hc (startsComment_append hs w) ?_ rfl (skips_blank (IsLineEnding.blank (Or.inl rfl)))
  intro hmem
  rcases List.mem_append.1 hmem with hmem | hmem
  · exact hline hmem
  · exact absurd (hw _ hmem) (by decide)

/-- White space and comments give no tokens when white space at their end is replaced by a line ending. -/
theorem Scans.skips_trimEnd {o p : Nat} {cs rest gap e : List Char} {ts : List Token}
    (h : Scans o cs ts p rest) (hts : ts = []) (hcs : cs = gap ++ rest) (he : IsLineEnding e) :
    Skips (Text.trimEnd gap ++ e) := by
  induction h generalizing gap with
  | stop o cs =>
    obtain rfl : gap = [] := by simpa using hcs
    exact skips_blank he.blank
  | @space o p c cs rest ts hc h ih =>
    obtain ⟨pre, hpre, -⟩ := h.suffix
    obtain rfl : c :: pre = gap := List.append_cancel_right (by rw [← hcs, hpre]; rfl)
    rw [Text.trimEnd_cons_space hc]
    split
    · exact skips_blank he.blank
    · exact .space hc (ih hts hpre)
  | @comment o p c cs rest ts hc hs h ih =>
    obtain ⟨pre, hpre, -⟩ := h.suffix
    have hstart := startsComment_takeWhile hs
    generalize hline : cs.takeWhile (· ≠ '\n') = line at *
    have hfeed : '\n' ∉ line := by
      intro hmem
      have := List.mem_takeWhile_imp (hline ▸ hmem)
      simp at this
    have hsplit : cs = line ++ (pre ++ rest) := by
      rw [← hpre, ← hline, List.takeWhile_append_dropWhile]
    obtain rfl : c :: (line ++ pre) = gap :=
      List.append_cancel_right (by rw [← hcs, hsplit, List.cons_append, List.append_assoc])
    rw [Text.trimEnd_cons hc, Text.trimEnd_append]
    -- the line feed that ends the comment is trimmed, or stays
    split
    · exact skips_comment hc (startsComment_trimEnd hstart)
        (fun hmem => hfeed ((Text.trimEnd_prefix line).subset hmem)) he
    · next hne =>
      obtain ⟨d, w, hd⟩ := List.exists_cons_of_ne_nil hne
      obtain ⟨more, hmore⟩ := Text.trimEnd_prefix pre
      rw [hd, List.cons_append] at hmore
      have hdrop : cs.dropWhile (· ≠ '\n') = d :: (w ++ more ++ rest) := by
        rw [hpre, ← hmore]
        simp
      have hnew : d = '\n' := by simpa using dropWhile_cons_neg hdrop
      rw [List.cons_append, List.append_assoc]
      exact .comment hc hstart hfeed (by rw [hd, hnew]; rfl) (ih hts hpre)
  | token => cases hts

end ServiceLint
