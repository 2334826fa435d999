import ServiceLint.Proofs.Source.Layout
import ServiceLint.Proofs.Source.Move

/-!
# Line breaks between tokens

A line feed ends every token and every comment before it, and nothing that is read after it looks back. So the
tokens of two texts that are put together with a line feed are those of the first text and then those of the
second one, at their new places (`tokenize_lineBreak`).

The first half is `Scans.append_feed`: a reading to the end of a text is the same reading when a line feed and
anything else follow. The second half is `scan_add`: where a text starts matters to the places of its tokens and
of its error, and to nothing else.
-/
namespace ServiceLint

/-! ## Before the line feed -/

/-- A token at the end of a text is the same token when a character follows with which no token goes on. -/
theorem Lexes.append_stop {s : Char} (hs : EndsTokens s) {c : Char} {u chars r : List Char}
    {kind : TokenKind} (h : Lexes c u kind chars r) (v : List Char) :
    Lexes c (u ++ s :: v) kind chars (r ++ s :: v) := by
  have hident := hs.ident
  have hhead : (u ++ s :: v).head?.any isIdentStart = u.head?.any isIdentStart := by
    cases u with
    | nil =>
      have hstart : isIdentStart s = false := by
        rw [Bool.eq_false_iff]
        intro hstart
        rw [isIdentPart_of_isIdentStart hstart] at hident
        cases hident
      simp [hstart]
    | cons d u => rfl
  cases h with
  | string hb =>
    rw [← stringBody_append hb, List.append_assoc]
    exact .string (stringBody_frame hb _)
  | template hb =>
    rw [← templateBody_append hb, List.append_assoc]
    exact .template (templateBody_frame hb _)
  | quoted hq =>
    have hl := @Lexes.quoted (u ++ s :: v) (hhead.trans hq)
    rwa [takeWhile_append_stop hident, dropWhile_append_stop hident] at hl
  | ident hi =>
    have hl := @Lexes.ident c (u ++ s :: v) hi
    rwa [takeWhile_append_stop hident, dropWhile_append_stop hident] at hl
  | number hi hd =>
    have hl := @Lexes.number c (u ++ s :: v) hi hd
    rwa [numberBody_frame hs] at hl
  | punct hstring htemplate hquoted hi hd =>
    have hl := @Lexes.punct c (u ++ s :: v) hstring htemplate (by rwa [hhead]) hi hd
    rwa [punctAt_append_stop hs] at hl

/-- A reading is the same when a line feed follows the text, whatever comes after it. -/
theorem Scans.append_feed {o p : Nat} {cs rest : List Char} {ts : List Token} (h : Scans o cs ts p rest)
    (v : List Char) : Scans o (cs ++ '\n' :: v) ts p (rest ++ '\n' :: v) := by
  have hcomment : ∀ (c : Char) (w : List Char), startsComment c (w ++ '\n' :: v) = startsComment c w := by
    intro c w
    cases w with
    | nil => rfl
    | cons d w => rfl
  induction h with
  | stop => exact .stop _ _
  | space hc _ ih => exact .space hc ih
  | @comment o p c cs rest ts hc hs _ ih =>
    refine .comment hc ((hcomment c cs).trans hs) ?_
    have htake := takeWhile_append_stop (p := (· ≠ '\n')) (s := '\n') rfl cs v
    have hdrop := dropWhile_append_stop (p := (· ≠ '\n')) (s := '\n') rfl cs v
    rw [List.append_eq, htake, hdrop]
    exact ih
  | @token o p c cs chars tail rest ts kind hc hs hl _ ih =>
    exact .token hc ((hcomment c cs).trans hs) (hl.append_stop (endsTokens_separator rfl) v) ih

/-! ## After the line feed -/

/-- The error at the place to which `g` takes its offset. -/
def ParseError.move (g : Nat → Nat) : ParseError → ParseError
  | .unterminated literal o => .unterminated literal (g o)
  | .unexpectedEnd e o => .unexpectedEnd e (g o)
  | .expected e found o => .expected e found (g o)
  | .unbalanced delimiter o => .unbalanced delimiter (g o)

/-- Reading a text further on gives the same at that distance. -/
theorem scan_add (k o : Nat) (cs : List Char) : scan (o + k) cs =
    match scan o cs with
    | .ok ts => .ok (ts.map (Token.move (· + k)))
    | .error e => .error (e.move (· + k)) := by
  fun_induction scan o cs with
  | case1 => simp [scan]
  | case2 o c cs hc ih => rw [scan, if_pos hc, Nat.add_right_comm, ih]
  | case3 o c cs hc hs ih => rw [scan, if_neg hc, if_pos hs, Nat.add_right_comm, ih]
  | case4 o c cs hc hs literal hl =>
    rw [scan, if_neg hc, if_neg hs]
    split
    · next he =>
      rw [hl] at he
      cases he
      rfl
    · next he => rw [hl] at he; cases he
  | case5 o c cs hc hs kind chars rest hl _ e hrec ih =>
    rw [scan, if_neg hc, if_neg hs]
    split
    · next he => rw [hl] at he; cases he
    · next he =>
      rw [hl] at he
      cases he
      rw [Nat.add_right_comm, ih, hrec]
  | case6 o c cs hc hs kind chars rest hl _ tokens hrec ih =>
    rw [scan, if_neg hc, if_neg hs]
    split
    · next he => rw [hl] at he; cases he
    · next he =>
      rw [hl] at he
      cases he
      rw [Nat.add_right_comm, ih, hrec]
      rfl

/-- A line feed divides tokens: what follows it is read as a text of its own. -/
theorem tokenize_lineBreak {a : List Char} {ta : List Token} (h : tokenize a = .ok ta) (b : List Char) :
    (∀ tb, tokenize b = .ok tb →
      tokenize (a ++ '\n' :: b) = .ok (ta ++ tb.map (Token.move (· + (Text.size a + 1))))) ∧
    ∀ e, tokenize b = .error e → tokenize (a ++ '\n' :: b) = .error (e.move (· + (Text.size a + 1))) := by
  have hread := (scan_eq_ok_iff.1 h).append_feed b
  have hfeed : scan (0 + Text.size a) ('\n' :: b) = scan (0 + (Text.size a + 1)) b := by
    rw [scan, if_pos (by decide)]
    rfl
  have hall : tokenize (a ++ '\n' :: b) = (scan (0 + (Text.size a + 1)) b).map (ta ++ ·) := by
    rw [tokenize, hread.scan_eq, List.nil_append, hfeed]
  simp only [tokenize] at hall ⊢
  rw [hall, scan_add]
  refine ⟨fun tb hb => by rw [hb]; rfl, fun e hb => by rw [hb]; rfl⟩

/-- A point at the end of a line does not wait for the digit on the next one, and a literal that is left open there
is found at its own quote. -/
theorem tokenize_lineBreak_point : ∃ a b b' ta tb, a = "\"é\" 1.".toList ∧ b = "5".toList ∧
    b' = "x \"".toList ∧ tokenize a = .ok ta ∧ tokenize b = .ok tb ∧
    tokenize b' = .error (.unterminated .string 2) ∧
    tokenize (a ++ '\n' :: b) = .ok (ta ++ tb.map (Token.move (· + (Text.size a + 1)))) ∧
    tokenize (a ++ '\n' :: b') = .error (.unterminated .string (2 + (Text.size a + 1))) := by
  have htok : tokenize "\"é\" 1.".toList =
      .ok [⟨.string, 0, "\"é\""⟩, ⟨.number, 5, "1"⟩, ⟨.punct, 6, "."⟩] :=
    eq_ok_of_toOption (by decide +kernel)
  have hnext : tokenize "5".toList = .ok [⟨.number, 0, "5"⟩] := eq_ok_of_toOption (by decide +kernel)
  have hopen : tokenize "x \"".toList = .error (.unterminated .string 2) :=
    eq_error_of_decide (by decide +kernel)
  exact ⟨_, _, _, _, _, rfl, rfl, rfl, htok, hnext, hopen, (tokenize_lineBreak htok _).1 _ hnext,
    (tokenize_lineBreak htok _).2 _ hopen⟩

end ServiceLint
