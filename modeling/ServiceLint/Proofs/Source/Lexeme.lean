import ServiceLint.Source.Scan
import ServiceLint.Proofs.Stretch

/-!
# One token and what follows it

Reading a token looks at most two characters past its end. Some characters (line feeds and other white space,
semicolons, braces and the signs that start comments) are part of no longer token, so what comes after one of them
cannot change a token that was read before it: `EndsTokens`, `lexeme_frame`. Semicolons and braces are tokens of
their own whatever follows (`lexeme_closing`). `Lexes.shape` says how the tokens of each kind look.
-/
namespace ServiceLint

/-- Characters that end every token before them, literals apart. -/
def isSeparator (c : Char) : Bool := c == '\n' || c == ';' || c == '\x7b' || c == '\x7d'

theorem isSeparator_iff {c : Char} :
    isSeparator c = true ↔ c = '\n' ∨ c = ';' ∨ c = '\x7b' ∨ c = '\x7d' := by
  simp [isSeparator, or_assoc]

/-- Characters with which no token before them goes on, literals apart. -/
structure EndsTokens (s : Char) : Prop where
  ident : isIdentPart s = false
  number : isNumberPart s = false
  point : s ≠ '.'
  compound : ∀ p ∈ compoundPuncts, s ∉ p.toList

theorem EndsTokens.digit {s : Char} (h : EndsTokens s) : s.isDigit = false := by
  have hnumber := h.number
  simp only [isNumberPart, Char.isAlphanum, Bool.or_eq_false_iff] at hnumber
  exact hnumber.1.2

theorem endsTokens_separator {s : Char} (h : isSeparator s = true) : EndsTokens s := by
  rcases isSeparator_iff.1 h with rfl | rfl | rfl | rfl <;>
    exact ⟨by decide, by decide, by decide, by decide⟩

/-! ## The parts of a token -/

/-- The closing quote is found before anything after it is looked at. -/
theorem stringBody_frame {cs body rest : List Char} (h : stringBody cs = some (body, rest))
    (rest' : List Char) : stringBody (body ++ rest') = some (body, rest') := by
  fun_induction stringBody cs generalizing body rest with
  | case1 => cases h
  | case2 => cases h; rfl
  | case3 => cases h
  | case4 c cs ih =>
    obtain ⟨⟨b, r⟩, hb, he⟩ := Option.map_eq_some_iff.1 h
    cases he
    simp [stringBody, ih hb]
  | case5 c cs hq hn hesc ih =>
    obtain ⟨⟨b, r⟩, hb, he⟩ := Option.map_eq_some_iff.1 h
    cases he
    have hc : c ≠ '\\' := by
      rintro rfl
      cases cs with
      | nil => simp [stringBody] at hb
      | cons d ds => exact hesc d ds rfl rfl
    rw [List.cons_append, stringBody.eq_5]
    · simp [ih hb]
    · exact hq
    · exact hn
    · intro d ds hd
      exact absurd hd hc

theorem templateBody_frame {cs body rest : List Char} (h : templateBody cs = some (body, rest))
    (rest' : List Char) : templateBody (body ++ rest') = some (body, rest') := by
  unfold templateBody at h
  split at h
  · cases h
  · next close tail hd =>
    cases h
    have hall : ∀ c ∈ cs.takeWhile (· ≠ '\x60'), decide (c ≠ '\x60') = true :=
      fun c hc => List.mem_takeWhile_imp (p := (· ≠ '\x60')) hc
    have hstop : ∀ c ∈ (close :: rest').head?, decide (c ≠ '\x60') = false := by
      rintro c ⟨rfl⟩
      exact dropWhile_cons_neg (p := (· ≠ '\x60')) hd
    unfold templateBody
    rw [List.append_assoc, List.singleton_append, dropWhile_stretch hall hstop,
      takeWhile_stretch hall hstop]

theorem numberBody_frame {s : Char} (hs : EndsTokens s) (u v : List Char) :
    numberBody (u ++ s :: v) = ((numberBody u).1, (numberBody u).2 ++ s :: v) := by
  have hn := hs.number
  unfold numberBody
  rw [takeWhile_append_stop hn, dropWhile_append_stop hn]
  rcases u.dropWhile isNumberPart with _ | ⟨a, _ | ⟨d, rest⟩⟩
  · split
    · next h => exact absurd (List.cons.inj h).1 hs.point
    · rfl
  · split
    · next h =>
      obtain ⟨rfl, hd⟩ := List.cons.inj h
      obtain ⟨rfl, rfl⟩ := List.cons.inj hd
      simp [hs.digit]
    · simp
  · by_cases ha : a = '.'
    · subst ha
      by_cases hd : d.isDigit
      · have ht : (d :: (rest ++ s :: v)).takeWhile isNumberPart = (d :: rest).takeWhile isNumberPart :=
          takeWhile_append_stop hn (d :: rest) v
        have hw : (d :: (rest ++ s :: v)).dropWhile isNumberPart =
            (d :: rest).dropWhile isNumberPart ++ s :: v := dropWhile_append_stop hn (d :: rest) v
        simp only [List.cons_append, hd, if_true, ht, hw]
      · simp [hd]
    · simp [ha]

/-- A word without the character starts a text when it starts what stands before the character. -/
theorem isPrefixOf_append_stop {s : Char} {w : List Char} (hw : s ∉ w) (u v : List Char) :
    w.isPrefixOf (u ++ s :: v) = w.isPrefixOf u := by
  induction w generalizing u with
  | nil => simp
  | cons a w ih =>
    simp only [List.mem_cons, not_or] at hw
    cases u with
    | nil => simp [List.isPrefixOf, Ne.symm hw.1]
    | cons b u => simp [List.isPrefixOf, ih hw.2]

theorem find?_congr_mem {α : Type _} {p q : α → Bool} {l : List α} (h : ∀ x ∈ l, p x = q x) :
    l.find? p = l.find? q := by
  induction l with
  | nil => rfl
  | cons a l ih =>
    simp only [List.mem_cons, forall_eq_or_imp] at h
    simp [List.find?_cons, h.1, ih h.2]

theorem punctAt_append_stop {s : Char} (hs : EndsTokens s) (c : Char) (u v : List Char) :
    punctAt c (u ++ s :: v) = ((punctAt c u).1, (punctAt c u).2 ++ s :: v) := by
  have hfind : ∀ p ∈ compoundPuncts, p.toList.isPrefixOf (c :: (u ++ s :: v)) = p.toList.isPrefixOf (c :: u) :=
    fun p hp => isPrefixOf_append_stop (hs.compound p hp) (c :: u) v
  unfold punctAt
  rw [find?_congr_mem hfind]
  cases hp : compoundPuncts.find? fun p => p.toList.isPrefixOf (c :: u) with
  | none => rfl
  | some p =>
    have hstarts := List.find?_some (p := fun p : String => p.toList.isPrefixOf (c :: u)) hp
    have hlen : p.toList.length ≤ (c :: u).length := (List.isPrefixOf_iff_prefix.1 hstarts).length_le
    simp only [← List.cons_append, List.take_append_of_le_length hlen, List.drop_append_of_le_length hlen]

/-! ## The whole token -/

/-- How a token is read, case by case. -/
inductive Lexes : Char → List Char → TokenKind → List Char → List Char → Prop
  | string {cs body rest : List Char} (h : stringBody cs = some (body, rest)) :
      Lexes '"' cs .string ('"' :: body) rest
  | template {cs body rest : List Char} (h : templateBody cs = some (body, rest)) :
      Lexes '\x60' cs .template ('\x60' :: body) rest
  | quoted {cs : List Char} (h : cs.head?.any isIdentStart = true) :
      Lexes '\x27' cs .quotedIdent ('\x27' :: cs.takeWhile isIdentPart) (cs.dropWhile isIdentPart)
  | ident {c : Char} {cs : List Char} (h : isIdentStart c = true) :
      Lexes c cs .ident (c :: cs.takeWhile isIdentPart) (cs.dropWhile isIdentPart)
  | number {c : Char} {cs : List Char} (hident : isIdentStart c = false) (h : c.isDigit = true) :
      Lexes c cs .number (c :: (numberBody cs).1) (numberBody cs).2
  | punct {c : Char} {cs : List Char} (hstring : c ≠ '"') (htemplate : c ≠ '\x60')
      (hquoted : (c = '\x27' && cs.head?.any isIdentStart) = false)
      (hident : isIdentStart c = false) (hdigit : c.isDigit = false) :
      Lexes c cs .punct (punctAt c cs).1 (punctAt c cs).2

theorem Lexes.of_lexeme {c : Char} {cs chars rest : List Char} {kind : TokenKind}
    (h : lexeme c cs = .ok (kind, chars, rest)) : Lexes c cs kind chars rest := by
  unfold lexeme at h
  split at h
  · split at h
    · next hc _ _ _ hb => cases h; exact hc ▸ .string hb
    · cases h
  · split at h
    · split at h
      · next hc _ _ _ hb => cases h; exact hc ▸ .template hb
      · cases h
    · split at h
      · next hc =>
        cases h
        simp only [Bool.and_eq_true, decide_eq_true_eq] at hc
        exact hc.1 ▸ .quoted hc.2
      · split at h
        · next hi => cases h; exact .ident hi
        · split at h
          · next hi hd => cases h; exact .number (by simpa using hi) hd
          · next hs ht hq hi hd =>
            cases h
            exact .punct hs ht (by simpa using hq) (by simpa using hi) (by simpa using hd)

theorem Lexes.lexeme_eq {c : Char} {cs chars rest : List Char} {kind : TokenKind}
    (h : Lexes c cs kind chars rest) : lexeme c cs = .ok (kind, chars, rest) := by
  cases h with
  | string h => simp [lexeme, h]
  | template h => simp [lexeme, h]
  | quoted h => simp [lexeme, h]
  | ident h =>
    have hs : c ≠ '"' := by rintro rfl; exact absurd h (by decide)
    have ht : c ≠ '\x60' := by rintro rfl; exact absurd h (by decide)
    have hq : c ≠ '\x27' := by rintro rfl; exact absurd h (by decide)
    simp [lexeme, h, hs, ht, hq]
  | number hi h =>
    have hs : c ≠ '"' := by rintro rfl; exact absurd h (by decide)
    have ht : c ≠ '\x60' := by rintro rfl; exact absurd h (by decide)
    have hq : c ≠ '\x27' := by rintro rfl; exact absurd h (by decide)
    simp [lexeme, h, hs, ht, hq, hi]
  | punct hs ht hq hi hd => simp [lexeme, hs, ht, hq, hi, hd]

theorem Lexes.frame {s : Char} (hs : EndsTokens s) {c : Char} {u v chars rest r : List Char}
    {kind : TokenKind} (h : Lexes c (u ++ s :: v) kind chars rest) (hr : rest = r ++ s :: v)
    (v' : List Char) : Lexes c (u ++ s :: v') kind chars (r ++ s :: v') := by
  have hident := hs.ident
  have hhead : (u ++ s :: v').head? = (u ++ s :: v).head? := by cases u <;> simp
  -- a literal is closed before the character, so the text between them stays
  have hsplit : ∀ body : List Char, body ++ rest = u ++ s :: v → u = body ++ r := by
    rintro body hb
    rw [hr, ← List.append_assoc] at hb
    exact (List.append_cancel_right hb).symm
  cases h with
  | string hb =>
    rw [hsplit _ (stringBody_append hb), List.append_assoc]
    exact .string (stringBody_frame hb _)
  | template hb =>
    rw [hsplit _ (templateBody_append hb), List.append_assoc]
    exact .template (templateBody_frame hb _)
  | quoted hq =>
    have hl := @Lexes.quoted (u ++ s :: v') (by rwa [hhead])
    rw [dropWhile_append_stop hident] at hr hl
    rw [List.append_cancel_right hr] at hl
    rwa [takeWhile_append_stop hident] at hl ⊢
  | ident hi =>
    have hl := @Lexes.ident _ (u ++ s :: v') hi
    rw [dropWhile_append_stop hident] at hr hl
    rw [List.append_cancel_right hr] at hl
    rwa [takeWhile_append_stop hident] at hl ⊢
  | number hi hd =>
    have hl := @Lexes.number _ (u ++ s :: v') hi hd
    rw [numberBody_frame hs] at hr hl ⊢
    rwa [List.append_cancel_right hr] at hl
  | punct h₁ h₂ h₃ h₄ h₅ =>
    have hl := @Lexes.punct _ (u ++ s :: v') h₁ h₂ (by rwa [hhead]) h₄ h₅
    rw [punctAt_append_stop hs] at hr hl ⊢
    rwa [List.append_cancel_right hr] at hl

/-- What follows a character with which no token goes on does not change the token before it. -/
theorem lexeme_frame {s : Char} (hs : EndsTokens s) {c : Char} {cs chars r v : List Char}
    {kind : TokenKind} (h : lexeme c cs = .ok (kind, chars, r ++ s :: v)) (v' : List Char) :
    ∃ u, cs = u ++ s :: v ∧ lexeme c (u ++ s :: v') = .ok (kind, chars, r ++ s :: v') := by
  obtain ⟨d, w, rfl⟩ := List.exists_cons_of_ne_nil (lexeme_ne_nil h)
  have hcs : cs = (w ++ r) ++ s :: v := by
    rw [List.append_assoc]
    exact (List.cons.inj (lexeme_append h)).2.symm
  rw [hcs] at h
  exact ⟨w ++ r, hcs, ((Lexes.of_lexeme h).frame hs rfl v').lexeme_eq⟩

/-- A semicolon or a brace is a token of its own. -/
theorem lexeme_closing {s : Char} (hs : s = ';' ∨ s = '\x7b' ∨ s = '\x7d') (cs : List Char) :
    lexeme s cs = .ok (.punct, [s], cs) := by
  have hfind : compoundPuncts.find? (fun p => p.toList.isPrefixOf (s :: cs)) = none := by
    rcases hs with rfl | rfl | rfl <;> simp [compoundPuncts, List.isPrefixOf]
  have hl : Lexes s cs .punct (punctAt s cs).1 (punctAt s cs).2 := by
    rcases hs with rfl | rfl | rfl <;> exact .punct (by decide) (by decide) rfl (by decide) (by decide)
  simpa [punctAt, hfind] using hl.lexeme_eq

/-! ## How tokens begin and end -/

theorem stringBody_getLast? {cs body rest : List Char} (h : stringBody cs = some (body, rest)) :
    body.getLast? = some '"' := by
  fun_induction stringBody cs generalizing body rest with
  | case1 => cases h
  | case2 => cases h; rfl
  | case3 => cases h
  | case4 c cs ih =>
    obtain ⟨⟨b, r⟩, hb, he⟩ := Option.map_eq_some_iff.1 h
    cases he
    simp [List.getLast?_cons, ih hb]
  | case5 c cs _ _ _ ih =>
    obtain ⟨⟨b, r⟩, hb, he⟩ := Option.map_eq_some_iff.1 h
    cases he
    simp [List.getLast?_cons, ih hb]

theorem exists_of_templateBody {cs body rest : List Char} (h : templateBody cs = some (body, rest)) :
    ∃ inner, body = inner ++ ['\x60'] ∧ '\x60' ∉ inner := by
  unfold templateBody at h
  split at h
  · cases h
  · next close tail hd =>
    cases h
    have hclose := dropWhile_cons_neg (p := (· ≠ '\x60')) hd
    refine ⟨cs.takeWhile (· ≠ '\x60'), by simpa using hclose, fun hmem => ?_⟩
    simpa using List.mem_takeWhile_imp hmem

theorem mem_numberBody {cs : List Char} {x : Char} (h : x ∈ (numberBody cs).1) :
    isNumberPart x = true ∨ x = '.' := by
  have hpart : ∀ l : List Char, x ∈ l.takeWhile isNumberPart → isNumberPart x = true :=
    fun l hx => List.mem_takeWhile_imp hx
  unfold numberBody at h
  split at h
  · split at h
    · rcases List.mem_append.1 h with h | h
      · exact Or.inl (hpart _ h)
      · rcases List.mem_cons.1 h with rfl | h
        · exact Or.inr rfl
        · exact Or.inl (hpart _ h)
    · exact Or.inl (hpart _ h)
  · exact Or.inl (hpart _ h)

theorem punctAt_cases (c : Char) (cs : List Char) :
    (punctAt c cs).1 = [c] ∨ ∃ p ∈ compoundPuncts, (punctAt c cs).1 = p.toList := by
  unfold punctAt
  split
  · next p hp =>
    obtain ⟨t, ht⟩ := List.isPrefixOf_iff_prefix.1
      (List.find?_some (p := fun p : String => p.toList.isPrefixOf (c :: cs)) hp)
    exact Or.inr ⟨p, List.mem_of_find?_eq_some hp, by rw [← ht, List.take_left]⟩
  · exact Or.inl rfl

theorem mem_punctAt {c x : Char} {cs : List Char} (h : x ∈ (punctAt c cs).1) :
    x = c ∨ ∃ p ∈ compoundPuncts, x ∈ p.toList := by
  rcases punctAt_cases c cs with hone | ⟨p, hp, htext⟩
  · exact Or.inl (by simpa [hone] using h)
  · exact Or.inr ⟨p, hp, htext ▸ h⟩

/-- No token ends with a carriage return, so none ends inside a line terminator. -/
theorem Lexes.getLast?_ne_return {c : Char} {cs chars rest : List Char} {kind : TokenKind}
    (h : Lexes c cs kind chars rest) (hc : c ≠ '\r') : chars.getLast? ≠ some '\r' := by
  cases h with
  | string hb => simp [List.getLast?_cons, stringBody_getLast? hb]
  | template hb =>
    obtain ⟨inner, rfl, -⟩ := exists_of_templateBody hb
    simp [List.getLast?_cons]
  | quoted =>
    intro hl
    rcases List.mem_cons.1 (List.mem_of_getLast? hl) with h | h
    · exact absurd h (by decide)
    · exact absurd (List.mem_takeWhile_imp h) (by decide)
  | ident =>
    intro hl
    rcases List.mem_cons.1 (List.mem_of_getLast? hl) with h | h
    · exact hc h.symm
    · exact absurd (List.mem_takeWhile_imp h) (by decide)
  | number =>
    intro hl
    rcases List.mem_cons.1 (List.mem_of_getLast? hl) with h | h
    · exact hc h.symm
    · rcases mem_numberBody h with h | h
      · exact absurd h (by decide)
      · exact absurd h (by decide)
  | punct =>
    intro hl
    rcases mem_punctAt (List.mem_of_getLast? hl) with h | h
    · exact hc h.symm
    · exact absurd h (by decide)

/-! ## Names -/

/-- A text that is read as an identifier. -/
def IsIdentifier : List Char → Prop
  | [] => False
  | c :: cs => isIdentStart c = true ∧ ∀ x ∈ cs, isIdentPart x = true

instance : DecidablePred IsIdentifier
  | [] => inferInstanceAs (Decidable False)
  | c :: cs => decidable_of_iff ((isIdentStart c && cs.all isIdentPart) = true) (by simp [IsIdentifier])

/-- A text that is read as an identifier, quoted or not. -/
def IsNameText (cs : List Char) : Prop :=
  IsIdentifier cs ∨ ∃ ident, cs = '\x27' :: ident ∧ IsIdentifier ident

theorem isIdentPart_of_isIdentStart {c : Char} (h : isIdentStart c = true) : isIdentPart c = true := by
  simp only [isIdentStart, isIdentPart, Bool.or_eq_true] at *
  rcases h with h | h
  · exact Or.inl (Or.inl h)
  · exact Or.inr h

/-- No token but a literal goes on with white space. -/
theorem endsTokens_whiteSpace {c : Char} (h : Text.isWhiteSpace c = true) : EndsTokens c := by
  have hmem : c.toNat ∈ [9, 10, 11, 12, 13, 0x20, 0x85, 0xA0, 0x1680, 0x2000, 0x2001, 0x2002, 0x2003,
      0x2004, 0x2005, 0x2006, 0x2007, 0x2008, 0x2009, 0x200A, 0x2028, 0x2029, 0x202F, 0x205F, 0x3000] := by
    simp only [Text.isWhiteSpace, Text.inRanges, Text.whiteSpace, List.any_cons, List.any_nil,
      Bool.or_eq_true, Bool.and_eq_true, decide_eq_true_eq, Bool.or_false] at h
    simp only [List.mem_cons, List.not_mem_nil, or_false]
    omega
  have hall : ∀ n ∈ [9, 10, 11, 12, 13, 0x20, 0x85, 0xA0, 0x1680, 0x2000, 0x2001, 0x2002, 0x2003,
      0x2004, 0x2005, 0x2006, 0x2007, 0x2008, 0x2009, 0x200A, 0x2028, 0x2029, 0x202F, 0x205F, 0x3000],
      isIdentPart (Char.ofNat n) = false ∧ isNumberPart (Char.ofNat n) = false ∧ Char.ofNat n ≠ '.' ∧
        ∀ p ∈ compoundPuncts, Char.ofNat n ∉ p.toList := by decide +kernel
  obtain ⟨hident, hnumber, hpoint, hcompound⟩ := hall _ hmem
  rw [Char.ofNat_toNat] at hident hnumber hpoint hcompound
  exact ⟨hident, hnumber, hpoint, hcompound⟩

/-- No identifier has white space in it. -/
theorem isIdentPart_whiteSpace {c : Char} (h : Text.isWhiteSpace c = true) : isIdentPart c = false :=
  (endsTokens_whiteSpace h).ident

theorem isIdentStart_whiteSpace {c : Char} (h : Text.isWhiteSpace c = true) : isIdentStart c = false := by
  rw [Bool.eq_false_iff]
  intro hc
  have hpart := isIdentPart_of_isIdentStart hc
  rw [isIdentPart_whiteSpace h] at hpart
  cases hpart

/-- How the characters of a token of the kind look, given those that follow them. A word goes on as far as its
characters can continue one. -/
def TokenKind.Shape : TokenKind → List Char → List Char → Prop
  | .ident, cs, after => IsIdentifier cs ∧ ∀ c ∈ after.head?, isIdentPart c = false
  | .quotedIdent, cs, after => ∃ word, cs = '\x27' :: word ∧ IsIdentifier word ∧
      ∀ c ∈ after.head?, isIdentPart c = false
  | .string, cs, _ => ∃ inner, cs = '"' :: (inner ++ ['"'])
  | .template, cs, _ => ∃ inner, cs = '\x60' :: (inner ++ ['\x60']) ∧ '\x60' ∉ inner
  | .number, cs, _ => ∃ c more, cs = c :: more ∧ c.isDigit = true
  | .punct, cs, _ => (∃ c, cs = [c]) ∨ ∃ p ∈ compoundPuncts, cs = p.toList

theorem isIdentPart_head?_dropWhile (cs : List Char) :
    ∀ c ∈ (cs.dropWhile isIdentPart).head?, isIdentPart c = false := by
  intro c hc
  obtain ⟨rest, hrest⟩ := List.head?_eq_some_iff.1 hc
  exact dropWhile_cons_neg hrest

/-- A token looks as its kind says. -/
theorem Lexes.shape {c : Char} {cs chars rest : List Char} {kind : TokenKind}
    (h : Lexes c cs kind chars rest) : kind.Shape chars rest := by
  cases h with
  | string hb =>
    obtain ⟨inner, rfl⟩ := List.getLast?_eq_some_iff.1 (stringBody_getLast? hb)
    exact ⟨inner, rfl⟩
  | template hb =>
    obtain ⟨inner, rfl, hinner⟩ := exists_of_templateBody hb
    exact ⟨inner, rfl, hinner⟩
  | quoted hq =>
    cases cs with
    | nil => cases hq
    | cons d ds =>
      have hd : isIdentStart d = true := hq
      refine ⟨_, rfl, ?_, isIdentPart_head?_dropWhile (d :: ds)⟩
      rw [List.takeWhile_cons_of_pos (isIdentPart_of_isIdentStart hd)]
      exact ⟨hd, fun x hx => List.mem_takeWhile_imp hx⟩
  | ident hi => exact ⟨⟨hi, fun x hx => List.mem_takeWhile_imp hx⟩, isIdentPart_head?_dropWhile cs⟩
  | number _ hd => exact ⟨c, _, rfl, hd⟩
  | punct =>
    rcases punctAt_cases c cs with hone | hcompound
    · exact Or.inl ⟨c, hone⟩
    · exact Or.inr hcompound

/-- A token of either name kind has the text of a name. -/
theorem Lexes.isNameText {c : Char} {cs chars rest : List Char} {kind : TokenKind}
    (h : Lexes c cs kind chars rest) (hk : kind = .ident ∨ kind = .quotedIdent) :
    IsNameText chars := by
  have hshape := h.shape
  rcases hk with rfl | rfl
  · exact Or.inl hshape.1
  · obtain ⟨word, hchars, hword, -⟩ := hshape
    exact Or.inr ⟨word, hchars, hword⟩

theorem IsNameText.exists_cons {cs : List Char} (h : IsNameText cs) :
    ∃ c more, cs = c :: more ∧ (isIdentStart c = true ∨ c = '\x27' ∧ more ≠ []) := by
  rcases h with h | ⟨word, rfl, hword⟩
  · cases cs with
    | nil => exact absurd h id
    | cons c more => exact ⟨c, more, rfl, Or.inl h.1⟩
  · refine ⟨'\x27', word, rfl, Or.inr ⟨rfl, ?_⟩⟩
    rintro rfl
    exact hword

/-- Only the tokens of names look like names. -/
theorem Lexes.kind_of_isNameText {c : Char} {cs chars rest : List Char} {kind : TokenKind}
    (h : Lexes c cs kind chars rest) (hname : IsNameText chars) : kind = .ident ∨ kind = .quotedIdent := by
  obtain ⟨d, more, hchars, hd⟩ := hname.exists_cons
  cases h with
  | ident => exact Or.inl rfl
  | quoted => exact Or.inr rfl
  | string =>
    obtain ⟨rfl, -⟩ := List.cons.inj hchars
    exact absurd (hd.imp_right And.left) (by decide)
  | template =>
    obtain ⟨rfl, -⟩ := List.cons.inj hchars
    exact absurd (hd.imp_right And.left) (by decide)
  | number hident hdigit =>
    obtain ⟨rfl, -⟩ := List.cons.inj hchars
    rcases hd with hd | ⟨rfl, -⟩
    · exact absurd (hident.symm.trans hd) (by decide)
    · exact absurd hdigit (by decide)
  | punct _ _ _ hident =>
    exfalso
    rcases punctAt_cases c cs with hone | ⟨p, hp, hcompound⟩
    · obtain ⟨rfl, rfl⟩ := List.cons.inj (hone.symm.trans hchars)
      rcases hd with hd | ⟨-, hne⟩
      · exact absurd (hident.symm.trans hd) (by decide)
      · exact hne rfl
    · have hstart : ∀ p ∈ compoundPuncts, p.toList.head?.any (fun d => isIdentStart d || d == '\x27') = false := by
        decide +kernel
      have hhead := hstart p hp
      rw [← hcompound, hchars, List.head?_cons, Option.any_some, Bool.or_eq_false_iff, beq_eq_false_iff_ne] at hhead
      rcases hd with hd | ⟨hquote, -⟩
      · exact absurd (hhead.1.symm.trans hd) (by decide)
      · exact hhead.2 hquote

theorem IsNameText.mem {cs : List Char} (h : IsNameText cs) {c : Char} (hc : c ∈ cs) :
    isIdentPart c = true ∨ c = '\x27' := by
  have hident : ∀ w, IsIdentifier w → ∀ c ∈ w, isIdentPart c = true := by
    intro w hw c hc
    cases w with
    | nil => exact absurd hw id
    | cons d w =>
      rcases List.mem_cons.1 hc with rfl | hc
      · exact isIdentPart_of_isIdentStart hw.1
      · exact hw.2 c hc
  rcases h with h | ⟨v, rfl, h⟩
  · exact Or.inl (hident cs h c hc)
  · rcases List.mem_cons.1 hc with rfl | hc
    · exact Or.inr rfl
    · exact Or.inl (hident v h c hc)

/-- A name has no character of a kind that identifiers do not have. -/
theorem IsNameText.notMem {cs : List Char} (h : IsNameText cs) {c : Char} (hc : isIdentPart c = false)
    (hquote : c ≠ '\x27') : c ∉ cs := by
  intro hmem
  rcases h.mem hmem with hpart | rfl
  · rw [hc] at hpart
    cases hpart
  · exact hquote rfl

theorem IsNameText.ne_nil {cs : List Char} (h : IsNameText cs) : cs ≠ [] := by
  rintro rfl
  rcases h with h | ⟨_, h, -⟩
  · exact h
  · cases h

theorem IsNameText.not_whiteSpace {cs : List Char} (h : IsNameText cs) :
    ∀ c ∈ cs, Text.isWhiteSpace c = false := by
  intro c hc
  rw [Bool.eq_false_iff]
  intro hspace
  refine h.notMem (isIdentPart_whiteSpace hspace) ?_ hc
  rintro rfl
  revert hspace
  decide

theorem IsIdentifier.dropQuotes {w : List Char} (h : IsIdentifier w) :
    w.dropWhile (· == '\x27') = w := by
  cases w with
  | nil => rfl
  | cons c cs =>
    have hq : (c == '\x27') = false := by
      rw [beq_eq_false_iff_ne]
      rintro rfl
      exact absurd h.1 (by decide)
    simp [hq]

/-- Without its quote a name is an identifier. -/
theorem IsNameText.dropQuotes {w : List Char} (h : IsNameText w) :
    IsIdentifier (w.dropWhile (· == '\x27')) := by
  rcases h with h | ⟨v, rfl, h⟩
  · rwa [h.dropQuotes]
  · rwa [List.dropWhile_cons_of_pos (by simp), h.dropQuotes]

/-- An identifier is read up to the first character that cannot continue it. -/
theorem IsIdentifier.lexes {c : Char} {cs rest : List Char} (h : IsIdentifier (c :: cs))
    (hr : ∀ x ∈ rest.head?, isIdentPart x = false) : Lexes c (cs ++ rest) .ident (c :: cs) rest := by
  have hl := @Lexes.ident _ (cs ++ rest) h.1
  rwa [takeWhile_stretch h.2 hr, dropWhile_stretch h.2 hr] at hl

end ServiceLint
