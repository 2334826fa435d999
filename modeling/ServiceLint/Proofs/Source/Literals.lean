import ServiceLint.Proofs.Source.Layout

/-!
# Where string literals end

A string literal goes on over plain characters and over pairs of a backslash and one more character. It is closed
by the first quote after them. At the end of the text and at a line feed it is left open (`stringBody_eq_none_iff`),
and that is all that makes a text fail with an open string literal: `tokenize_string`.

The character after a backslash can be a line feed, so a string token can have line feeds, but only such
(`IsLiteralText.escape_before`).
-/
namespace ServiceLint

/-- What a string literal goes on over: characters that are not special, and backslashes with the next character,
whichever that is. -/
inductive IsLiteralText : List Char → Prop
  | nil : IsLiteralText []
  | plain {c : Char} {cs : List Char} (hquote : c ≠ '"') (hfeed : c ≠ '\n') (hescape : c ≠ '\\')
      (h : IsLiteralText cs) : IsLiteralText (c :: cs)
  | escape (c : Char) {cs : List Char} (h : IsLiteralText cs) : IsLiteralText ('\\' :: c :: cs)

/-- What leaves a literal open: the end of the text, also directly after a backslash, or a line feed. -/
def LeavesOpen (rest : List Char) : Prop := rest = [] ∨ rest = ['\\'] ∨ rest.head? = some '\n'

/-! ## One literal -/

/-- A literal goes on over its text to whatever comes then. -/
theorem IsLiteralText.stringBody_append {inner : List Char} (h : IsLiteralText inner) (rest : List Char) :
    stringBody (inner ++ rest) = (stringBody rest).map fun (body, tail) => (inner ++ body, tail) := by
  induction h with
  | nil => simp
  | @plain c cs hquote hfeed hescape _ ih =>
    rw [List.cons_append, stringBody.eq_5 c _ hquote hfeed (fun _ _ hc => absurd hc hescape), ih, Option.map_map]
    rfl
  | escape c _ ih =>
    rw [List.cons_append, List.cons_append, stringBody, ih, Option.map_map]
    rfl

/-- After the text of a literal there is its closing quote, or the literal is left open. -/
theorem exists_isLiteralText (cs : List Char) : ∃ inner rest, cs = inner ++ rest ∧ IsLiteralText inner ∧
    ((∃ tail, rest = '"' :: tail) ∨ LeavesOpen rest) := by
  fun_induction stringBody cs with
  | case1 => exact ⟨[], [], rfl, .nil, Or.inr (Or.inl rfl)⟩
  | case2 tail => exact ⟨[], _, rfl, .nil, Or.inl ⟨tail, rfl⟩⟩
  | case3 tail => exact ⟨[], _, rfl, .nil, Or.inr (Or.inr (Or.inr rfl))⟩
  | case4 c cs ih =>
    obtain ⟨inner, rest, rfl, hinner, hrest⟩ := ih
    exact ⟨'\\' :: c :: inner, rest, rfl, .escape c hinner, hrest⟩
  | case5 c cs hquote hfeed hpair ih =>
    by_cases hc : c = '\\'
    · subst hc
      cases cs with
      | nil => exact ⟨[], _, rfl, .nil, Or.inr (Or.inr (Or.inl rfl))⟩
      | cons d ds => exact absurd rfl (hpair d ds rfl)
    · obtain ⟨inner, rest, rfl, hinner, hrest⟩ := ih
      exact ⟨c :: inner, rest, rfl, .plain hquote hfeed hc hinner, hrest⟩

theorem LeavesOpen.stringBody_eq {rest : List Char} (h : LeavesOpen rest) : stringBody rest = none := by
  rcases h with rfl | rfl | hfeed
  · rfl
  · rfl
  · obtain ⟨tail, rfl⟩ := List.head?_eq_some_iff.1 hfeed
    rfl

/-- A literal that is read to its end is its text and the closing quote. -/
theorem exists_of_stringBody {cs body rest : List Char} (h : stringBody cs = some (body, rest)) :
    ∃ inner, body = inner ++ ['"'] ∧ IsLiteralText inner := by
  obtain ⟨inner, rest', rfl, hinner, ⟨tail, rfl⟩ | hopen⟩ := exists_isLiteralText cs
  · rw [hinner.stringBody_append] at h
    cases h
    exact ⟨inner, rfl, hinner⟩
  · rw [hinner.stringBody_append, hopen.stringBody_eq] at h
    cases h

/-- A literal is left open exactly at the end of the text and at a line feed that no backslash hides. -/
theorem stringBody_eq_none_iff {cs : List Char} :
    stringBody cs = none ↔ ∃ inner rest, cs = inner ++ rest ∧ IsLiteralText inner ∧ LeavesOpen rest := by
  constructor
  · intro h
    obtain ⟨inner, rest, rfl, hinner, ⟨tail, rfl⟩ | hopen⟩ := exists_isLiteralText cs
    · rw [hinner.stringBody_append] at h
      cases h
    · exact ⟨inner, rest, rfl, hinner, hopen⟩
  · rintro ⟨inner, rest, rfl, hinner, hopen⟩
    rw [hinner.stringBody_append, hopen.stringBody_eq]
    rfl

/-- A line feed before the closing quote stands directly after a backslash. -/
theorem IsLiteralText.escape_before {inner u v : List Char} (h : IsLiteralText inner)
    (hfeed : inner ++ ['"'] = u ++ '\n' :: v) : ∃ w, u = w ++ ['\\'] := by
  induction h generalizing u with
  | nil => cases u <;> simp at hfeed
  | @plain c cs _ hc _ _ ih =>
    cases u with
    | nil => exact absurd (List.cons.inj hfeed).1 hc
    | cons d u =>
      obtain ⟨rfl, hrest⟩ := List.cons.inj hfeed
      obtain ⟨w, rfl⟩ := ih hrest
      exact ⟨c :: w, rfl⟩
  | @escape c cs _ ih =>
    match u, hfeed with
    | [], hfeed => exact absurd (List.cons.inj hfeed).1 (by decide)
    | [d], hfeed =>
      obtain ⟨rfl, -⟩ := List.cons.inj hfeed
      exact ⟨[], rfl⟩
    | d :: d' :: u, hfeed =>
      obtain ⟨rfl, htail⟩ := List.cons.inj hfeed
      obtain ⟨rfl, hrest⟩ := List.cons.inj htail
      obtain ⟨w, rfl⟩ := ih hrest
      exact ⟨'\\' :: c :: w, rfl⟩

theorem Lexes.exists_isLiteralText {c : Char} {cs chars rest : List Char} {kind : TokenKind}
    (h : Lexes c cs kind chars rest) (hk : kind = .string) :
    ∃ inner, chars = '"' :: (inner ++ ['"']) ∧ IsLiteralText inner := by
  cases h <;> cases hk
  next hb =>
    obtain ⟨inner, rfl, hinner⟩ := exists_of_stringBody hb
    exact ⟨inner, rfl, hinner⟩

/-! ## Texts with an open literal -/

theorem lexeme_error_string_iff {c : Char} {cs : List Char} :
    lexeme c cs = .error .string ↔ c = '"' ∧ stringBody cs = none := by
  constructor
  · intro h
    unfold lexeme at h
    split at h
    · next hc =>
      split at h
      · cases h
      · next hnone => exact ⟨hc, hnone⟩
    · split at h
      · split at h <;> cases h
      · split at h
        · cases h
        · split at h
          · cases h
          · split at h <;> cases h
  · rintro ⟨rfl, hnone⟩
    simp [lexeme, hnone]

/-- Reading tokens fails exactly where it has come to a literal that is left open. -/
theorem scan_eq_error_iff {o p : Nat} {cs : List Char} {literal : Literal} :
    scan o cs = .error (.unterminated literal p) ↔
      ∃ ts c tail, Scans o cs ts p (c :: tail) ∧ Text.isWhiteSpace c = false ∧ startsComment c tail = false ∧
        lexeme c tail = .error literal := by
  constructor
  · intro h
    fun_induction scan o cs with
    | case1 => cases h
    | case2 o c cs hc ih =>
      obtain ⟨ts, d, tail, hread, hstop⟩ := ih h
      exact ⟨ts, d, tail, .space hc hread, hstop⟩
    | case3 o c cs hc hs ih =>
      obtain ⟨ts, d, tail, hread, hstop⟩ := ih h
      exact ⟨ts, d, tail, .comment (by simpa using hc) hs hread, hstop⟩
    | case4 o c cs hc hs literal hl =>
      cases h
      exact ⟨[], c, cs, .stop _ _, by simpa using hc, by simpa using hs, hl⟩
    | case5 o c cs hc hs kind chars rest hl _ e hrec ih =>
      cases h
      obtain ⟨ts, d, tail, hread, hstop⟩ := ih hrec
      exact ⟨_, d, tail, .token (by simpa using hc) (by simpa using hs) (.of_lexeme hl) hread, hstop⟩
    | case6 => cases h
  · rintro ⟨ts, c, tail, hread, hc, hs, hl⟩
    have hstop : scan p (c :: tail) = .error (.unterminated literal p) := by
      rw [scan, if_neg (by simp [hc]), if_neg (by simp [hs])]
      split
      · next he =>
        rw [hl] at he
        cases he
        rfl
      · next he =>
        rw [hl] at he
        cases he
    rw [hread.scan_eq, hstop]
    rfl

/-- Where a string literal ends. In a text that is accepted each one is closed, and a line feed in it stands directly
after a backslash. A text fails at an open string literal exactly when its tokens come to a quote after which a line
feed without a backslash, or the end of the text, is reached before another quote; the error is at that first quote. -/
theorem tokenize_string (text : List Char) :
    (∀ tokens, tokenize text = .ok tokens → ∀ t ∈ tokens, t.kind = .string →
      (∃ inner, t.chars = '"' :: (inner ++ ['"']) ∧ IsLiteralText inner) ∧
        ∀ u v, t.chars = u ++ '\n' :: v → ∃ w, u = w ++ ['\\']) ∧
    ∀ o, tokenize text = .error (.unterminated .string o) ↔
      ∃ ts inner rest, Scans 0 text ts o ('"' :: (inner ++ rest)) ∧ IsLiteralText inner ∧ LeavesOpen rest := by
  refine ⟨fun tokens h t ht hk => ?_, fun o => ?_⟩
  · obtain ⟨a, c, tail, b, -, -, -, -, hlexes⟩ := (scan_eq_ok_iff.1 h).mem_lexes ht
    obtain ⟨inner, hchars, hinner⟩ := hlexes.exists_isLiteralText hk
    refine ⟨⟨inner, hchars, hinner⟩, fun u v hfeed => ?_⟩
    rw [hchars] at hfeed
    cases u with
    | nil => exact absurd (List.cons.inj hfeed).1 (by decide)
    | cons d u =>
      obtain ⟨rfl, hrest⟩ := List.cons.inj hfeed
      obtain ⟨w, rfl⟩ := hinner.escape_before hrest
      exact ⟨'"' :: w, rfl⟩
  · rw [tokenize, scan_eq_error_iff]
    constructor
    · rintro ⟨ts, c, tail, hread, -, -, hl⟩
      obtain ⟨rfl, hnone⟩ := lexeme_error_string_iff.1 hl
      obtain ⟨inner, rest, rfl, hinner, hopen⟩ := stringBody_eq_none_iff.1 hnone
      exact ⟨ts, inner, rest, hread, hinner, hopen⟩
    · rintro ⟨ts, inner, rest, hread, hinner, hopen⟩
      exact ⟨ts, '"', inner ++ rest, hread, by decide, rfl,
        lexeme_error_string_iff.2 ⟨rfl, stringBody_eq_none_iff.2 ⟨inner, rest, rfl, hinner, hopen⟩⟩⟩

/-- The quote after two backslashes closes the literal, and the next literal is open at the end of its line. -/
theorem tokenize_string_backslashes : ∃ text text' tokens, text = "\"\\\\\"".toList ∧
    text' = "\"\\\\\" \"é\\\"\n\"".toList ∧
    tokenize text = .ok tokens ∧
    (∀ t ∈ tokens, t.kind = .string → (∃ inner, t.chars = '"' :: (inner ++ ['"']) ∧ IsLiteralText inner) ∧
      ∀ u v, t.chars = u ++ '\n' :: v → ∃ w, u = w ++ ['\\']) ∧
    tokenize text' = .error (.unterminated .string 5) ∧
    ∃ ts inner rest, Scans 0 text' ts 5 ('"' :: (inner ++ rest)) ∧ IsLiteralText inner ∧ LeavesOpen rest := by
  have htok : tokenize "\"\\\\\"".toList = .ok [⟨.string, 0, "\"\\\\\""⟩] := eq_ok_of_toOption (by decide +kernel)
  have hopen : tokenize "\"\\\\\" \"é\\\"\n\"".toList = .error (.unterminated .string 5) :=
    eq_error_of_decide (by decide +kernel)
  exact ⟨_, _, _, rfl, rfl, htok, (tokenize_string _).1 _ htok, hopen, ((tokenize_string _).2 5).1 hopen⟩

/-- A backslash at the end of a line takes the next line into the literal. -/
theorem tokenize_string_feed : ∃ text tokens t, text = "\"a\\\nb\"".toList ∧ tokenize text = .ok tokens ∧
    t ∈ tokens ∧ t.kind = .string ∧ '\n' ∈ t.chars := by
  have htok : tokenize "\"a\\\nb\"".toList = .ok [⟨.string, 0, "\"a\\\nb\""⟩] :=
    eq_ok_of_toOption (by decide +kernel)
  exact ⟨_, _, _, rfl, htok, List.mem_singleton_self _, rfl, by decide⟩

end ServiceLint
