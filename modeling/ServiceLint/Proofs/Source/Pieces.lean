import ServiceLint.Proofs.Source.Scans

/-!
# Texts written piece by piece

A text that is put together from white space and tokens is read as those tokens, when each token is read
as such before what follows it (`ReadsAs`). `scans_written` says so; the rest of this module tells when a
name or a punctuator is read as itself.
-/
namespace ServiceLint

/-- A piece of a text: white space, or the text of a token. -/
inductive Piece where
  | blank (chars : List Char)
  | token (kind : TokenKind) (text : String)

namespace Piece

def chars : Piece → List Char
  | .blank cs => cs
  | .token _ s => s.toList

/-- The token of a piece that starts at offset `o`. -/
def token? (o : Nat) : Piece → Option Token
  | .blank _ => none
  | .token kind s => some ⟨kind, o, s⟩

end Piece

/-- The text made of the pieces. -/
def written (ps : List Piece) : List Char := ps.flatMap Piece.chars

/-- The tokens of the pieces when their text starts at offset `o`. -/
def tokensOf (o : Nat) : List Piece → List Token
  | [] => []
  | p :: ps => (p.token? o).toList ++ tokensOf (o + Text.size p.chars) ps

@[simp]
theorem written_nil : written [] = [] := rfl

@[simp]
theorem written_cons (p : Piece) (ps : List Piece) : written (p :: ps) = p.chars ++ written ps := rfl

@[simp]
theorem written_append (ps qs : List Piece) : written (ps ++ qs) = written ps ++ written qs := by
  simp [written]

theorem tokensOf_append (o : Nat) (ps qs : List Piece) :
    tokensOf o (ps ++ qs) = tokensOf o ps ++ tokensOf (o + Text.size (written ps)) qs := by
  induction ps generalizing o with
  | nil => simp [tokensOf]
  | cons p ps ih => simp [tokensOf, ih, Nat.add_assoc]

/-- The characters are read as one token of the kind when the rest follows. -/
def ReadsAs (kind : TokenKind) (cs rest : List Char) : Prop :=
  ∃ c w, cs = c :: w ∧ Text.isWhiteSpace c = false ∧ startsComment c (w ++ rest) = false ∧
    Lexes c (w ++ rest) kind cs rest

/-- Each piece is read as what it is meant to be when the pieces after it and the rest follow. -/
def Readable : List Piece → List Char → Prop
  | [], _ => True
  | .blank cs :: ps, rest => (∀ c ∈ cs, Text.isWhiteSpace c = true) ∧ Readable ps rest
  | .token kind s :: ps, rest => ReadsAs kind s.toList (written ps ++ rest) ∧ Readable ps rest

theorem readable_append {ps qs : List Piece} {rest : List Char} :
    Readable (ps ++ qs) rest ↔ Readable ps (written qs ++ rest) ∧ Readable qs rest := by
  induction ps with
  | nil => simp [Readable]
  | cons p ps ih =>
    cases p with
    | blank cs => simp [Readable, ih, and_assoc]
    | token kind s => simp [Readable, ih, and_assoc]

/-- White space is passed over. -/
theorem Scans.blank {o p : Nat} {cs rest rest' : List Char} {ts : List Token}
    (hc : ∀ c ∈ cs, Text.isWhiteSpace c = true) (h : Scans (o + Text.size cs) rest ts p rest') :
    Scans o (cs ++ rest) ts p rest' := by
  induction cs generalizing o with
  | nil => exact h
  | cons c cs ih =>
    refine .space (hc c List.mem_cons_self) (ih (fun d hd => hc d (List.mem_cons_of_mem _ hd)) ?_)
    rwa [Nat.add_assoc]

/-- A text that is put together from pieces is read as their tokens. -/
theorem scans_written {ps : List Piece} {rest : List Char} (h : Readable ps rest) (o : Nat) :
    Scans o (written ps ++ rest) (tokensOf o ps) (o + Text.size (written ps)) rest := by
  induction ps generalizing o with
  | nil => exact .stop _ _
  | cons p ps ih =>
    rw [written_cons, List.append_assoc, Text.size_append, ← Nat.add_assoc]
    cases p with
    | blank cs => exact .blank h.1 (ih h.2 _)
    | token kind s =>
      obtain ⟨⟨c, w, hs, hspace, hcomment, hlex⟩, hrest⟩ := h
      have hread := Scans.token (o := o) hspace hcomment hlex (ih hrest _)
      rw [String.ofList_toList] at hread
      have htokens : tokensOf o (.token kind s :: ps) =
          ⟨kind, o, s⟩ :: tokensOf (o + Text.size s.toList) ps := rfl
      have hchars : s.toList ++ (written ps ++ rest) = c :: (w ++ (written ps ++ rest)) := by rw [hs]; rfl
      rw [htokens, Piece.chars, hchars]
      exact hread

/-! ## Names and punctuators -/

theorem startsComment_of_ident {c : Char} (h : isIdentPart c = true) (cs : List Char) :
    startsComment c cs = false := by
  have hne : ∀ d : Char, isIdentPart d = false → c ≠ d := by
    rintro d hd rfl
    rw [h] at hd
    cases hd
  simp [startsComment, hne '#' (by decide), hne '/' (by decide)]

/-- An identifier is read as such before a character that cannot continue it. -/
theorem IsIdentifier.readsAs {cs rest : List Char} (h : IsIdentifier cs)
    (hr : ∀ x ∈ rest.head?, isIdentPart x = false) : ReadsAs .ident cs rest := by
  cases cs with
  | nil => exact absurd h id
  | cons c w =>
    have hspace : Text.isWhiteSpace c = false := by
      rw [Bool.eq_false_iff]
      intro hc
      have := isIdentStart_whiteSpace hc
      rw [h.1] at this
      cases this
    exact ⟨c, w, rfl, hspace, startsComment_of_ident (isIdentPart_of_isIdentStart h.1) _, h.lexes hr⟩

/-- A name is read as such, with one kind of token, before a character that cannot continue it. -/
theorem IsNameText.readsAs {cs : List Char} (h : IsNameText cs) :
    ∃ kind, (kind = .ident ∨ kind = .quotedIdent) ∧
      ∀ rest : List Char, (∀ x ∈ rest.head?, isIdentPart x = false) → ReadsAs kind cs rest := by
  rcases h with h | ⟨v, rfl, h⟩
  · exact ⟨.ident, Or.inl rfl, fun rest hr => h.readsAs hr⟩
  · refine ⟨.quotedIdent, Or.inr rfl, fun rest hr => ⟨_, v, rfl, by decide, by simp [startsComment], ?_⟩⟩
    cases v with
    | nil => exact absurd h id
    | cons d ds =>
      have hl := @Lexes.quoted (d :: ds ++ rest) h.1
      have hd : ∀ x ∈ d :: ds, isIdentPart x = true := by
        intro x hx
        rcases List.mem_cons.1 hx with rfl | hx
        · exact isIdentPart_of_isIdentStart h.1
        · exact h.2 x hx
      rwa [takeWhile_stretch hd hr, dropWhile_stretch hd hr] at hl

/-- Punctuators that are read as such whatever follows. -/
def plainMarks : List Char := ['(', ')', ':', ',', '?', ';', '\x7b', '\x7d']

theorem readsAs_mark {c : Char} (h : c ∈ plainMarks) (rest : List Char) : ReadsAs .punct [c] rest := by
  have hfind : compoundPuncts.find? (fun p => p.toList.isPrefixOf (c :: rest)) = none := by
    simp only [plainMarks, List.mem_cons, List.not_mem_nil, or_false] at h
    rcases h with rfl | rfl | rfl | rfl | rfl | rfl | rfl | rfl <;> simp [compoundPuncts, List.isPrefixOf]
  have hl : Lexes c rest .punct (punctAt c rest).1 (punctAt c rest).2 := by
    simp only [plainMarks, List.mem_cons, List.not_mem_nil, or_false] at h
    rcases h with rfl | rfl | rfl | rfl | rfl | rfl | rfl | rfl <;>
      exact .punct (by decide) (by decide) rfl (by decide) (by decide)
  have hstart : Text.isWhiteSpace c = false ∧ startsComment c ([] ++ rest) = false := by
    simp only [plainMarks, List.mem_cons, List.not_mem_nil, or_false] at h
    rcases h with rfl | rfl | rfl | rfl | rfl | rfl | rfl | rfl <;> exact ⟨by decide, rfl⟩
  exact ⟨c, [], rfl, hstart.1, hstart.2, by simpa [punctAt, hfind] using hl⟩

theorem readsAs_arrow (rest : List Char) : ReadsAs .punct ['-', '>'] rest := by
  have hfind : compoundPuncts.find? (fun p => p.toList.isPrefixOf ('-' :: '>' :: rest)) = some "->" := by
    simp [compoundPuncts, List.isPrefixOf]
  have hl : Lexes '-' ('>' :: rest) .punct (punctAt '-' ('>' :: rest)).1 (punctAt '-' ('>' :: rest)).2 :=
    .punct (by decide) (by decide) rfl (by decide) (by decide)
  exact ⟨'-', ['>'], rfl, by decide, rfl, by simpa [punctAt, hfind] using hl⟩

end ServiceLint
