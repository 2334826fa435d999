import ServiceLint.Proofs.Source.Insert
import ServiceLint.Proofs.Source.Parse.Unchecked

/-!
# Quoting the alias of an import

A quote before the alias of an import makes it another token of the same name. The text before it is read as it was,
up to the word `as`, and the text after it is read one place further on (`Scans.quote`). Since the quote is no part of
the name that an import gives to its module (`Parse.importDecl_alias`), the new text declares the same module at
other places: `Module.parse_quoteAt`.
-/
namespace ServiceLint

/-- The text with a quote before the character at the offset. -/
def quoteAt (o : Nat) (text : List Char) : List Char :=
  Text.takeBytes o text ++ '\x27' :: Text.dropBytes o text

theorem quoteAt_append (a b : List Char) : quoteAt (Text.size a) (a ++ b) = a ++ '\x27' :: b := by
  rw [quoteAt, Text.takeBytes_size, Text.dropBytes_size]

theorem size_quoteAt (o : Nat) (text : List Char) : Text.size (quoteAt o text) = Text.size text + 1 := by
  have hcut := congrArg Text.size (Text.takeBytes_append_dropBytes o text)
  have hquote : Char.utf8Size '\x27' = 1 := rfl
  rw [Text.size_append] at hcut
  rw [quoteAt, Text.size_append, Text.size_cons, hquote]
  omega

/-- The quoted name in place of the name. -/
def Token.quote (t : Token) : Token := ⟨.quotedIdent, t.start, String.ofList ('\x27' :: t.chars)⟩

/-! ## White space and comments before a token -/

/-- What is passed over before a character other than a line feed is passed over whatever follows. -/
theorem Scans.skips {o p : Nat} {c : Char} {cs gap rest : List Char} {ts : List Token}
    (h : Scans o cs ts p (c :: rest)) (hts : ts = []) (hcs : cs = gap ++ c :: rest) (hc : c ≠ '\n') :
    Skips gap := by
  generalize hend : c :: rest = left at h
  induction h generalizing gap with
  | stop o cs =>
    subst hend
    obtain rfl : gap = [] := by simpa using hcs
    exact skips_blank (by simp)
  | @space o p d cs left ts hd h ih =>
    subst hend
    obtain ⟨pre, rfl, -⟩ := h.suffix
    obtain rfl : d :: pre = gap := List.append_cancel_right hcs
    exact .space hd (ih hts rfl rfl)
  | @comment o p d cs left ts hd hs h ih =>
    subst hend
    obtain ⟨pre, hpre, -⟩ := h.suffix
    have hstart := startsComment_takeWhile hs
    have hfeed : '\n' ∉ cs.takeWhile (· ≠ '\n') := by
      intro hmem
      simpa using List.mem_takeWhile_imp hmem
    have hsplit : cs = cs.takeWhile (· ≠ '\n') ++ (pre ++ c :: rest) := by
      rw [← hpre, List.takeWhile_append_dropWhile]
    obtain rfl : d :: (cs.takeWhile (· ≠ '\n') ++ pre) = gap := by
      refine List.append_cancel_right (?_ : _ ++ c :: rest = _)
      rw [← hcs, List.cons_append, List.append_assoc, ← hsplit]
    -- the line feed that ends the comment stands before the character
    have hhead : pre.head? = some '\n' := by
      cases pre with
      | nil => exact absurd (by simpa using dropWhile_cons_neg hpre) hc
      | cons e pre =>
        obtain rfl : e = '\n' := by simpa using dropWhile_cons_neg hpre
        rfl
    exact .comment hd hstart hfeed hhead (ih hts hpre rfl)
  | token => cases hts

/-- No token goes on with the white space or the comment that follows it. -/
theorem Scans.endsTokens_head {o p : Nat} {c : Char} {cs rest : List Char} {ts : List Token}
    (h : Scans o (c :: cs) ts p rest) (hts : ts = []) (hne : c :: cs ≠ rest) : EndsTokens c := by
  cases h with
  | stop => exact absurd rfl hne
  | space hc => exact endsTokens_whiteSpace hc
  | comment _ hs =>
    simp only [startsComment, Bool.or_eq_true, Bool.and_eq_true, beq_iff_eq] at hs
    rcases hs with rfl | ⟨rfl, -⟩ <;> exact ⟨by decide, by decide, by decide, by decide⟩
  | token => cases hts

/-! ## The tokens of the new text -/

/-- An identifier ends before a character that cannot continue it. -/
theorem Scans.single_ident {t : Token} {after : List Char} {p : Nat}
    (h : Scans t.start (t.chars ++ after) [t] p after) (hk : t.kind = .ident) :
    IsIdentifier t.chars ∧ ∀ c ∈ after.head?, isIdentPart c = false := by
  obtain ⟨a, c, tail, b, hcs, hstart, -, -, hlexes⟩ := h.mem_lexes (List.mem_singleton_self t)
  obtain rfl : a = [] := by
    by_contra ha
    have := Text.size_pos ha
    omega
  obtain rfl : after = b := List.append_cancel_left hcs
  have hshape := hlexes.shape
  rw [hk] at hshape
  exact hshape

/-- A quoted identifier is read as one token. -/
theorem IsIdentifier.scans_quote {cs rest : List Char} (h : IsIdentifier cs)
    (hr : ∀ c ∈ rest.head?, isIdentPart c = false) (o : Nat) :
    Scans o ('\x27' :: (cs ++ rest)) [⟨.quotedIdent, o, String.ofList ('\x27' :: cs)⟩]
      (o + Text.size ('\x27' :: cs)) rest := by
  obtain ⟨kind, hkind, hreads⟩ := IsNameText.readsAs (Or.inr ⟨cs, rfl, h⟩)
  obtain ⟨c, w, hcs, hspace, hcomment, hlexes⟩ := hreads rest hr
  obtain ⟨rfl, rfl⟩ := List.cons.inj hcs
  rcases hkind with rfl | rfl
  · exact absurd hlexes.shape.1.1 (by decide)
  · exact .token hspace hcomment hlexes (.stop _ _)

/-- Two words do not touch: something that ends every token stands between them. -/
theorem Scans.word_gap {o p : Nat} {gap w rest : List Char} (h : Scans o (gap ++ (w ++ rest)) [] p (w ++ rest))
    (hw : IsIdentifier w) (hprev : ∀ c ∈ (gap ++ (w ++ rest)).head?, isIdentPart c = false) :
    ∃ s gap', gap = s :: gap' ∧ EndsTokens s ∧ Skips gap := by
  obtain ⟨c, w, rfl⟩ : ∃ c w', w = c :: w' := by
    cases w with
    | nil => exact absurd hw id
    | cons c w => exact ⟨c, w, rfl⟩
  have hc : isIdentStart c = true := hw.1
  cases gap with
  | nil =>
    have hpart := hprev c rfl
    rw [isIdentPart_of_isIdentStart hc] at hpart
    cases hpart
  | cons s gap =>
    refine ⟨s, gap, rfl, h.endsTokens_head rfl fun heq => ?_, h.skips rfl rfl ?_⟩
    · exact List.cons_ne_nil s gap (List.append_left_eq_self.1 heq)
    · rintro rfl
      exact absurd hc (by decide)

/-- An identifier after another word cuts a text. What stands before it is read the same way whatever follows, and
with a quote it is a token of its own again. -/
theorem Scans.cut_ident {text : List Char} {pre post : List Token} {prev t : Token}
    (h : Scans 0 text (pre ++ prev :: t :: post) (Text.size text) []) (hprev : prev.kind = .ident)
    (ht : t.kind = .ident) :
    ∃ a b, text = a ++ (t.chars ++ b) ∧ t.start = Text.size a ∧
      (∀ v, Scans 0 (a ++ v) (pre ++ [prev]) (Text.size a) v) ∧
      Scans (Text.size a) ('\x27' :: (t.chars ++ b)) [t.quote] (Text.size (a ++ '\x27' :: t.chars)) b ∧
      Scans (Text.size (a ++ t.chars)) b post (Text.size text) [] := by
  obtain ⟨r, hbefore, hprevious, hfrom⟩ := h.split rfl
  obtain ⟨b, hgap, htoken, hafter⟩ := hfrom.split (List.nil_append _).symm
  obtain ⟨hident, hend⟩ := htoken.single_ident ht
  obtain ⟨-, hword⟩ := hprevious.single_ident hprev
  obtain ⟨gap, rfl, hstart⟩ := hgap.suffix
  obtain ⟨s, gap, rfl, hends, hskips⟩ := hgap.word_gap hident hword
  obtain ⟨p, htext, hstop⟩ := (hbefore.trans hprevious).suffix
  have hsize : t.start = Text.size (p ++ s :: gap) := by rw [hstart, hstop, Nat.zero_add, Text.size_append]
  refine ⟨p ++ s :: gap, b, by rw [htext]; simp, hsize, fun v => ?_, ?_, ?_⟩
  · obtain ⟨p', htext', hread⟩ := (hbefore.trans hprevious).frame hends rfl (gap ++ v)
    obtain rfl : p = p' := List.append_cancel_right (htext.symm.trans htext')
    have hall := hread.trans (hskips prev.stop v)
    rw [← hstart, hsize] at hall
    simpa using hall
  · have hquoted := hident.scans_quote hend t.start
    rw [hsize, ← Text.size_append] at hquoted
    simpa [Token.quote, hsize] using hquoted
  · rw [Text.size_append, ← hsize, ← Token.stop_eq]
    exact hafter

/-- A quote before an identifier, after another word, changes that token alone. What stands before it stays, and what
stands after it is moved. -/
theorem Scans.quote {text : List Char} {pre post : List Token} {prev t : Token}
    (h : Scans 0 text (pre ++ prev :: t :: post) (Text.size text) []) (hprev : prev.kind = .ident)
    (ht : t.kind = .ident) :
    ∃ g, Scans 0 (quoteAt t.start text) (pre ++ prev :: t.quote :: post.map (Token.move g))
        (Text.size (quoteAt t.start text)) [] ∧
      Moves id text (quoteAt t.start text) pre ∧ Moves g text (quoteAt t.start text) post := by
  obtain ⟨a, b, htext, hstart, hfront, hquote, hafter⟩ := h.cut_ident hprev ht
  let old := a ++ t.chars
  let new := a ++ '\x27' :: t.chars
  let g := fun n => n + Text.size new - Text.size old
  have hold : text = old ++ b := by rw [htext, List.append_assoc]
  have hnew : quoteAt t.start text = a ++ '\x27' :: (t.chars ++ b) := by
    rw [htext, hstart, quoteAt_append]
  have hnew' : quoteAt t.start text = new ++ b := by
    rw [hnew, List.append_assoc, List.cons_append]
  refine ⟨g, ?_, ?_, ?_⟩
  · rw [hold] at hafter
    have hmoved : Scans (Text.size new) b (post.map (Token.move g)) (Text.size (new ++ b)) [] := hafter.relocate new
    have hall := (hfront _).trans (hquote.trans hmoved)
    rw [← hnew, ← hnew'] at hall
    simpa using hall
  · have hprefix := hfront []
    rw [List.append_nil] at hprefix
    rw [hnew, htext]
    exact (Moves.same_front hprefix).mono (by simp)
  · rw [hnew', hold]
    exact .same_end hafter

/-! ## The import -/

/-- An import with an alias ends with the alias and a semicolon. It is read alike with another token of that name and
with another semicolon. -/
theorem Parse.importDecl_alias {tokens rest : List Token} {i : Import} (h : importDecl tokens = .ok (i, rest))
    (halias : i.alias?.isSome = true) :
    ∃ keyword body as_ t semi, tokens = keyword :: (body ++ as_ :: t :: semi :: rest) ∧
      keyword.is "import" = true ∧ as_.is "as" = true ∧ semi.is ";" = true ∧ i.span = ⟨keyword.start, semi.stop⟩ ∧
      ∀ t' semi' rest', t'.isName = true →
        t'.text.toList.dropWhile (· == '\x27') = t.text.toList.dropWhile (· == '\x27') → semi'.is ";" = true →
        importDecl (keyword :: (body ++ as_ :: t' :: semi' :: rest')) =
          .ok ({ i with span := ⟨keyword.start, semi'.stop⟩ }, rest') := by
  obtain ⟨⟨keyword, r₁⟩, h₁, h⟩ := bind_eq_ok.1 h
  obtain ⟨⟨first, r₂⟩, h₂, h⟩ := bind_eq_ok.1 h
  obtain ⟨⟨⟨org, head⟩, r₃⟩, h₃, h⟩ := bind_eq_ok.1 h
  obtain ⟨⟨path, r₄⟩, h₄, h⟩ := bind_eq_ok.1 h
  obtain ⟨⟨alias?, r₅⟩, h₅, h⟩ := bind_eq_ok.1 h
  obtain ⟨⟨semi, r₆⟩, h₆, h⟩ := bind_eq_ok.1 h
  cases h
  obtain ⟨rfl, hkey⟩ := expect_eq_ok.1 h₁
  obtain ⟨rfl, hfirst⟩ := expectName_eq_ok.1 h₂
  obtain ⟨orgUsed, rfl, -, horg⟩ := orgPart_reads hfirst h₃
  obtain ⟨pathUsed, rfl, -, hpath⟩ := pathTail_reads h₄
  obtain ⟨rfl, hsemi⟩ := expect_eq_ok.1 h₆
  unfold aliasPart at h₅
  split at h₅
  · next has =>
    obtain ⟨⟨t, r⟩, ht, heq⟩ := bind_eq_ok.1 h₅
    cases heq
    obtain ⟨as_, rfl, hs, -⟩ := expectName_tail_eq_ok has ht
    refine ⟨keyword, first :: (orgUsed ++ pathUsed), as_, t, semi, by simp, hkey, hs, hsemi, rfl,
      fun t' semi' rest' hname hsame hsemi' => ?_⟩
    have h₄' := hpath id (as_ :: t' :: semi' :: rest') rfl
    have h₃' := horg id (pathUsed ++ as_ :: t' :: semi' :: rest') (by cases pathUsed <;> rfl)
    simp only [Token.map_move_id, Token.move_id] at h₃' h₄'
    simp [importDecl, expect, hkey, expectName, hfirst, h₃', h₄', aliasPart, startsWith, hs, hname, hsame, hsemi',
      bind, Except.bind, pure, Except.pure]
  · cases h₅
    cases halias

/-- Reading a module comes to each import with an alias. Another alias of the same name may stand there, and what
follows may be moved. -/
theorem Parse.declarations_alias {text : List Char} {tokens : List Token} {ds₁ ds₂ : List Decl} {i : Import}
    (h : declarations text tokens = .ok (ds₁ ++ .importDecl i :: ds₂)) (halias : i.alias?.isSome = true) :
    ∃ before keyword body as_ t semi rest, tokens = before ++ keyword :: (body ++ as_ :: t :: semi :: rest) ∧
      as_.is "as" = true ∧ i.span = ⟨keyword.start, semi.stop⟩ ∧
      ∀ g text' t', Moves id text text' before → Moves g text text' rest → t'.isName = true →
        t'.text.toList.dropWhile (· == '\x27') = t.text.toList.dropWhile (· == '\x27') →
        declarations text' (before ++ keyword :: (body ++ as_ :: t' :: semi.move g :: rest.map (Token.move g))) =
          .ok (ds₁ ++ .importDecl { i with span := ⟨keyword.start, (semi.move g).stop⟩ } :: ds₂.map (Decl.map g)) := by
  obtain ⟨before, first, tail, rest, rfl, hat, hread, hrest, hbefore⟩ := declarations_split h
  obtain ⟨quals, w, hw, hq⟩ := qualified_of_tokens (first :: tail)
  cases (declaration_eq_ok_iff hq hw).1 hread with
  | importDecl hquals hstart himport =>
    subst hquals
    obtain rfl : first :: tail = w := hw
    obtain ⟨keyword, body, as_, t, semi, htokens, hkey, has, hsemi, hspan, hagain⟩ := importDecl_alias himport halias
    obtain ⟨rfl, rfl⟩ := List.cons.inj htokens
    refine ⟨before, first, body, as_, t, semi, rest, rfl, has, hspan, fun g text' t' hm hmrest hname hsame => ?_⟩
    have himport' := hagain t' (semi.move g) (rest.map (Token.move g)) hname hsame hsemi
    have hquals : Qualified [] (first :: (body ++ as_ :: t' :: semi.move g :: rest.map (Token.move g))) :=
      ⟨hq.quals, hq.head⟩
    have hdecl : declaration text' first _ = _ :=
      (declaration_eq_ok_iff hquals (List.nil_append _).symm).2 (.importDecl rfl hkey himport')
    have hdecls := declarations_step hdecl hat
    rw [declarations_move hmrest hrest] at hdecls
    have hall := hbefore id text' _ _ hm rfl hdecls
    rwa [Token.map_move_id, Decl.map_move_id] at hall

/-- The word before an alias is no punctuator. -/
theorem ident_of_is_as {text : List Char} {tokens : List Token} {t : Token} (htok : tokenize text = .ok tokens)
    (ht : t ∈ tokens) (has : t.is "as" = true) : t.kind = .ident := by
  obtain ⟨a, c, tail, b, -, -, -, -, hlexes⟩ := (scan_eq_ok_iff.1 htok).mem_lexes ht
  simp only [Token.is, Bool.and_eq_true, Bool.or_eq_true, beq_iff_eq] at has
  obtain ⟨hkind, htext⟩ := has
  refine hkind.resolve_right fun hpunct => ?_
  have hshape := hlexes.shape
  rw [hpunct, Token.chars, htext] at hshape
  rcases hshape with ⟨c, hc⟩ | hcompound
  · cases hc
  · revert hcompound
    decide

/-- The alias is the token before the last one of the import. -/
theorem within_alias {text : List Char} {before body us rest : List Token} {keyword as_ t t' semi semi' : Token}
    (htok : tokenize text = .ok (before ++ keyword :: (body ++ as_ :: t' :: semi' :: rest)))
    (h : within ⟨keyword.start, semi'.stop⟩ (before ++ keyword :: (body ++ as_ :: t' :: semi' :: rest)) =
      us ++ [t, semi]) : t = t' := by
  have hin : (keyword :: (body ++ [as_, t'])) ++ semi' :: rest <:+
      before ++ keyword :: (body ++ as_ :: t' :: semi' :: rest) := ⟨before, by simp⟩
  have hwithin := within_from (tokenize_laid htok) hin rfl
  rw [h, show keyword :: (body ++ [as_, t']) ++ [semi'] = (keyword :: (body ++ [as_])) ++ [t', semi'] by simp]
    at hwithin
  exact (List.cons.inj (List.append_inj' hwithin rfl).2).1

/-- With a quote before the alias of an import, a text declares the same module at other places. -/
theorem Module.parse_quoteAt {text : List Char} {m : Module} {tokens us : List Token} {i : Import} {t semi : Token}
    (hm : Module.parse text = .ok m) (htok : tokenize text = .ok tokens) (hi : i ∈ m.imports)
    (halias : i.alias?.isSome = true) (hspan : within i.span tokens = us ++ [t, semi]) (ht : t.kind = .ident) :
    ∃ m', Module.parse (quoteAt t.start text) = .ok m' ∧ m'.decls.map Decl.bare = m.decls.map Decl.bare := by
  obtain ⟨tokens', htok', hdecls⟩ := Module.parse_eq_ok hm
  obtain rfl := Except.ok.inj (htok.symm.trans htok')
  obtain ⟨ds₁, ds₂, hsplit⟩ := List.append_of_mem (Module.mem_imports.1 hi)
  rw [hsplit] at hdecls
  obtain ⟨before, keyword, body, as_, t', semi', rest, rfl, has, hends, hagain⟩ :=
    Parse.declarations_alias hdecls halias
  rw [hends] at hspan
  obtain rfl := within_alias htok hspan
  have hscan : Scans 0 text ((before ++ keyword :: body) ++ as_ :: t :: (semi' :: rest)) (Text.size text) [] := by
    simpa using scan_eq_ok_iff.1 htok
  have hword := ident_of_is_as htok (t := as_) (by simp) has
  obtain ⟨g, hscan', hbefore, hrest⟩ := hscan.quote hword ht
  -- the quote is no part of the name that the alias gives
  have hsame : t.quote.text.toList.dropWhile (· == '\x27') = t.text.toList.dropWhile (· == '\x27') := by
    simp [Token.quote, Token.chars]
  have hdecls' := hagain g _ t.quote (hbefore.mono (by simp)) (hrest.mono (by simp)) rfl hsame
  refine ⟨_, Module.parse_of_scans (by simpa using hscan') hdecls', ?_⟩
  have hmoved : (ds₂.map (Decl.map g)).map Decl.bare = ds₂.map Decl.bare := by
    rw [List.map_map]
    exact List.map_congr_left fun d _ => Decl.bare_map g d
  rw [hsplit, List.map_append, List.map_append, List.map_cons, List.map_cons, hmoved]
  rfl

end ServiceLint
