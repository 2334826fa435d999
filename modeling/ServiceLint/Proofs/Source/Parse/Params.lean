import ServiceLint.Proofs.Source.Parse.Unchecked

/-!
# What parameters are read from

A parameter list is cut at the commas outside all delimiters, so the delimiters match in the tokens of each parameter
(`Parse.paramsTail_mem`). These are divided at an equals sign into a type with a name and a default value. The sign that
counts is the first one at any depth (`Param.ReadsAt`), so a parameter whose type has such a sign between delimiters is
not read as it would be at the top level (`Parse.params_readsAt`).
-/
namespace ServiceLint

/-! ## Division at an equals sign -/

/-- The first equals sign in a wanted place starts the second tokens; without such a sign there are none of these.
`here` says of the tokens before a sign whether the sign is in a wanted place. -/
structure CutAtEquals (here : List Token → Prop) (before after : List Token) : Prop where
  equals : ∀ t ∈ after.head?, t.isPunct "=" = true ∧ here before
  first : ∀ a t b, before = a ++ t :: b → t.isPunct "=" = true → ¬ here a

/-- The parameter is what its tokens say when they are divided at the first equals sign in a wanted place: a type, the
name, and a default value if there is such a sign. -/
def Param.ReadsAt (here : List Token → Prop) (text : List Char) (ts : List Token) (p : Param) : Prop :=
  ∃ type name after first last, ts = type ++ name :: after ∧ CutAtEquals here (type ++ [name]) after ∧
    type.head? = some first ∧ type.getLast? = some last ∧ p.name = name.text ∧
    p.typeText = Token.slice text first last ∧ (p.hasDefault = true ↔ after ≠ [])

section

variable {here : List Token → Prop} {ts before after : List Token}

/-- At any depth, tokens are divided at the first sign that there is. -/
theorem cutAtEquals_takeWhile (ts : List Token) :
    CutAtEquals (fun _ => True) (ts.takeWhile (!·.isPunct "=")) (ts.dropWhile (!·.isPunct "=")) := by
  constructor
  · intro t ht
    obtain ⟨rest, hrest⟩ := List.head?_eq_some_iff.1 ht
    have hstop := dropWhile_cons_neg hrest
    simp only [Bool.not_eq_eq_eq_not, Bool.not_false] at hstop
    exact ⟨hstop, trivial⟩
  · intro a t b hsplit ht _
    have hmem : t ∈ ts.takeWhile (!·.isPunct "=") := by simp [hsplit]
    have := List.mem_takeWhile_imp (p := fun t : Token => !t.isPunct "=") hmem
    simp [ht] at this

/-- The first sign of all is the first one in a wanted place when it is in one. -/
theorem CutAtEquals.of_here (h : CutAtEquals (fun _ => True) before after) (hhere : here before) :
    CutAtEquals here before after :=
  ⟨fun t ht => ⟨(h.equals t ht).1, hhere⟩, fun a t b hsplit ht _ => h.first a t b hsplit ht trivial⟩

/-- The first sign in a wanted place does not come before the first sign of all. -/
theorem CutAtEquals.prefix_of_any {before' after' : List Token} (h : CutAtEquals (fun _ => True) before after)
    (h' : CutAtEquals here before' after') (heq : before' ++ after' = before ++ after) : before <+: before' := by
  rcases List.append_eq_append_iff.1 heq with ⟨mid, rfl, hafter⟩ | ⟨mid, hbefore, -⟩
  · cases mid with
    | nil => simp
    | cons t mid => exact absurd trivial (h.first before' t mid rfl (h'.equals t (by simp [hafter])).1)
  · exact ⟨mid, hbefore.symm⟩

end

/-- The text between two clean cuts is as long as they are apart. -/
theorem CleanCut.size_slice {text : List Char} {i j : Nat} (hi : CleanCut text i) (hj : CleanCut text j)
    (hij : i ≤ j) : Text.size (Text.slice text i j) = j - i := by
  have h := congrArg Text.size (Text.takeBytes_append_slice hi.isBoundary hij)
  rw [Text.size_append, Text.size_takeBytes hi.isBoundary, Text.size_takeBytes hj.isBoundary] at h
  omega

/-- More tokens from the same one on have another text. -/
theorem Laid.slice_ne {text : List Char} {lo hi : Nat} {ts more : List Token} {first last last' : Token}
    (hl : Laid text lo (ts ++ more) hi) (hfirst : ts.head? = some first) (hlast : ts.getLast? = some last)
    (hlast' : more.getLast? = some last') : Token.slice text first last ≠ Token.slice text first last' := by
  intro heq
  obtain ⟨mid, hts, hmore⟩ := laid_append.1 hl
  have hfit := hts.span hfirst hlast
  obtain ⟨front, rfl⟩ := List.getLast?_eq_some_iff.1 hlast'
  obtain ⟨hfront, hstands, -⟩ := hmore.cut
  have hle := hfront.le
  have hlt := hstands.lt
  have hstop := hfit.le_hi
  have hstart := hfit.lt
  simp only at hstop hstart
  have hsize := congrArg Text.size (String.ofList_injective heq)
  rw [hfit.start.size_slice hfit.stop (by simp only; omega),
    hfit.start.size_slice hstands.stop (by simp only; omega)] at hsize
  simp only at hsize
  omega

namespace Parse

variable {text : List Char} {lo hi : Nat} {p : Param} {ts rest : List Token}

/-- The type and the name are what stands before the first equals sign of all. -/
theorem param?_parts (h : param? text ts = .ok (some p)) :
    ∃ type name after first last, ts = type ++ name :: after ∧ ts.takeWhile (!·.isPunct "=") = type ++ [name] ∧
      CutAtEquals (fun _ => True) (type ++ [name]) after ∧ type.head? = some first ∧ type.getLast? = some last ∧
      p.name = name.text ∧ p.typeText = Token.slice text first last ∧ (p.hasDefault = true ↔ after ≠ []) := by
  rcases param?_eq_ok h with ⟨-, hnone⟩ | ⟨first, last, name, typeLast, front, hfirst, -, htake, -, -, hp⟩
  · cases hnone
  · have hcut := cutAtEquals_takeWhile ts
    have hsplit := List.takeWhile_append_dropWhile (p := fun t : Token => !t.isPunct "=") (l := ts)
    generalize ts.dropWhile (!·.isPunct "=") = after at hcut hsplit
    have hbefore : ts.takeWhile (!·.isPunct "=") = (front ++ [typeLast]) ++ [name] := by simp [htake]
    rw [hbefore] at hcut hsplit hp
    refine ⟨front ++ [typeLast], name, after, first, typeLast, ?_, hbefore, hcut, ?_, List.getLast?_concat, ?_⟩
    · rw [← hsplit]
      simp
    · rw [← hsplit] at hfirst
      cases front <;> simpa using hfirst
    · obtain rfl := Option.some.inj hp
      refine ⟨rfl, rfl, ?_⟩
      rw [← hsplit]
      simp [List.length_pos_iff]

/-- The sign at which a parameter is divided is the first one of all. -/
theorem param?_readsAt (h : param? text ts = .ok (some p)) : p.ReadsAt (fun _ => True) text ts := by
  obtain ⟨type, name, after, first, last, hsplit, -, hcut, hparts⟩ := param?_parts h
  exact ⟨type, name, after, first, last, hsplit, hcut, hparts⟩

/-- A parameter is read as it would be at the top level exactly when the delimiters before that sign match. -/
theorem param?_readsAt_balanced (hl : Laid text lo ts hi) (hts : Balanced ts) (h : param? text ts = .ok (some p)) :
    p.ReadsAt Balanced text ts ↔ Balanced (ts.takeWhile (!·.isPunct "=")) := by
  obtain ⟨type, name, after, first, last, hsplit, htake, hcut, hfirst, hlast, hname, htype, hdefault⟩ := param?_parts h
  rw [htake]
  constructor
  · rintro ⟨type', name', after', first', last', hsplit', hcut', hfirst', hlast', -, htype', hdefault'⟩
    have hsame : (type' ++ [name']) ++ after' = (type ++ [name]) ++ after := by simp [← hsplit, ← hsplit']
    -- another division comes later, and then the type is longer than the one that was read
    obtain ⟨mid, hmid⟩ := hcut.prefix_of_any hcut' hsame
    obtain rfl | ⟨between, name'', rfl⟩ := List.eq_nil_or_concat' mid
    · rw [List.append_nil] at hmid
      cases after' with
      | nil => rwa [hmid, ← List.append_nil (type' ++ [name']), hsame, ← List.append_cons, ← hsplit]
      | cons t rest => exact hmid ▸ (hcut'.equals t rfl).2
    · exfalso
      rw [← List.append_assoc] at hmid
      obtain ⟨hlonger, -⟩ := List.append_inj' hmid rfl
      obtain rfl : type' = type ++ (name :: between) := by simp [← hlonger]
      rw [hsplit'] at hl
      obtain ⟨hi', hl, -⟩ := laid_append.1 hl
      have hfirst' : some first' = some first := by rw [← hfirst', List.head?_append, hfirst, Option.some_or]
      obtain rfl := Option.some.inj hfirst'
      rw [List.getLast?_append_of_ne_nil _ (List.cons_ne_nil name between)] at hlast'
      exact hl.slice_ne hfirst hlast hlast' (htype.symm.trans htype')
  · exact fun hbalanced => ⟨type, name, after, first, last, hsplit, hcut.of_here hbalanced, hfirst, hlast, hname,
      htype, hdefault⟩

/-- A parameter list is cut into balanced parts, and each parameter is read from one of them. -/
theorem paramsTail_mem {close : Token} {ps : List Param} (h : paramsTail text ts = .ok (ps, close, rest))
    (hp : p ∈ ps) : ∃ before part after, ts = before ++ (part ++ after) ∧ param? text part = .ok (some p) ∧
      Balanced part := by
  fun_induction paramsTail text ts generalizing ps with
  | case1 => cases h
  | case2 => cases h
  | case3 ts part stop rest hpart _ p' hp' hclose =>
    cases h
    obtain rfl := Option.mem_toList.1 hp
    exact ⟨[], part, _ :: rest, (paramTokens_reads hpart).1, hp', balanced_iff.2 (paramTokens_nests hpart)⟩
  | case4 => cases h
  | case5 => cases h
  | case6 ts part comma rest hpart _ hcomma p' ps close rest' hrec hp' ih =>
    cases h
    obtain ⟨hts, -, -⟩ := paramTokens_reads hpart
    rcases List.mem_cons.1 hp with rfl | hp
    · exact ⟨[], part, comma :: rest, hts, hp', balanced_iff.2 (paramTokens_nests hpart)⟩
    · obtain ⟨before, part', after, rfl, hpart', hbalanced⟩ := ih hrec hp
      exact ⟨part ++ comma :: before, part', after, by rw [hts]; simp, hpart', hbalanced⟩

/-- The span of a parameter goes from the first to the last token that it is read from. -/
theorem param?_span (h : param? text ts = .ok (some p)) :
    ∃ first last, ts.head? = some first ∧ ts.getLast? = some last ∧ p.span = ⟨first.start, last.stop⟩ := by
  rcases param?_eq_ok h with ⟨-, hnone⟩ | ⟨first, last, _, _, _, hfirst, hlast, -, -, -, hp⟩
  · cases hnone
  · obtain rfl := Option.some.inj hp
    exact ⟨first, last, hfirst, hlast, rfl⟩

/-- A parameter is read from the tokens in its span, which are some of the list. -/
theorem params_mem {tokens : List Token} {ps : List Param} {span : Span} (htok : tokenize text = .ok tokens)
    (hin : ts <:+ tokens) (h : params text ts = .ok ((ps, span), rest)) (hp : p ∈ ps) :
    within p.span tokens <:+: ts ∧ Balanced (within p.span tokens) ∧
      param? text (within p.span tokens) = .ok (some p) := by
  obtain ⟨⟨openParen, r⟩, hopen, h⟩ := bind_eq_ok.1 h
  obtain ⟨⟨ps', close, rest'⟩, htail, h⟩ := bind_eq_ok.1 h
  cases h
  obtain ⟨rfl, -⟩ := expect_eq_ok.1 hopen
  obtain ⟨before, part, after, rfl, hread, hbalanced⟩ := paramsTail_mem htail hp
  obtain ⟨first, last, hfirst, hlast, hspan⟩ := param?_span hread
  obtain ⟨front, rfl⟩ := List.getLast?_eq_some_iff.1 hlast
  have hsuffix : front ++ last :: after <:+ tokens :=
    List.IsSuffix.trans ⟨openParen :: before, by simp⟩ hin
  rw [hspan, within_from (tokenize_laid htok) hsuffix hfirst]
  exact ⟨⟨openParen :: before, after, by simp⟩, hbalanced, hread⟩

/-- A parameter is what the tokens in its span say when they are divided at the first equals sign at any depth. That is
what they say at the top level exactly when the delimiters before the sign match. -/
theorem params_readsAt {tokens : List Token} {ps : List Param} {span : Span} (htok : tokenize text = .ok tokens)
    (hin : ts <:+ tokens) (h : params text ts = .ok ((ps, span), rest)) (hp : p ∈ ps) :
    within p.span tokens <:+: ts ∧ Balanced (within p.span tokens) ∧
      p.ReadsAt (fun _ => True) text (within p.span tokens) ∧
      (p.ReadsAt Balanced text (within p.span tokens) ↔
        Balanced ((within p.span tokens).takeWhile (!·.isPunct "="))) := by
  obtain ⟨hsome, hbalanced, hread⟩ := params_mem htok hin h hp
  have hlaid : Laid text 0 (within p.span tokens) (Text.size text) := (tokenize_laid htok).sublist List.filter_sublist
  exact ⟨hsome, hbalanced, param?_readsAt hread, param?_readsAt_balanced hlaid hbalanced hread⟩

/-- A type with braces, and a default value that is called with a named argument. -/
theorem params_readsAt_default : ∃ text tokens ps span p,
    text = "(record\x7bint x;\x7d r=f(y=1),int i)".toList ∧ tokenize text = .ok tokens ∧
    params text tokens = .ok ((ps, span), []) ∧ p ∈ ps ∧ p.name = "r" ∧ p.typeText = "record\x7bint x;\x7d" ∧
    p.hasDefault = true ∧ p.ReadsAt Balanced text (within p.span tokens) := by
  generalize htext : "(record\x7bint x;\x7d r=f(y=1),int i)".toList = text
  have hchars : text = _ := htext.symm.trans String.toList_ofList
  have hcheck : ((tokenize text).toOption.bind fun tokens => (params text tokens).toOption.bind fun q =>
      q.1.1.head?.map fun p => decide (q.2 = [] ∧ p.name = "r" ∧ p.typeText = "record\x7bint x;\x7d" ∧
        p.hasDefault = true ∧ Balanced ((within p.span tokens).takeWhile (!·.isPunct "=")))) = some true := by
    rw [hchars]
    decide +kernel
  obtain ⟨tokens, htokens, hcheck⟩ := Option.bind_eq_some_iff.1 hcheck
  obtain ⟨⟨⟨ps, span⟩, rest⟩, hparams, hcheck⟩ := Option.bind_eq_some_iff.1 hcheck
  obtain ⟨p, hp, hcheck⟩ := Option.map_eq_some_iff.1 hcheck
  obtain ⟨rfl, hname, htype, hdefault, hbalanced⟩ := of_decide_eq_true hcheck
  have htok := eq_ok_of_toOption htokens
  have hread := eq_ok_of_toOption hparams
  have hmem := List.mem_of_mem_head? hp
  obtain ⟨-, -, -, hiff⟩ := params_readsAt htok (List.suffix_refl tokens) hread hmem
  exact ⟨text, tokens, ps, span, p, rfl, htok, hread, hmem, hname, htype, hdefault, hiff.2 hbalanced⟩

end Parse

/-- A record with a default value is the type of a parameter that has none. The parameter is given the name of the field
and a default value. -/
theorem parse_recordDefault : ∃ text tokens file s m p,
    text = "service on l\x7bfunction f(record\x7bint x=1;\x7d r)\x7b\x7d\x7d".toList ∧ tokenize text = .ok tokens ∧
    SourceFile.parse "main.bal" text = .ok file ∧ s ∈ file.module.services ∧ m ∈ s.members.filterMap Member.method? ∧
    m.params = [p] ∧ (within p.span tokens).map (·.text) = ["record", "\x7b", "int", "x", "=", "1", ";", "\x7d", "r"] ∧
    Balanced (within p.span tokens) ∧ p.name = "x" ∧ p.typeText = "record\x7bint" ∧ p.hasDefault = true ∧
    ¬ p.ReadsAt Balanced text (within p.span tokens) := by
  generalize htext : "service on l\x7bfunction f(record\x7bint x=1;\x7d r)\x7b\x7d\x7d".toList = text
  have hchars : text = _ := htext.symm.trans String.toList_ofList
  have hcheck : ((tokenize text).toOption.bind fun tokens =>
      (SourceFile.parse "main.bal" text).toOption.bind fun file => file.module.services.head?.bind fun s =>
        (s.members.filterMap Member.method?).head?.bind fun m => m.params.head?.map fun p => decide (m.params = [p] ∧
          (within p.span tokens).map (·.text) = ["record", "\x7b", "int", "x", "=", "1", ";", "\x7d", "r"] ∧
          Balanced (within p.span tokens) ∧ p.name = "x" ∧ p.typeText = "record\x7bint" ∧ p.hasDefault = true ∧
          (Parse.param? text (within p.span tokens)).toOption = some (some p) ∧
          ¬ Balanced ((within p.span tokens).takeWhile (!·.isPunct "=")))) = some true := by
    rw [hchars]
    decide +kernel
  obtain ⟨tokens, htokens, hcheck⟩ := Option.bind_eq_some_iff.1 hcheck
  obtain ⟨file, hfile, hcheck⟩ := Option.bind_eq_some_iff.1 hcheck
  obtain ⟨s, hs, hcheck⟩ := Option.bind_eq_some_iff.1 hcheck
  obtain ⟨m, hm, hcheck⟩ := Option.bind_eq_some_iff.1 hcheck
  obtain ⟨p, -, hcheck⟩ := Option.map_eq_some_iff.1 hcheck
  obtain ⟨hparams, htexts, hbalanced, hname, htype, hdefault, hread, hopen⟩ := of_decide_eq_true hcheck
  have htok := eq_ok_of_toOption htokens
  have hlaid : Laid text 0 (within p.span tokens) (Text.size text) := (tokenize_laid htok).sublist List.filter_sublist
  have hiff := Parse.param?_readsAt_balanced hlaid hbalanced (eq_ok_of_toOption hread)
  exact ⟨text, tokens, file, s, m, p, rfl, htok, eq_ok_of_toOption hfile, List.mem_of_mem_head? hs,
    List.mem_of_mem_head? hm, hparams, htexts, hbalanced, hname, htype, hdefault, fun h => hopen (hiff.1 h)⟩

end ServiceLint
