import ServiceLint.Proofs.Source.Parse.Declarations

/-!
# Where parsing fails

A parsing step either leaves a rest of the tokens it was given or fails at some of them (`Within`). This
holds of one step followed by another (`Within.bind`), so it is shown once for each routine, from the steps
that the routine is made of; `declarations_pointsInto` is the result for a whole module.
-/
namespace ServiceLint

/-- The failure points at tokens among the given ones. Its offset is the start of one of them, and what was found there
is that token, or the text up to a later token of the same stretch; or it reports a closing delimiter. -/
def Failure.PointsInto (text : List Char) (tokens : List Token) : Failure → Prop
  | .endOfText _ => True
  | .unexpected _ found offset => ∃ part first last, part <:+: tokens ∧ part.head? = some first ∧
      part.getLast? = some last ∧ offset = some first.start ∧ (found = first.text ∨ found = Token.slice text first last)
  | .unbalanced t => t ∈ tokens ∧ t.closes?.isSome = true

variable {text : List Char}

theorem Failure.PointsInto.mono {tokens tokens' : List Token} {f : Failure} (h : f.PointsInto text tokens)
    (hin : tokens <:+: tokens') : f.PointsInto text tokens' := by
  cases f with
  | endOfText => trivial
  | unexpected e found offset =>
    obtain ⟨part, first, last, hpart, hrest⟩ := h
    exact ⟨part, first, last, hpart.trans hin, hrest⟩
  | unbalanced t => exact ⟨hin.subset h.1, h.2⟩

/-- The first token stands alone where something else is needed. -/
theorem Failure.pointsInto_head (e : Expectation) (t : Token) (rest : List Token) :
    (Failure.unexpected e t.text (some t.start)).PointsInto text (t :: rest) :=
  ⟨[t], t, t, ⟨[], rest, rfl⟩, rfl, rfl, rfl, Or.inl rfl⟩

/-- A word that is written out in the error is the text of a token that was recognised by it. -/
theorem Failure.pointsInto_word {t : Token} {word : String} (h : t.text = word) (e : Expectation) (rest : List Token) :
    (Failure.unexpected e word (some t.start)).PointsInto text (t :: rest) :=
  h ▸ Failure.pointsInto_head e t rest

theorem Token.text_of_isPunct {t : Token} {s : String} (h : t.isPunct s = true) : t.text = s := by
  simp only [Token.isPunct, Bool.and_eq_true, beq_iff_eq] at h
  exact h.2

theorem Token.text_of_is {t : Token} {s : String} (h : t.is s = true) : t.text = s := by
  simp only [Token.is, Bool.and_eq_true, beq_iff_eq] at h
  exact h.2

namespace Parse

/-- What is left is a rest of the tokens, or the failure points at some of them. -/
def Within {α : Type} (text : List Char) (left : α → List Token) (tokens : List Token) : Except Failure α → Prop
  | .ok a => left a <:+ tokens
  | .error f => f.PointsInto text tokens

namespace Within

variable {α β : Type} {left : α → List Token} {left' : β → List Token} {tokens tokens' : List Token}
  {x : Except Failure α}

theorem mono (h : Within text left tokens x) (hin : tokens <:+ tokens') : Within text left tokens' x := by
  cases x with
  | error f => exact Failure.PointsInto.mono h hin.isInfix
  | ok a => exact h.trans hin

theorem bind {k : α → Except Failure β} (h : Within text left tokens x)
    (hk : ∀ a, x = .ok a → Within text left' (left a) (k a)) : Within text left' tokens (x >>= k) := by
  cases x with
  | error f => exact h
  | ok a => exact (hk a rfl).mono h

theorem map (h : Within text left tokens x) : Within text id tokens (x.map left) := by
  cases x <;> exact h

/-- Making more of what was read leaves the same tokens. -/
theorem of_map {f : α → β} (h : Within text left tokens x) (hf : ∀ a, left' (f a) = left a) :
    Within text left' tokens (x.map f) := by
  cases x with
  | error e => exact h
  | ok a =>
    show left' (f a) <:+ tokens
    rw [hf a]
    exact h

theorem error {f : Failure} (h : Within text left tokens x) (hx : x = .error f) : f.PointsInto text tokens := by
  rwa [hx] at h

theorem suffix {a : α} (h : Within text left tokens x) (hx : x = .ok a) : left a <:+ tokens := by
  rwa [hx] at h

end Within

variable (text)

/-! ## Steps -/

theorem expect_within (s : String) (e : Expectation) (tokens : List Token) :
    Within text Prod.snd tokens (expect s e tokens) := by
  unfold expect
  split
  · trivial
  · next t rest =>
    split
    · exact List.suffix_cons t rest
    · exact Failure.pointsInto_head e t rest

theorem expectName_within (e : Expectation) (tokens : List Token) :
    Within text Prod.snd tokens (expectName e tokens) := by
  unfold expectName
  split
  · trivial
  · next t rest =>
    split
    · exact List.suffix_cons t rest
    · exact Failure.pointsInto_head e t rest

/-- Reads the name after the first token. -/
theorem expectName_tail_within (e : Expectation) (tokens : List Token) :
    Within text Prod.snd tokens (expectName e tokens.tail) :=
  (expectName_within text e _).mono (List.tail_suffix tokens)

theorem nest_error {stack : List Delimiter} {t : Token} {f : Failure} (h : nest stack t = .error f) :
    f = .unbalanced t ∧ t.closes?.isSome = true := by
  unfold nest at h
  split at h
  · cases h
  · split at h
    · cases h
    · next d hd =>
      rw [hd]
      split at h
      · split at h <;> cases h
        exact ⟨rfl, rfl⟩
      · cases h
        exact ⟨rfl, rfl⟩

theorem nest_pointsInto {stack : List Delimiter} {t : Token} {f : Failure} (h : nest stack t = .error f)
    (rest : List Token) : f.PointsInto text (t :: rest) := by
  obtain ⟨rfl, hclose⟩ := nest_error h
  exact ⟨List.mem_cons_self, hclose⟩

theorem group_within (e : Expectation) (stack : List Delimiter) (tokens : List Token) :
    Within text Prod.snd tokens (group e stack tokens) := by
  fun_induction group e stack tokens with
  | case1 => trivial
  | case2 stack t rest f hn => exact nest_pointsInto text hn rest
  | case3 stack t rest => exact List.suffix_cons t rest
  | case4 stack t rest stack' hn hc ih => exact ih.mono (List.suffix_cons t rest)

theorem semicolon_within (e : Expectation) (stack : List Delimiter) (tokens : List Token) :
    Within text Prod.snd tokens (semicolon e stack tokens) := by
  fun_induction semicolon e stack tokens with
  | case1 => trivial
  | case2 stack t rest => exact List.suffix_cons t rest
  | case3 stack t rest hs f hn => exact nest_pointsInto text hn rest
  | case4 stack t rest hs stack' hn ih => exact ih.mono (List.suffix_cons t rest)

theorem construct_within (stack : List Delimiter) (tokens : List Token) :
    Within text id tokens (construct stack tokens) := by
  fun_induction construct stack tokens with
  | case1 => exact List.suffix_refl []
  | case2 => trivial
  | case3 stack t rest => exact List.suffix_cons t rest
  | case4 stack t rest hs f hn => exact nest_pointsInto text hn rest
  | case5 stack t rest => exact List.suffix_cons t rest
  | case6 stack t rest hs stack' hn hc ih => exact ih.mono (List.suffix_cons t rest)

theorem upTo_within (stop : Token → Bool) (e : Expectation) (stack : List Delimiter) (tokens : List Token) :
    Within text id tokens (upTo stop e stack tokens) := by
  fun_induction upTo stop e stack tokens with
  | case1 => trivial
  | case2 => exact List.suffix_refl _
  | case3 stack t rest hs hc ih => exact ih.mono (List.suffix_cons t rest)
  | case4 stack t rest hs hc f hn => exact nest_pointsInto text hn rest
  | case5 stack t rest hs hc stack' hn ih => exact ih.mono (List.suffix_cons t rest)

/-! ## Annotations -/

theorem annotationTail_within (tokens : List Token) : Within text id tokens (annotationTail tokens) := by
  unfold annotationTail
  split
  · exact (expectName_tail_within text _ tokens).bind fun _ _ => List.suffix_refl _
  · exact List.suffix_refl tokens

theorem annotationValue_within (tokens : List Token) : Within text id tokens (annotationValue tokens) := by
  unfold annotationValue
  split
  · exact (group_within text _ _ tokens).bind fun _ _ => List.suffix_refl _
  · exact List.suffix_refl tokens

theorem annotationStep_within (tokens : List Token) : Within text id tokens (annotationStep tokens) := by
  refine (expect_within text _ _ tokens).bind fun _ _ => ?_
  refine (expectName_within text _ _).bind fun _ _ => ?_
  exact (annotationTail_within text _).bind fun _ _ => annotationValue_within text _

theorem annotations_within (tokens : List Token) : Within text id tokens (annotations tokens) := by
  fun_induction annotations tokens with
  | case1 tokens _ f hstep => exact (annotationStep_within text tokens).error hstep
  | case2 tokens _ rest hstep _ ih => exact ih.mono ((annotationStep_within text tokens).suffix hstep)
  | case3 tokens => exact List.suffix_refl tokens

/-! ## Parameters -/

theorem paramTokens_within (stack : List Delimiter) (tokens : List Token) :
    Within text (·.2.2) tokens (paramTokens stack tokens) := by
  fun_induction paramTokens stack tokens with
  | case1 => trivial
  | case2 stack t rest => exact List.suffix_cons t rest
  | case3 stack t rest hs f hn => exact nest_pointsInto text hn rest
  | case4 stack t rest hs stack' hn f hrec ih => exact (ih.error hrec).mono (List.suffix_cons t rest).isInfix
  | case5 stack t rest hs stack' hn part stop rest' hrec ih =>
    exact (ih.suffix hrec).trans (List.suffix_cons t rest)

/-- With nothing before the equals sign, the equals sign is the first token. -/
theorem text_of_takeWhile_eq_nil {first : Token} {more : List Token}
    (h : ((first :: more).takeWhile (!·.isPunct "=")).reverse = []) : first.text = "=" := by
  rw [List.reverse_eq_nil_iff, List.takeWhile_cons] at h
  split at h
  · cases h
  · next hne => exact Token.text_of_isPunct (by simpa using hne)

/-- A parameter that is not one fails from its first token on: at the equals sign, or with the whole of it. -/
theorem param?_pointsInto {text : List Char} {part : List Token} {f : Failure}
    (h : param? text part = .error f) : f.PointsInto text part := by
  cases part with
  | nil => cases h
  | cons first more =>
    have hlast : (first :: more).getLast? = some ((first :: more).getLast?.getD first) := by
      rw [List.getLast?_cons, Option.getD_some]
    have hall : (Failure.unexpected .paramTypeAndName (Token.slice text first ((first :: more).getLast?.getD first))
        (some first.start)).PointsInto text (first :: more) :=
      ⟨first :: more, first, _, List.infix_refl _, rfl, hlast, rfl, Or.inr rfl⟩
    simp only [param?] at h
    split at h
    · next hname =>
      cases h
      exact Failure.pointsInto_word (text_of_takeWhile_eq_nil hname) _ more
    · cases h
      exact hall
    · split at h
      · cases h
        exact hall
      · cases h

theorem paramsTail_within (text : List Char) (tokens : List Token) :
    Within text (·.2.2) tokens (paramsTail text tokens) := by
  fun_induction paramsTail text tokens with
  | case1 tokens f hpart => exact (paramTokens_within text [] tokens).error hpart
  | case2 tokens part stop rest hpart _ f hp =>
    obtain ⟨rfl, -, -⟩ := paramTokens_reads hpart
    exact (param?_pointsInto hp).mono (List.prefix_append part _).isInfix
  | case3 tokens part stop rest hpart => exact (paramTokens_within text [] tokens).suffix hpart
  | case4 tokens part stop rest hpart _ hclose =>
    -- what ends a part is a parenthesis or a comma
    obtain ⟨rfl, hstop, -⟩ := paramTokens_reads hpart
    have hcomma : stop.text = "," := Token.text_of_isPunct (by simpa [hclose] using hstop)
    exact (Failure.pointsInto_word hcomma .param rest).mono (List.suffix_append part _).isInfix
  | case5 tokens part stop rest hpart _ _ p f hrec _ ih =>
    exact (ih.error hrec).mono ((paramTokens_within text [] tokens).suffix hpart).isInfix
  | case6 tokens part stop rest hpart _ _ p ps close rest' hrec _ ih =>
    exact (ih.suffix hrec).trans ((paramTokens_within text [] tokens).suffix hpart)

theorem params_within (text : List Char) (tokens : List Token) :
    Within text Prod.snd tokens (params text tokens) := by
  refine (expect_within text _ _ tokens).bind fun _ _ => ?_
  exact (paramsTail_within text _).bind fun _ _ => List.suffix_refl _

/-! ## Members -/

theorem qualifiers_suffix (tokens : List Token) : (qualifiers tokens).2 <:+ tokens := by
  fun_induction qualifiers tokens with
  | case1 => exact List.suffix_refl []
  | case2 t rest _ found rest' he ih =>
    rw [he] at ih
    exact ih.trans (List.suffix_cons t rest)
  | case3 t rest => exact List.suffix_refl _

theorem field_within (first : Token) (tokens : List Token) : Within text Prod.snd tokens (field first tokens) :=
  (semicolon_within text _ _ tokens).bind fun _ _ => List.suffix_refl _

theorem nameTail_within (quals : List String) (tokens : List Token) :
    Within text Prod.snd tokens (nameTail quals tokens) := by
  unfold nameTail resourcePath
  split
  · split
    · trivial
    · exact List.dropWhile_suffix _
  · exact List.suffix_refl tokens

theorem functionEnd_within (tokens : List Token) : Within text Prod.snd tokens (functionEnd tokens) := by
  refine (upTo_within text _ _ _ tokens).bind fun rest _ => ?_
  cases rest with
  | nil => trivial
  | cons t tail =>
    dsimp only [id]
    split
    · exact List.suffix_cons t tail
    · exact group_within text _ _ _

theorem function_within (text : List Char) (first : Token) (quals : List String) (tokens : List Token) :
    Within text Prod.snd tokens (function text first quals tokens) := by
  refine (expect_within text _ _ tokens).bind fun _ _ => ?_
  refine (expectName_within text _ _).bind fun _ _ => ?_
  refine (nameTail_within text quals _).bind fun _ _ => ?_
  refine (params_within text _).bind fun _ _ => ?_
  exact (functionEnd_within text _).bind fun _ _ => List.suffix_refl _

theorem member_within (text : List Char) (tokens : List Token) :
    Within text Prod.snd tokens (member text tokens) := by
  refine (annotations_within text tokens).bind fun rest _ => ?_
  cases rest with
  | nil => trivial
  | cons first tail =>
    refine Within.mono ?_ (qualifiers_suffix (first :: tail))
    dsimp only
    split
    · exact function_within text first _ _
    · exact field_within text first _

theorem members_within (text : List Char) (tokens : List Token) :
    Within text (·.2.2) tokens (members text tokens) := by
  fun_induction members text tokens with
  | case1 => trivial
  | case2 t tail => exact List.suffix_cons t tail
  | case3 t tail _ f hm => exact (member_within text (t :: tail)).error hm
  | case4 t tail _ m rest hm _ f hrec ih =>
    exact (ih.error hrec).mono ((member_within text (t :: tail)).suffix hm).isInfix
  | case5 t tail _ m rest hm _ ms close rest' hrec ih =>
    exact (ih.suffix hrec).trans ((member_within text (t :: tail)).suffix hm)

/-! ## Declarations -/

theorem pathTail_within (tokens : List Token) : Within text Prod.snd tokens (pathTail tokens) := by
  fun_induction pathTail tokens with
  | case1 dot name rest _ _ f hrec ih =>
    exact (ih.error hrec).mono ((List.suffix_cons name rest).trans (List.suffix_cons dot _)).isInfix
  | case2 dot name rest _ _ names rest' hrec ih =>
    exact (ih.suffix hrec).trans ((List.suffix_cons name rest).trans (List.suffix_cons dot _))
  | case3 dot name rest =>
    exact (Failure.pointsInto_head .moduleName name rest).mono (List.suffix_cons dot _).isInfix
  | case4 => exact List.suffix_refl _
  | case5 => trivial
  | case6 => exact List.suffix_refl _
  | case7 => exact List.suffix_refl _

theorem orgPart_within (first : Token) (tokens : List Token) :
    Within text Prod.snd tokens (orgPart first tokens) := by
  unfold orgPart
  split
  · exact (expectName_tail_within text _ tokens).bind fun _ _ => List.suffix_refl _
  · exact List.suffix_refl tokens

theorem aliasPart_within (tokens : List Token) : Within text Prod.snd tokens (aliasPart tokens) := by
  unfold aliasPart
  split
  · exact (expectName_tail_within text _ tokens).bind fun _ _ => List.suffix_refl _
  · exact List.suffix_refl tokens

theorem importDecl_within (tokens : List Token) : Within text Prod.snd tokens (importDecl tokens) := by
  refine (expect_within text _ _ tokens).bind fun _ _ => ?_
  refine (expectName_within text _ _).bind fun r _ => ?_
  refine (orgPart_within text r.1 _).bind fun _ _ => ?_
  refine (pathTail_within text _).bind fun _ _ => ?_
  refine (aliasPart_within text _).bind fun _ _ => ?_
  exact (expect_within text _ _ _).bind fun _ _ => List.suffix_refl _

theorem listenerHead_within (tokens : List Token) : Within text Prod.snd tokens (listenerHead tokens) := by
  unfold listenerHead
  split
  · trivial
  · next equals rest hd =>
    have hin : equals :: rest <:+ tokens := hd ▸ List.dropWhile_suffix _
    split
    · have hequals : equals.text = "=" := Token.text_of_is (by simpa using dropWhile_cons_neg hd)
      exact (Failure.pointsInto_word hequals .listenerName rest).mono hin.isInfix
    · exact hin

theorem listenerDecl_within (start : Nat) (tokens : List Token) :
    Within text Prod.snd tokens (listenerDecl start tokens) := by
  refine (expect_within text _ _ tokens).bind fun _ _ => ?_
  refine (listenerHead_within text _).bind fun _ _ => ?_
  refine (expect_within text _ _ _).bind fun r _ => ?_
  refine Within.mono ?_ (initialType_suffix r.2)
  exact (semicolon_within text _ _ _).bind fun _ _ => List.suffix_refl _

theorem serviceHead_within (tokens : List Token) : Within text Prod.snd tokens (serviceHead tokens) := by
  unfold serviceHead
  split
  · trivial
  · next t rest hd =>
    have hin : t :: rest <:+ tokens := hd ▸ List.dropWhile_suffix _
    split
    · exact hin
    · next hon =>
      have hbrace : t.text = "\x7b" := Token.text_of_isPunct (by simpa [hon] using dropWhile_cons_neg hd)
      exact (Failure.pointsInto_word hbrace .serviceOn rest).mono hin.isInfix

/-- An attach point ends at a comma or a brace, so where it is missing there is a token to report. -/
theorem attachPoint_within (tokens : List Token) : Within text Prod.snd tokens (attachPoint tokens) := by
  refine (upTo_within text _ _ _ tokens).bind fun rest hrest => ?_
  obtain ⟨used, t, tail, -, rfl, -⟩ := upTo_reads hrest
  cases passed tokens (t :: tail) with
  | cons first more => exact List.suffix_refl (t :: tail)
  | nil => exact Failure.pointsInto_head .attachPoint t tail

theorem attachPoints_within (tokens : List Token) : Within text Prod.snd tokens (attachPoints tokens) := by
  have hnext : ∀ {tokens a rest}, attachPoint tokens = .ok (a, rest) → rest.tail <:+ tokens :=
    fun {tokens a rest} h => (List.tail_suffix rest).trans ((attachPoint_within text tokens).suffix h)
  fun_induction attachPoints tokens with
  | case1 tokens f ha => exact (attachPoint_within text tokens).error ha
  | case2 tokens a rest ha _ _ f hrec ih => exact (ih.error hrec).mono (hnext ha).isInfix
  | case3 tokens a rest ha _ _ as rest' hrec ih => exact (ih.suffix hrec).trans (hnext ha)
  | case4 tokens a rest ha => exact (attachPoint_within text tokens).suffix ha

theorem serviceDecl_within (text : List Char) (start : Nat) (tokens : List Token) :
    Within text Prod.snd tokens (serviceDecl text start tokens) := by
  refine (expect_within text _ _ tokens).bind fun _ _ => ?_
  refine (serviceHead_within text _).bind fun _ _ => ?_
  refine (expect_within text _ _ _).bind fun _ _ => ?_
  refine (attachPoints_within text _).bind fun _ _ => ?_
  refine (expect_within text _ _ _).bind fun _ _ => ?_
  exact (members_within text _).bind fun _ _ => List.suffix_refl _

theorem declaration_within (text : List Char) (first : Token) (tail : List Token) :
    Within text Prod.snd (first :: tail) (declaration text first tail) := by
  refine Within.mono ?_ (show afterQualifiers (first :: tail) <:+ first :: tail from List.dropWhile_suffix _)
  unfold declaration
  dsimp only
  split
  · exact (importDecl_within text _).bind fun _ _ => List.suffix_refl _
  · split
    · exact (listenerDecl_within text first.start _).bind fun _ _ => List.suffix_refl _
    · split
      · exact (serviceDecl_within text first.start _).bind fun _ _ => List.suffix_refl _
      · exact (construct_within text [] _).bind fun _ _ => List.suffix_refl _

/-- Parsing a module fails at some of its tokens. -/
theorem declarations_pointsInto {text : List Char} {tokens : List Token} {f : Failure}
    (h : declarations text tokens = .error f) : f.PointsInto text tokens := by
  fun_induction declarations text tokens with
  | case1 => cases h
  | case2 t tail _ f hstep =>
    cases h
    exact (annotationStep_within text (t :: tail)).error hstep
  | case3 t tail _ rest hstep _ ih =>
    exact (ih h).mono ((annotationStep_within text (t :: tail)).suffix hstep).isInfix
  | case4 t tail _ f hdecl =>
    cases h
    exact (declaration_within text t tail).error hdecl
  | case5 t tail _ d rest hdecl _ f hrec ih =>
    cases h
    exact (ih hrec).mono ((declaration_within text t tail).suffix hdecl).isInfix
  | case6 => cases h

end Parse

end ServiceLint
