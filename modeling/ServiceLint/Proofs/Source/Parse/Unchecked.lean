import ServiceLint.Proofs.Source.Balance
import ServiceLint.Proofs.Source.Positions
import ServiceLint.Proofs.Source.Parse.Places

/-!
# Delimiters that parsing does not check

Most of the parser passes over groups and refuses a closing delimiter without a match. Some loops do not. Those
that look for the end of an attach point or for the body of a function pass over groups, but let a closing
delimiter through that closes nothing; those that look for the `=` of a listener, the `on` of a service or the
parameter list of a resource let any delimiter through. What such loops may pass over stands in
`Module.unchecked`, together with checked tokens that lie in the same spans: the bodies of functions and the
initial values of listeners. Checked tokens are balanced, so taking them in changes nothing.

`Passes ts rest us` is how a step counts: it leaves `rest` of `ts`, and for nesting what it has passed is worth
as much as `us`. Steps that check their delimiters are worth nothing, and the steps of a whole module are
worth what is unchecked in it (`declarations_passes`). So an accepted text is balanced exactly when the tokens in
`Module.unchecked` are (`SourceFile.parse_balanced_iff`).
-/
namespace ServiceLint

/-! ## Unchecked tokens -/

/-- The tokens that stand in the span. -/
def within (s : Span) (tokens : List Token) : List Token :=
  tokens.filter fun t => s.start ≤ t.start && t.stop ≤ s.stop

/-- Of a function, its name and what follows its parameter list: tokens that no check reaches, and the body, which
is checked. -/
def Member.unchecked (tokens : List Token) (m : Member) : List Token :=
  match m.body with
  | .method f => within f.nameSpan tokens ++ within ⟨f.paramsSpan.stop, m.span.stop⟩ tokens
  | .field _ => []

/-- All up to the opening brace, the unchecked tokens of the members, and the closing brace. -/
def Service.unchecked (tokens : List Token) (s : Service) : List Token :=
  within ⟨s.span.start, s.openBrace.stop⟩ tokens ++
    (s.members.flatMap (Member.unchecked tokens) ++ within s.closeBrace tokens)

/-- All of a listener, whose initial value is checked; of a service, what is unchecked in it. -/
def Decl.unchecked (tokens : List Token) : Decl → List Token
  | .importDecl _ => []
  | .listenerDecl d => within d.span tokens
  | .serviceDecl s => s.unchecked tokens

/-- Stretches of tokens whose delimiters are not all checked. -/
def Module.unchecked (tokens : List Token) (m : Module) : List Token :=
  m.decls.flatMap (Decl.unchecked tokens)

/-- A span that starts where earlier tokens have ended holds the next ones up to the token with which it
ends. -/
theorem within_eq {text : List Char} {lo hi start : Nat} {pre front post : List Token} {last : Token}
    (hpre : Laid text lo pre start) (h : Laid text start (front ++ last :: post) hi) :
    within ⟨start, last.stop⟩ (pre ++ (front ++ last :: post)) = front ++ [last] := by
  obtain ⟨hfront, hlast, hpost⟩ := h.cut
  have hlt := hlast.lt
  -- tokens between two places are inside them
  have hin : ∀ {lo ts hi}, Laid text lo ts hi → ∀ t ∈ ts, lo ≤ t.start ∧ t.start < t.stop ∧ t.stop ≤ hi := by
    intro lo ts hi hl t ht
    obtain ⟨as, bs, rfl⟩ := List.append_of_mem ht
    obtain ⟨has, ht, hbs⟩ := hl.cut
    exact ⟨has.le, ht.lt, hbs.le⟩
  have hbefore : within ⟨start, last.stop⟩ pre = [] := by
    rw [within, List.filter_eq_nil_iff]
    intro t ht
    have := hin hpre t ht
    simp only [Bool.and_eq_true, decide_eq_true_eq]
    omega
  have hafter : within ⟨start, last.stop⟩ post = [] := by
    rw [within, List.filter_eq_nil_iff]
    intro t ht
    have := hin hpost t ht
    simp only [Bool.and_eq_true, decide_eq_true_eq]
    omega
  have hinside : within ⟨start, last.stop⟩ (front ++ [last]) = front ++ [last] := by
    rw [within, List.filter_eq_self]
    intro t ht
    simp only [Bool.and_eq_true, decide_eq_true_eq]
    rcases List.mem_append.1 ht with ht | ht
    · have := hin hfront t ht
      omega
    · rw [List.mem_singleton.1 ht]
      exact ⟨hfront.le, Nat.le_refl _⟩
  have hsplit : pre ++ (front ++ last :: post) = pre ++ ((front ++ [last]) ++ post) := by simp
  simp only [within] at hbefore hafter hinside ⊢
  rw [hsplit, List.filter_append, List.filter_append, hbefore, hafter, hinside, List.nil_append,
    List.append_nil]

section Within

variable {text : List Char} {lo hi : Nat} {whole front post : List Token} {first last prev : Token}

/-- The span from the first to the last of some tokens holds these tokens. -/
theorem within_from (hl : Laid text lo whole hi) (hin : front ++ last :: post <:+ whole)
    (hfirst : (front ++ [last]).head? = some first) :
    within ⟨first.start, last.stop⟩ whole = front ++ [last] := by
  obtain ⟨pre, rfl⟩ := hin
  obtain ⟨more, hmore⟩ := List.head?_eq_some_iff.1 hfirst
  have hsplit : front ++ last :: post = first :: (more ++ post) := by
    rw [← List.cons_append, ← hmore, List.append_assoc, List.singleton_append]
  rw [hsplit] at hl
  obtain ⟨hpre, hstands, hrest⟩ := hl.cut
  have hfrom : Laid text first.start (front ++ last :: post) hi := by
    rw [hsplit]
    exact ⟨Nat.le_refl _, hstands, hrest⟩
  exact within_eq hpre hfrom

/-- The span from the end of a token to the end of a later one holds the tokens after the first. -/
theorem within_after (hl : Laid text lo whole hi) (hin : prev :: (front ++ last :: post) <:+ whole) :
    within ⟨prev.stop, last.stop⟩ whole = front ++ [last] := by
  obtain ⟨pre, rfl⟩ := hin
  obtain ⟨hpre, hstands, hrest⟩ := hl.cut
  have hbefore : Laid text lo (pre ++ [prev]) prev.stop :=
    laid_append.2 ⟨_, hpre, Nat.le_refl _, hstands, Nat.le_refl _⟩
  have := within_eq hbefore hrest
  rwa [List.append_assoc, List.singleton_append] at this

end Within

namespace Parse

/-- Of the first tokens the second ones are left, and for nesting those that were passed are worth as much as
the third ones. -/
def Passes (ts rest us : List Token) : Prop :=
  ∃ used, ts = used ++ rest ∧ ∀ stack, nestAll stack used = nestAll stack us

namespace Passes

variable {ts rest rest' us vs used : List Token} {t : Token}

theorem refl (ts : List Token) : Passes ts ts [] := ⟨[], rfl, fun _ => rfl⟩

/-- Tokens are worth themselves. -/
theorem all (h : ts = used ++ rest) : Passes ts rest used := ⟨used, h, fun _ => rfl⟩

theorem trans (h : Passes ts rest us) (h' : Passes rest rest' vs) : Passes ts rest' (us ++ vs) := by
  obtain ⟨used, rfl, hused⟩ := h
  obtain ⟨used', rfl, hused'⟩ := h'
  refine ⟨used ++ used', (List.append_assoc ..).symm, fun stack => ?_⟩
  simp only [nestAll_append, hused, hused']

/-- What is worth nothing does not count. -/
theorem skip (h : Passes ts rest []) (h' : Passes rest rest' us) : Passes ts rest' us := h.trans h'

theorem suffix (h : Passes ts rest us) : rest <:+ ts := by
  obtain ⟨used, rfl, -⟩ := h
  exact List.suffix_append used rest

/-- A balanced stretch is worth nothing. -/
theorem balanced (h : Balanced used) : Passes (used ++ rest) rest [] :=
  ⟨used, rfl, fun stack => h.nestAll stack⟩

theorem of_nestAll (h : ∃ used, ts = used ++ rest ∧ nestAll [] used = some []) : Passes ts rest [] := by
  obtain ⟨used, rfl, hused⟩ := h
  exact balanced (balanced_iff.2 hused)

end Passes

/-! ## Single tokens -/

def delimiterWords : List String := ["(", ")", "[", "]", "\x7b", "\x7d"]

/-- Only punctuators with such a text are delimiters. -/
theorem plain_of_text {t : Token} (h : t.kind ≠ .punct ∨ t.text ∉ delimiterWords) :
    t.opens? = none ∧ t.closes? = none := by
  have hno : ∀ s ∈ delimiterWords, t.isPunct s = false := by
    intro s hs
    rw [Token.isPunct, Bool.and_eq_false_imp]
    intro hkind
    rcases h with h | h
    · exact absurd (beq_iff_eq.1 hkind) h
    · exact beq_false_of_ne fun htext => h (htext ▸ hs)
  constructor
  · simp [Token.opens?, hno "(" (by decide), hno "[" (by decide), hno "\x7b" (by decide)]
  · simp [Token.closes?, hno ")" (by decide), hno "]" (by decide), hno "\x7d" (by decide)]

/-- A mark that is no delimiter leaves nothing open. -/
theorem nestAll_mark {t : Token} {s : String} (h : t.isPunct s = true) (hs : s ∉ delimiterWords) :
    nestAll [] [t] = some [] := by
  simp only [Token.isPunct, Bool.and_eq_true, beq_iff_eq] at h
  obtain ⟨ho, hc⟩ := plain_of_text (t := t) (Or.inr (h.2 ▸ hs))
  exact nestAll_cons (nest_plain ho hc)

theorem passes_plain {t : Token} {rest : List Token} (h : t.kind ≠ .punct ∨ t.text ∉ delimiterWords) :
    Passes (t :: rest) rest [] :=
  Passes.balanced (.plain (plain_of_text h).1 (plain_of_text h).2 .nil)

theorem passes_is {t : Token} {rest : List Token} {s : String} (h : t.is s = true) (hs : s ∉ delimiterWords) :
    Passes (t :: rest) rest [] := by
  simp only [Token.is, Bool.and_eq_true, beq_iff_eq] at h
  exact passes_plain (Or.inr (h.2 ▸ hs))

theorem passes_name {t : Token} {rest : List Token} (h : t.isName = true) : Passes (t :: rest) rest [] := by
  refine passes_plain (Or.inl fun hpunct => ?_)
  simp [Token.isName, hpunct] at h

/-- Tokens that are some of the words. -/
theorem passes_words {words : List String} {ts rest : List Token} (h : ∀ t ∈ ts, words.any t.is = true)
    (hwords : ∀ s ∈ words, s ∉ delimiterWords) : Passes (ts ++ rest) rest [] := by
  induction ts with
  | nil => exact .refl rest
  | cons t ts ih =>
    obtain ⟨s, hs, ht⟩ := List.any_eq_true.1 (h t List.mem_cons_self)
    exact (passes_is ht (hwords s hs)).skip (ih fun u hu => h u (List.mem_cons_of_mem t hu))

theorem expect_passes {s : String} {e : Expectation} {tokens rest : List Token} {t : Token}
    (h : expect s e tokens = .ok (t, rest)) (hs : s ∉ delimiterWords) : Passes tokens rest [] := by
  obtain ⟨rfl, ht⟩ := expect_eq_ok.1 h
  exact passes_is ht hs

theorem expectName_passes {e : Expectation} {tokens rest : List Token} {t : Token}
    (h : expectName e tokens = .ok (t, rest)) : Passes tokens rest [] := by
  obtain ⟨rfl, ht⟩ := expectName_eq_ok.1 h
  exact passes_name ht

/-- A keyword that was looked at, and the name after it. -/
theorem expectName_tail_passes {s : String} {e : Expectation} {tokens rest : List Token} {t : Token}
    (hword : startsWith s tokens = true) (hs : s ∉ delimiterWords)
    (h : expectName e tokens.tail = .ok (t, rest)) : Passes tokens rest [] := by
  cases tokens with
  | nil => cases hword
  | cons u us => exact (passes_is hword hs).skip (expectName_passes h)

/-! ## Groups -/

theorem group_nests {e : Expectation} {stack : List Delimiter} {tokens rest : List Token} {t : Token}
    (h : group e stack tokens = .ok (t, rest)) : ∃ used, tokens = used ++ rest ∧ nestAll stack used = some [] := by
  fun_induction group e stack tokens with
  | case1 => cases h
  | case2 => cases h
  | case3 stack t rest stack' hn hc =>
    cases h
    simp only [Bool.and_eq_true, List.isEmpty_iff] at hc
    exact ⟨[t], rfl, by rw [nestAll_cons hn, hc.2]; rfl⟩
  | case4 stack u us stack' hn hc ih =>
    obtain ⟨used, rfl, hused⟩ := ih h
    exact ⟨u :: used, rfl, by rw [nestAll_cons hn, hused]⟩

theorem semicolon_nests {e : Expectation} {stack : List Delimiter} {tokens rest : List Token} {t : Token}
    (h : semicolon e stack tokens = .ok (t, rest)) :
    ∃ used, tokens = used ++ rest ∧ nestAll stack used = some [] := by
  fun_induction semicolon e stack tokens with
  | case1 => cases h
  | case2 stack t rest hs =>
    cases h
    simp only [Bool.and_eq_true, List.isEmpty_iff] at hs
    obtain ⟨rfl, hsemi⟩ := hs
    exact ⟨[t], rfl, nestAll_mark hsemi (by decide)⟩
  | case3 => cases h
  | case4 stack u us hs stack' hn ih =>
    obtain ⟨used, rfl, hused⟩ := ih h
    exact ⟨u :: used, rfl, by rw [nestAll_cons hn, hused]⟩

theorem construct_nests {stack : List Delimiter} {tokens rest : List Token}
    (h : construct stack tokens = .ok rest) : ∃ used, tokens = used ++ rest ∧ nestAll stack used = some [] := by
  fun_induction construct stack tokens with
  | case1 stack hs =>
    cases h
    obtain rfl := List.isEmpty_iff.1 hs
    exact ⟨[], rfl, rfl⟩
  | case2 => cases h
  | case3 stack t rest hs =>
    cases h
    simp only [Bool.and_eq_true, List.isEmpty_iff] at hs
    obtain ⟨rfl, hsemi⟩ := hs
    exact ⟨[t], rfl, nestAll_mark hsemi (by decide)⟩
  | case4 => cases h
  | case5 stack t rest hs stack' hn hc =>
    cases h
    simp only [Bool.and_eq_true, List.isEmpty_iff] at hc
    exact ⟨[t], rfl, by rw [nestAll_cons hn, hc.1]; rfl⟩
  | case6 stack u us hs stack' hn hc ih =>
    obtain ⟨used, rfl, hused⟩ := ih h
    exact ⟨u :: used, rfl, by rw [nestAll_cons hn, hused]⟩

theorem paramTokens_nests {stack : List Delimiter} {tokens part rest : List Token} {stop : Token}
    (h : paramTokens stack tokens = .ok (part, stop, rest)) : nestAll stack part = some [] := by
  fun_induction paramTokens stack tokens generalizing part with
  | case1 => cases h
  | case2 stack t rest hs =>
    cases h
    simp only [Bool.and_eq_true, List.isEmpty_iff] at hs
    rw [hs.1]
    rfl
  | case3 => cases h
  | case4 => cases h
  | case5 stack t rest hs stack' hn part stop rest' hrec ih =>
    cases h
    rw [nestAll_cons hn, ih hrec]

/-! ## Annotations -/

theorem annotationTail_passes {tokens rest : List Token} (h : annotationTail tokens = .ok rest) :
    Passes tokens rest [] := by
  unfold annotationTail at h
  split at h
  · next hcolon =>
    obtain ⟨⟨name, r⟩, hname, h⟩ := bind_eq_ok.1 h
    cases h
    exact expectName_tail_passes hcolon (by decide) hname
  · cases h
    exact .refl _

theorem annotationValue_passes {tokens rest : List Token} (h : annotationValue tokens = .ok rest) :
    Passes tokens rest [] := by
  unfold annotationValue at h
  split at h
  · obtain ⟨⟨close, r⟩, hgroup, h⟩ := bind_eq_ok.1 h
    cases h
    exact .of_nestAll (group_nests hgroup)
  · cases h
    exact .refl _

theorem annotationStep_passes {tokens rest : List Token} (h : annotationStep tokens = .ok rest) :
    Passes tokens rest [] := by
  obtain ⟨⟨_, r₁⟩, h₁, h⟩ := bind_eq_ok.1 h
  obtain ⟨⟨_, r₂⟩, h₂, h⟩ := bind_eq_ok.1 h
  obtain ⟨r₃, h₃, h₄⟩ := bind_eq_ok.1 h
  exact (expect_passes h₁ (by decide)).skip <| (expectName_passes h₂).skip <|
    (annotationTail_passes h₃).skip (annotationValue_passes h₄)

theorem annotations_passes {tokens rest : List Token} (h : annotations tokens = .ok rest) :
    Passes tokens rest [] := by
  fun_induction annotations tokens with
  | case1 => cases h
  | case2 tokens _ r hstep _ ih => exact (annotationStep_passes hstep).skip (ih h)
  | case3 tokens =>
    cases h
    exact .refl _

/-! ## Imports -/

theorem pathTail_passes {tokens rest : List Token} {names : List String}
    (h : pathTail tokens = .ok (names, rest)) : Passes tokens rest [] := by
  fun_induction pathTail tokens generalizing names with
  | case1 => cases h
  | case2 dot name rest₁ hdot hname names' rest₂ hrec ih =>
    cases h
    exact (passes_is hdot (by decide)).skip ((passes_name hname).skip (ih hrec))
  | case3 => cases h
  | case4 => cases h; exact .refl _
  | case5 => cases h
  | case6 => cases h; exact .refl _
  | case7 => cases h; exact .refl _

theorem orgPart_passes {first : Token} {tokens rest : List Token} {p : Option String × String}
    (h : orgPart first tokens = .ok (p, rest)) : Passes tokens rest [] := by
  unfold orgPart at h
  split at h
  · next hslash =>
    obtain ⟨⟨name, r⟩, hname, h⟩ := bind_eq_ok.1 h
    cases h
    exact expectName_tail_passes hslash (by decide) hname
  · cases h
    exact .refl _

theorem aliasPart_passes {tokens rest : List Token} {a : Option String}
    (h : aliasPart tokens = .ok (a, rest)) : Passes tokens rest [] := by
  unfold aliasPart at h
  split at h
  · next has =>
    obtain ⟨⟨name, r⟩, hname, h⟩ := bind_eq_ok.1 h
    cases h
    exact expectName_tail_passes has (by decide) hname
  · cases h
    exact .refl _

theorem importDecl_passes {tokens rest : List Token} {d : Import} (h : importDecl tokens = .ok (d, rest)) :
    Passes tokens rest [] := by
  obtain ⟨⟨_, r₁⟩, h₁, h⟩ := bind_eq_ok.1 h
  obtain ⟨⟨_, r₂⟩, h₂, h⟩ := bind_eq_ok.1 h
  obtain ⟨⟨_, r₃⟩, h₃, h⟩ := bind_eq_ok.1 h
  obtain ⟨⟨_, r₄⟩, h₄, h⟩ := bind_eq_ok.1 h
  obtain ⟨⟨_, r₅⟩, h₅, h⟩ := bind_eq_ok.1 h
  obtain ⟨⟨_, r₆⟩, h₆, h⟩ := bind_eq_ok.1 h
  cases h
  exact (expect_passes h₁ (by decide)).skip <| (expectName_passes h₂).skip <| (orgPart_passes h₃).skip <|
    (pathTail_passes h₄).skip <| (aliasPart_passes h₅).skip (expect_passes h₆ (by decide))

/-! ## Parameter lists -/

theorem paramsTail_balanced {text : List Char} {tokens rest : List Token} {ps : List Param} {close : Token}
    (h : paramsTail text tokens = .ok (ps, close, rest)) :
    ∃ inner, tokens = inner ++ close :: rest ∧ Balanced inner ∧ close.isPunct ")" = true := by
  fun_induction paramsTail text tokens generalizing ps with
  | case1 => cases h
  | case2 => cases h
  | case3 tokens part stop rest hpart _ p hp hclose =>
    cases h
    exact ⟨part, (paramTokens_reads hpart).1, balanced_iff.2 (paramTokens_nests hpart), hclose⟩
  | case4 => cases h
  | case5 => cases h
  | case6 tokens part comma rest hpart _ hcomma p ps close rest' hrec hp ih =>
    cases h
    obtain ⟨inner, rfl, hinner, hclose⟩ := ih hrec
    obtain ⟨htokens, hstop, -⟩ := paramTokens_reads hpart
    have hc : comma.isPunct "," = true := by simpa [hcomma] using hstop
    have hcommaBalanced : Balanced [comma] := balanced_iff.2 (nestAll_mark hc (by decide))
    refine ⟨part ++ ([comma] ++ inner), by rw [htokens]; simp, ?_, hclose⟩
    exact (balanced_iff.2 (paramTokens_nests hpart)).append (hcommaBalanced.append hinner)

variable {text : List Char} {lo hi : Nat} {whole : List Token}

/-- A parameter list is a group. -/
theorem params_balanced {tokens rest : List Token} {ps : List Param × Span}
    (h : params text tokens = .ok (ps, rest)) (hl : Laid text lo tokens hi) :
    ∃ front close, tokens = front ++ close :: rest ∧ Balanced (front ++ [close]) ∧ ps.2.stop = close.stop := by
  obtain ⟨⟨openParen, r₁⟩, h₁, h⟩ := bind_eq_ok.1 h
  obtain ⟨⟨ps, close, r₂⟩, h₂, h⟩ := bind_eq_ok.1 h
  cases h
  obtain ⟨rfl, hopen⟩ := expect_eq_ok.1 h₁
  obtain ⟨inner, rfl, hinner, hclose⟩ := paramsTail_balanced h₂
  have hname : ¬ IsNameText "(".toList := fun h => h.notMem (c := '(') (by decide) (by decide) (by decide)
  have hpunct : openParen.isPunct "(" = true := hl.2.1.isPunct hname hopen
  refine ⟨openParen :: inner, close, rfl, ?_, rfl⟩
  refine Balanced.group (d := .paren) ?_ ?_ hinner .nil
  · simp [Token.opens?, hpunct]
  · simp [Token.closes?, hclose]

/-! ## Members -/

theorem qualifiers_passes (tokens : List Token) : Passes tokens (qualifiers tokens).2 [] := by
  fun_induction qualifiers tokens with
  | case1 => exact .refl []
  | case2 t rest hq found rest' he ih =>
    rw [he] at ih
    simp only [Bool.and_eq_true, List.any_eq_true] at hq
    obtain ⟨⟨s, hs, ht⟩, -⟩ := hq
    have hword : ∀ s ∈ memberQualifiers, s ∉ delimiterWords := by decide
    exact (passes_is ht (hword s hs)).skip ih
  | case3 => exact .refl _

/-- The span of the name of a function holds the tokens of the name. -/
theorem within_name {name : Token} {path after : List Token} (hl : Laid text lo whole hi)
    (hin : name :: (path ++ after) <:+ whole) :
    within ⟨name.start, ((name :: path).getLast?.getD name).stop⟩ whole = name :: path := by
  obtain ⟨front, last, hlast⟩ : ∃ front last, name :: path = front ++ [last] :=
    ⟨_, _, (List.dropLast_concat_getLast (List.cons_ne_nil name path)).symm⟩
  rw [← List.cons_append, hlast, List.append_assoc, List.singleton_append] at hin
  have hhead : (front ++ [last]).head? = some name := by
    rw [← hlast]
    rfl
  rw [hlast, List.getLast?_concat]
  exact within_from hl hin hhead

/-- The name of a function is what `tokens_text` makes of it: the texts of all tokens of the file that stand in the span
of the name. -/
theorem function_name {first : Token} {quals : List String} {tokens rest : List Token} {m : Member}
    (h : function text first quals tokens = .ok (m, rest)) (hin : tokens <:+ whole) (hl : Laid text lo whole hi) :
    ∃ f, m.body = .method f ∧ f.name = " ".intercalate ((within f.nameSpan whole).map (·.text)) := by
  obtain ⟨p, ps, rfl, -, -, -, rfl, -⟩ := function_reads h
  refine ⟨_, rfl, ?_⟩
  have hnameIn : p.name :: (p.path ++ p.openParen :: (p.inner ++ p.closeParen :: p.body) ++ p.last :: rest) <:+ whole :=
    (List.suffix_cons p.keyword _).trans hin
  rw [List.append_assoc] at hnameIn
  rw [FunctionParts.nameSpan, within_name hl hnameIn]

/-- Of a function its name and what follows the parameter list count. -/
theorem function_passes {first : Token} {quals : List String} {tokens rest : List Token} {m : Member}
    (h : function text first quals tokens = .ok (m, rest)) (hin : tokens <:+ whole)
    (hl : Laid text lo whole hi) : Passes tokens rest (m.unchecked whole) := by
  obtain ⟨⟨keyword, r₁⟩, h₁, h⟩ := bind_eq_ok.1 h
  obtain ⟨⟨name, r₂⟩, h₂, h⟩ := bind_eq_ok.1 h
  obtain ⟨⟨path, r₃⟩, h₃, h⟩ := bind_eq_ok.1 h
  obtain ⟨⟨⟨ps, span⟩, r₄⟩, h₄, h⟩ := bind_eq_ok.1 h
  obtain ⟨⟨last, r₅⟩, h₅, h⟩ := bind_eq_ok.1 h
  cases h
  obtain ⟨rfl, hkeyword⟩ := expect_eq_ok.1 h₁
  obtain ⟨rfl, -⟩ := expectName_eq_ok.1 h₂
  obtain ⟨rfl, -⟩ := nameTail_reads h₃
  have hnameIn : name :: (path ++ r₃) <:+ whole := (List.suffix_cons keyword _).trans hin
  have hlistIn : r₃ <:+ whole := ((List.suffix_append path r₃).trans (List.suffix_cons name _)).trans hnameIn
  obtain ⟨pre, hpre⟩ := hlistIn
  obtain ⟨mid, -, hlparams⟩ := laid_append.1 (hpre ▸ hl)
  obtain ⟨list, close, rfl, hlist, hstop⟩ := params_balanced h₄ hlparams
  obtain ⟨body, rfl, -, -⟩ := functionEnd_reads h₅
  have hname := within_name hl hnameIn
  have hbody : within ⟨span.stop, last.stop⟩ whole = body ++ [last] := by
    have hin : close :: (body ++ last :: rest) <:+ whole :=
      (List.suffix_append list _).trans ⟨pre, hpre⟩
    rw [show span.stop = close.stop from hstop]
    exact within_after hl hin
  have hlistSplit : list ++ close :: (body ++ last :: rest) = (list ++ [close]) ++ (body ++ last :: rest) := by
    simp
  show Passes _ _ (within ⟨name.start, ((name :: path).getLast?.getD name).stop⟩ whole ++
    within ⟨span.stop, last.stop⟩ whole)
  rw [hname, hbody]
  refine (passes_is hkeyword (by decide)).skip ?_
  refine Passes.trans (Passes.all (List.cons_append ..)) ?_
  refine Passes.skip (hlistSplit ▸ Passes.balanced hlist) ?_
  exact Passes.all (by simp)

theorem field_passes {first : Token} {tokens rest : List Token} {m : Member}
    (h : field first tokens = .ok (m, rest)) : Passes tokens rest (m.unchecked whole) := by
  obtain ⟨⟨semi, r⟩, h₁, h⟩ := bind_eq_ok.1 h
  cases h
  exact .of_nestAll (semicolon_nests h₁)

theorem member_passes {tokens rest : List Token} {m : Member} (h : member text tokens = .ok (m, rest))
    (hin : tokens <:+ whole) (hl : Laid text lo whole hi) : Passes tokens rest (m.unchecked whole) := by
  obtain ⟨r, h₁, h₂⟩ := bind_eq_ok.1 h
  have hnotes := annotations_passes h₁
  split at h₂
  · cases h₂
  · next first tail =>
    have hquals := hnotes.skip (qualifiers_passes (first :: tail))
    dsimp only at h₂
    split at h₂
    · exact hquals.skip (function_passes h₂ (hquals.suffix.trans hin) hl)
    · exact hquals.skip (field_passes h₂)

theorem members_passes {tokens rest : List Token} {ms : List Member} {close : Token}
    (h : members text tokens = .ok (ms, close, rest)) (hin : tokens <:+ whole) (hl : Laid text lo whole hi) :
    Passes tokens (close :: rest) (ms.flatMap (Member.unchecked whole)) := by
  fun_induction members text tokens generalizing ms with
  | case1 => cases h
  | case2 t tail hclose =>
    cases h
    exact .refl _
  | case3 => cases h
  | case4 => cases h
  | case5 t tail hclose m r hmember _ ms close rest' hrec ih =>
    cases h
    have hfirst := member_passes hmember hin hl
    exact hfirst.trans (ih hrec (hfirst.suffix.trans hin))

/-! ## Declarations -/

variable {quals w rest : List Token} {first : Token}

theorem listenerDecl_passes {d : Listener} (h : listenerDecl first.start w = .ok (d, rest))
    (hfirst : (quals ++ w).head? = some first) (hin : quals ++ w <:+ whole) (hl : Laid text lo whole hi) :
    Passes (quals ++ w) rest (within d.span whole) := by
  obtain ⟨keyword, body, semi, rfl, -, hspan, -⟩ := listenerDecl_reads h
  have hsplit : quals ++ keyword :: (body ++ semi :: rest) = (quals ++ keyword :: body) ++ semi :: rest := by
    simp
  rw [hsplit] at hin hfirst ⊢
  rw [hspan, within_from hl hin (by rw [← hfirst]; cases quals <;> simp)]
  exact Passes.all (by simp)

theorem serviceDecl_passes {s : Service} (h : serviceDecl text first.start w = .ok (s, rest))
    (hfirst : (quals ++ w).head? = some first) (hin : quals ++ w <:+ whole) (hl : Laid text lo whole hi) :
    Passes (quals ++ w) rest (s.unchecked whole) := by
  obtain ⟨p, close, rfl, -, -, -, -, hmembers, hspan, hopen, hclose, -⟩ := serviceDecl_reads h
  have hsplit : quals ++ (p.front ++ (p.body ++ close :: rest)) =
      (quals ++ p.keyword :: (p.type ++ p.on :: p.attach)) ++ p.openBrace :: (p.body ++ close :: rest) := by
    simp [ServiceParts.front]
  rw [hsplit] at hin hfirst ⊢
  have hbodyIn : p.body ++ close :: rest <:+ whole :=
    ((List.suffix_cons p.openBrace _).trans (List.suffix_append _ _)).trans hin
  have hhead := within_from hl hin (by rw [← hfirst]; cases quals <;> simp)
  have hcloseIn : [] ++ close :: rest <:+ whole := (List.suffix_append p.body _).trans hbodyIn
  have hend : within close.span whole = [close] := within_from hl hcloseIn rfl
  rw [Service.unchecked, hspan, hopen, hclose, show p.openBrace.span.stop = p.openBrace.stop from rfl, hhead,
    hend]
  have hcloser : Passes (close :: rest) rest [close] := Passes.all rfl
  have hbody := (members_passes hmembers hbodyIn hl).trans hcloser
  exact Passes.trans (Passes.all (by simp)) hbody

theorem declaration_passes {tail : List Token} {d : Option Decl}
    (h : declaration text first tail = .ok (d, rest)) (hin : first :: tail <:+ whole)
    (hl : Laid text lo whole hi) : Passes (first :: tail) rest (d.toList.flatMap (Decl.unchecked whole)) := by
  obtain ⟨quals, w, hsplit, hq⟩ := qualified_of_tokens (first :: tail)
  have hfirst : (quals ++ w).head? = some first := by rw [← hsplit]; rfl
  have hdecl := (declaration_eq_ok_iff hq hsplit).1 h
  rw [hsplit] at hin ⊢
  have hquals : Passes (quals ++ w) w [] := passes_words (hq.quals · ·) (by decide)
  cases hdecl with
  | importDecl _ _ hi => exact hquals.skip (importDecl_passes hi)
  | listenerDecl _ hlis => simpa [Decl.unchecked] using listenerDecl_passes hlis hfirst hin hl
  | serviceDecl _ _ hserv => simpa [Decl.unchecked] using serviceDecl_passes hserv hfirst hin hl
  | other _ _ _ hother => exact hquals.skip (.of_nestAll (construct_nests hother))

theorem declarations_passes {tokens : List Token} {ds : List Decl} (h : declarations text tokens = .ok ds)
    (hin : tokens <:+ whole) (hl : Laid text lo whole hi) :
    Passes tokens [] (ds.flatMap (Decl.unchecked whole)) := by
  fun_induction declarations text tokens generalizing ds with
  | case1 =>
    cases h
    exact .refl []
  | case2 => cases h
  | case3 t tail hat rest hstep _ ih =>
    have hnote := annotationStep_passes hstep
    exact hnote.skip (ih h (hnote.suffix.trans hin))
  | case4 => cases h
  | case5 => cases h
  | case6 t tail hat d rest hdecl _ ds' hrec ih =>
    cases h
    have hfirst := declaration_passes hdecl hin hl
    rw [List.flatMap_append]
    exact hfirst.trans (ih hrec (hfirst.suffix.trans hin))

end Parse

/-- An accepted text is balanced exactly when those of its tokens are that parsing does not check: everything
else that parsing accepts is balanced in itself. -/
theorem SourceFile.parse_balanced_iff {name : String} {text : List Char} {file : SourceFile}
    {tokens : List Token} (h : SourceFile.parse name text = .ok file) (htok : tokenize text = .ok tokens) :
    Balanced tokens ↔ Balanced (file.module.unchecked tokens) := by
  obtain ⟨m, hm, rfl⟩ := SourceFile.parse_eq_ok h
  obtain ⟨tokens', htok', hdecls⟩ := Module.parse_eq_ok hm
  obtain rfl := Except.ok.inj (htok.symm.trans htok')
  obtain ⟨used, hused, hworth⟩ :=
    Parse.declarations_passes hdecls (List.suffix_refl tokens) (tokenize_laid htok)
  obtain rfl : tokens = used := hused.trans (List.append_nil used)
  rw [balanced_iff, balanced_iff, hworth]
  rfl

/-- A function with a resource path, after an import and a field. The path and the end of the function count,
its parameter list does not. -/
theorem SourceFile.parse_balanced_iff_path : ∃ text file tokens,
    text = "import m/q;\nservice on l \x7b int[] n = [];\nresource function get a/[int i](int x) \x7b\x7d \x7d".toList ∧
    SourceFile.parse "m.bal" text = .ok file ∧ tokenize text = .ok tokens ∧
    (file.module.unchecked tokens).map (·.text) =
      ["service", "on", "l", "\x7b", "get", "a", "/", "[", "int", "i", "]", "\x7b", "\x7d", "\x7d"] ∧
    (Balanced tokens ↔ Balanced (file.module.unchecked tokens)) := by
  let text :=
    "import m/q;\nservice on l \x7b int[] n = [];\nresource function get a/[int i](int x) \x7b\x7d \x7d".toList
  have hcheck : ((SourceFile.parse "m.bal" text).toOption.bind fun file =>
      (tokenize text).toOption.map fun tokens => (file.module.unchecked tokens).map (·.text)) =
      some ["service", "on", "l", "\x7b", "get", "a", "/", "[", "int", "i", "]", "\x7b", "\x7d", "\x7d"] := by
    decide +kernel
  obtain ⟨file, hfile, htokens⟩ := Option.bind_eq_some_iff.1 hcheck
  obtain ⟨tokens, htok, hunchecked⟩ := Option.map_eq_some_iff.1 htokens
  have hparse := eq_ok_of_toOption hfile
  have htok := eq_ok_of_toOption htok
  exact ⟨text, file, tokens, rfl, hparse, htok, hunchecked, parse_balanced_iff hparse htok⟩

/-- A closing parenthesis that closes nothing gets past the attach points of a service. -/
theorem SourceFile.parse_unbalanced : ∃ file tokens,
    SourceFile.parse "m.bal" "service on a ) \x7b\x7d".toList = .ok file ∧
    tokenize "service on a ) \x7b\x7d".toList = .ok tokens ∧ ¬ Balanced tokens := by
  have htok : tokenize "service on a ) \x7b\x7d".toList = .ok
      [⟨.ident, 0, "service"⟩, ⟨.ident, 8, "on"⟩, ⟨.ident, 11, "a"⟩, ⟨.punct, 13, ")"⟩, ⟨.punct, 15, "\x7b"⟩,
        ⟨.punct, 16, "\x7d"⟩] :=
    eq_ok_of_toOption (by decide +kernel)
  have hok : (SourceFile.parse "m.bal" "service on a ) \x7b\x7d".toList).toOption.isSome = true := by
    decide +kernel
  obtain ⟨file, hfile⟩ := Option.isSome_iff_exists.1 hok
  exact ⟨file, _, eq_ok_of_toOption hfile, htok, by decide⟩

end ServiceLint
