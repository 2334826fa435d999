import ServiceLint.Source.Parse.Member
import ServiceLint.Proofs.Source.Parse.Steps

/-!
# What reading a member reads

The parts of a function and of a field, token by token (`FunctionParts`, `field_reads`), and from them
what a member reads (`member_reads`): it ends with its own last token, so nothing after it matters.
`members_reads` is the loop: members that were read before stay, whatever members follow.
-/
namespace ServiceLint.Parse

/-! ## Parameters -/

theorem paramTokens_reads {stack : List Delimiter} {tokens part rest : List Token} {stop : Token}
    (h : paramTokens stack tokens = .ok (part, stop, rest)) :
    tokens = part ++ stop :: rest ∧ (stop.isPunct ")" || stop.isPunct ",") = true ∧
      ∀ g rest', paramTokens stack (part.map (Token.move g) ++ stop.move g :: rest') =
        .ok (part.map (Token.move g), stop.move g, rest') := by
  fun_induction paramTokens stack tokens generalizing part with
  | case1 => cases h
  | case2 stack t rest hs =>
    cases h
    simp only [Bool.and_eq_true] at hs
    exact ⟨rfl, hs.2, fun g rest' => by simp [paramTokens, hs]⟩
  | case3 => cases h
  | case4 => cases h
  | case5 stack t rest hs stack' hn part stop rest' hrec ih =>
    cases h
    obtain ⟨rfl, hstop, hpart⟩ := ih hrec
    refine ⟨rfl, hstop, fun g rest' => ?_⟩
    simp only [List.map_cons, List.cons_append, paramTokens, Token.move_isPunct, hs, Bool.false_eq_true,
      if_false, nest_move hn, hpart]

/-- The tokens of a parameter up to its default value. -/
theorem takeWhile_move (g : Nat → Nat) (s : String) (ts : List Token) :
    (ts.map (Token.move g)).takeWhile (!·.isPunct s) =
      (ts.takeWhile (!·.isPunct s)).map (Token.move g) := by
  rw [List.takeWhile_map]
  rfl

/-- What a parameter is made of: its type, its name and perhaps a default value. -/
theorem param?_eq_ok {text : List Char} {part : List Token} {p : Option Param}
    (h : param? text part = .ok p) :
    part = [] ∧ p = none ∨
    ∃ first last name typeLast front, part.head? = some first ∧ part.getLast? = some last ∧
      part.takeWhile (!·.isPunct "=") = front ++ [typeLast, name] ∧
      name.isName = true ∧ (typeLast.text == ":") = false ∧
      p = some {
        typeText := Token.slice text first typeLast
        name := name.text
        span := ⟨first.start, last.stop⟩
        hasDefault := (part.takeWhile (!·.isPunct "=")).length < part.length } := by
  cases part with
  | nil => cases h; exact Or.inl ⟨rfl, rfl⟩
  | cons first more =>
    have hlast : (first :: more).getLast? = some ((first :: more).getLast (by simp)) :=
      List.getLast?_eq_some_getLast _
    simp only [param?] at h
    split at h
    · cases h
    · cases h
    · next name typeLast front hrev =>
      split at h
      · cases h
      · next hname =>
        cases h
        simp only [Bool.or_eq_true, Bool.not_eq_true', not_or, Bool.not_eq_false, Bool.not_eq_true]
          at hname
        rw [List.reverse_eq_iff] at hrev
        refine Or.inr ⟨first, _, name, typeLast, front.reverse, rfl, hlast, by simpa using hrev,
          hname.1, hname.2, ?_⟩
        rw [hlast]
        rfl

/-- A parameter whose tokens are moved is the moved parameter. -/
theorem param?_move {g : Nat → Nat} {text text' : List Char} {part : List Token} {p : Option Param}
    (hm : Moves g text text' part) (h : param? text part = .ok p) :
    param? text' (part.map (Token.move g)) = .ok (p.map (Param.map g)) := by
  rcases param?_eq_ok h with ⟨rfl, rfl⟩ | ⟨first, last, name, typeLast, front, hf, hl, htw, hn, ht, rfl⟩
  · rfl
  · obtain ⟨more, rfl⟩ := List.head?_eq_some_iff.1 hf
    have hmem : typeLast ∈ first :: more :=
      List.takeWhile_subset _ (htw ▸ by simp : typeLast ∈ (first :: more).takeWhile (!·.isPunct "="))
    have hstop : (last.move g).stop = g last.stop := hm.stop last (List.mem_of_getLast? hl)
    have htw' := takeWhile_move g "=" (first :: more)
    have hl' : ((first :: more).map (Token.move g)).getLast? = some (last.move g) := by
      rw [List.getLast?_map, hl]
      rfl
    simp only [List.map_cons] at htw' hl'
    simp only [List.map_cons, param?, hl', htw', htw, List.map_append, List.map_nil,
      List.reverse_append, List.reverse_cons, List.reverse_nil, List.nil_append, List.cons_append,
      Token.move_isName, hn, Token.move_text, ht, Bool.not_true, Bool.or_self, Bool.false_eq_true,
      if_false, hm.slice first List.mem_cons_self typeLast hmem, Option.getD_some, hstop]
    simp [Param.map, Span.map]

/-- The loop as a chain of steps, without its proof of progress. The equations of the other loops are stated in
the same way. -/
theorem paramsTail_eq (text : List Char) (ts : List Token) :
    paramsTail text ts = paramTokens [] ts >>= fun r => param? text r.1 >>= fun p =>
      if r.2.1.isPunct ")" then pure (p.toList, r.2)
      else match p with
        | none => throw (.unexpected .param "," (some r.2.1.start))
        | some p => paramsTail text r.2.2 >>= fun q => pure (p :: q.1, q.2) := by
  rw [paramsTail]
  split
  · next he => simp only [he, bind, Except.bind]
  · next part stop rest he =>
    simp only [he, bind, Except.bind]
    cases param? text part with
    | error f => rfl
    | ok p =>
      cases p with
      | none => rfl
      | some p => cases paramsTail text rest <;> rfl

theorem paramsTail_last {text : List Char} {tokens part rest : List Token} {stop : Token}
    {p : Option Param} (h : paramTokens [] tokens = .ok (part, stop, rest))
    (hp : param? text part = .ok p) (hstop : stop.isPunct ")" = true) :
    paramsTail text tokens = .ok (p.toList, stop, rest) := by
  rw [paramsTail_eq, h]
  simp only [bind, Except.bind, hp, hstop, if_true]
  rfl

theorem paramsTail_more {text : List Char} {tokens part rest : List Token} {stop : Token} {p : Param}
    (h : paramTokens [] tokens = .ok (part, stop, rest)) (hp : param? text part = .ok (some p))
    (hstop : stop.isPunct ")" = false) :
    paramsTail text tokens =
      (paramsTail text rest).map fun (ps, close, rest') => (p :: ps, close, rest') := by
  rw [paramsTail_eq, h]
  simp only [bind, Except.bind, hp, hstop, Bool.false_eq_true, if_false]
  cases paramsTail text rest <;> rfl

theorem paramsTail_reads {text : List Char} {tokens rest : List Token} {ps : List Param}
    {close : Token} (h : paramsTail text tokens = .ok (ps, close, rest)) :
    ∃ inner, tokens = inner ++ close :: rest ∧ close.isPunct ")" = true ∧
      ∀ g text' rest', Moves g text text' inner →
        paramsTail text' (inner.map (Token.move g) ++ close.move g :: rest') =
          .ok (ps.map (Param.map g), close.move g, rest') := by
  fun_induction paramsTail text tokens generalizing ps with
  | case1 => cases h
  | case2 => cases h
  | case3 tokens part stop rest hpart _ p hp hclose =>
    cases h
    obtain ⟨rfl, -, hread⟩ := paramTokens_reads hpart
    refine ⟨part, rfl, hclose, fun g text' rest' hm => ?_⟩
    rw [paramsTail_last (hread g rest') (param?_move hm hp) hclose]
    cases p <;> rfl
  | case4 => cases h
  | case5 => cases h
  | case6 tokens part stop rest hpart _ hcomma p ps close rest' hrec hp ih =>
    cases h
    obtain ⟨rfl, -, hread⟩ := paramTokens_reads hpart
    obtain ⟨inner, rfl, hclose, htail⟩ := ih hrec
    refine ⟨part ++ stop :: inner, by simp, hclose, fun g text' rest' hm => ?_⟩
    have hpart' : Moves g text text' part := hm.mono (by simp)
    have hinner : Moves g text text' inner :=
      hm.mono fun t ht => List.mem_append_right _ (List.mem_cons_of_mem _ ht)
    rw [List.map_append, List.map_cons, List.append_assoc, List.cons_append,
      paramsTail_more (hread g _) (param?_move hpart' hp) (by simpa using hcomma), htail _ _ _ hinner]
    rfl

/-! ## Functions -/

theorem nameTail_reads {quals : List String} {tokens path rest : List Token}
    (h : nameTail quals tokens = .ok (path, rest)) :
    tokens = path ++ rest ∧ ∀ g rest', rest'.head? = rest.head?.map (Token.move g) →
      nameTail quals (path.map (Token.move g) ++ rest') = .ok (path.map (Token.move g), rest') := by
  unfold nameTail at h
  split at h
  · next hq =>
    unfold resourcePath at h
    split at h
    · cases h
    · next hne =>
      cases h
      obtain ⟨paren, tail, hd⟩ := List.exists_cons_of_ne_nil hne
      refine ⟨?_, fun g rest' hr => ?_⟩
      · rw [List.takeWhile_append_dropWhile]
      · rw [hd] at hr
        obtain ⟨tail', rfl⟩ := List.head?_eq_some_iff.1 hr
        obtain ⟨htake, hdrop⟩ := cut_move (fun _ _ => rfl) hd g tail'
        rw [nameTail, if_pos hq, resourcePath, hdrop, htake]
  · next hq =>
    cases h
    exact ⟨rfl, fun g rest' _ => by rw [List.map_nil, List.nil_append, nameTail, if_neg hq]⟩

/-- A function ends with a semicolon, or with the delimiter that closes its body. -/
theorem functionEnd_reads {tokens rest : List Token} {last : Token}
    (h : functionEnd tokens = .ok (last, rest)) :
    ∃ body, tokens = body ++ last :: rest ∧
      (last.is ";" = true ∨ ∃ t ∈ body ++ [last], t.is "\x7b" = true ∧
        (t.opens? = some .brace → last.closes? = some .brace)) ∧
      ∀ g rest', functionEnd (body.map (Token.move g) ++ last.move g :: rest') =
        .ok (last.move g, rest') := by
  obtain ⟨r, h₁, h₂⟩ := bind_eq_ok.1 h
  obtain ⟨used, t, tail, rfl, rfl, hstop, hread⟩ := upTo_reads h₁
  have hused := fun g tail' => hread g tail' fun _ => rfl
  dsimp only at h₂
  by_cases hsemi : t.is ";" = true
  · rw [if_pos hsemi] at h₂
    cases h₂
    refine ⟨used, rfl, Or.inl hsemi, fun g rest' => ?_⟩
    simp [functionEnd, hused, hsemi, bind, Except.bind, pure, Except.pure]
  · rw [if_neg hsemi] at h₂
    simp only [Bool.or_eq_true, hsemi, Bool.false_eq_true, or_false] at hstop
    obtain ⟨body, hbody, hgroup⟩ := group_reads h₂
    -- the group starts with the same token, whatever follows it
    have hfirst : ∃ more, body ++ [last] = t :: more := by
      cases body with
      | nil => exact ⟨[], by rw [(List.cons.inj hbody).1]; rfl⟩
      | cons b body => exact ⟨body ++ [last], by rw [(List.cons.inj hbody).1]; rfl⟩
    obtain ⟨more, hmore⟩ := hfirst
    refine ⟨used ++ body, by rw [hbody, List.append_assoc], Or.inr ⟨t, ?_, hstop, fun ho => ?_⟩,
      fun g rest' => ?_⟩
    · rw [List.append_assoc, hmore]
      simp
    · exact group_opened ho h₂
    · have hg := hgroup g rest'
      have hmap : body.map (Token.move g) ++ last.move g :: rest' =
          t.move g :: (more.map (Token.move g) ++ rest') := by
        rw [← List.singleton_append, ← List.append_assoc, ← List.map_singleton, ← List.map_append, hmore]
        rfl
      rw [hmap] at hg
      rw [List.map_append, List.append_assoc, hmap]
      simp [functionEnd, hused, hsemi, bind, Except.bind, hg]

structure FunctionParts where
  keyword : Token
  name : Token
  /-- The rest of the path of a resource. -/
  path : List Token
  openParen : Token
  inner : List Token
  closeParen : Token
  /-- Everything between the parameter list and the last token. -/
  body : List Token
  last : Token

namespace FunctionParts

/-- All but the last token. -/
def front (p : FunctionParts) : List Token :=
  p.keyword :: p.name :: (p.path ++ p.openParen :: (p.inner ++ p.closeParen :: p.body))

def nameSpan (p : FunctionParts) : Span :=
  ⟨p.name.start, ((p.name :: p.path).getLast?.getD p.name).stop⟩

def paramsSpan (p : FunctionParts) : Span := ⟨p.openParen.start, p.closeParen.stop⟩

end FunctionParts

/-- The last of some moved tokens ends where the end of the last one is moved. -/
theorem stop_getLast_move {g : Nat → Nat} (t : Token) (ts : List Token)
    (h : ∀ u ∈ t :: ts, (u.move g).stop = g u.stop) :
    ((t.move g :: ts.map (Token.move g)).getLast?.getD (t.move g)).stop =
      g ((t :: ts).getLast?.getD t).stop := by
  obtain ⟨last, hl⟩ : ∃ last, (t :: ts).getLast? = some last :=
    ⟨_, List.getLast?_eq_some_getLast (by simp)⟩
  have hstop := h last (List.mem_of_getLast? hl)
  rw [← List.map_cons, List.getLast?_map, hl]
  exact hstop

theorem function_reads {text : List Char} {first : Token} {quals : List String}
    {tokens rest : List Token} {m : Member} (h : function text first quals tokens = .ok (m, rest)) :
    ∃ (p : FunctionParts) (ps : List Param),
      tokens = p.front ++ p.last :: rest ∧ p.keyword.is "function" = true ∧
      paramsTail text (p.inner ++ p.closeParen :: (p.body ++ p.last :: rest)) =
        .ok (ps, p.closeParen, p.body ++ p.last :: rest) ∧
      functionEnd (p.body ++ p.last :: rest) = .ok (p.last, rest) ∧
      m = ⟨⟨first.start, p.last.stop⟩, .method {
        qualifiers := quals
        name := " ".intercalate ((p.name :: p.path).map (·.text))
        nameSpan := p.nameSpan
        params := ps
        paramsSpan := p.paramsSpan }⟩ ∧
      ∀ g text' rest', Moves g text text' (p.front ++ [p.last]) →
        function text' (first.move g) quals (p.front.map (Token.move g) ++ p.last.move g :: rest') =
          .ok (m.map g, rest') := by
  obtain ⟨⟨keyword, r₁⟩, h₁, h⟩ := bind_eq_ok.1 h
  obtain ⟨⟨name, r₂⟩, h₂, h⟩ := bind_eq_ok.1 h
  obtain ⟨⟨path, r₃⟩, h₃, h⟩ := bind_eq_ok.1 h
  obtain ⟨⟨⟨ps, span⟩, r₄⟩, h₄, h⟩ := bind_eq_ok.1 h
  obtain ⟨⟨last, r₅⟩, h₅, h₆⟩ := bind_eq_ok.1 h
  cases h₆
  obtain ⟨rfl, hkeyword⟩ := expect_eq_ok.1 h₁
  obtain ⟨rfl, hname⟩ := expectName_eq_ok.1 h₂
  obtain ⟨rfl, hpath⟩ := nameTail_reads h₃
  obtain ⟨⟨openParen, r₆⟩, h₇, h₈⟩ := bind_eq_ok.1 h₄
  obtain ⟨⟨ps', close, r₇⟩, h₉, h₁₀⟩ := bind_eq_ok.1 h₈
  cases h₁₀
  obtain ⟨rfl, hopen⟩ := expect_eq_ok.1 h₇
  obtain ⟨inner, rfl, -, hinner⟩ := paramsTail_reads h₉
  obtain ⟨body, rfl, -, hbody⟩ := functionEnd_reads h₅
  let p : FunctionParts := ⟨keyword, name, path, openParen, inner, close, body, last⟩
  refine ⟨p, ps, by simp [p, FunctionParts.front], hkeyword, h₉, h₅, rfl, fun g text' rest' hm => ?_⟩
  have hin : Moves g text text' inner := hm.mono fun t ht => by simp [p, FunctionParts.front, ht]
  have hnames := stop_getLast_move name path fun t ht => hm.stop t (by
    simp only [p, FunctionParts.front, List.mem_cons] at ht ⊢
    rcases ht with rfl | ht <;> simp [*])
  have hclose : (close.move g).stop = g close.stop := hm.stop close (by simp [p, FunctionParts.front])
  have hlast : (last.move g).stop = g last.stop := hm.stop last (by simp [p])
  have htail := hinner g text' (body.map (Token.move g) ++ last.move g :: rest') hin
  have hp := hpath g (openParen.move g :: (inner.map (Token.move g) ++
    close.move g :: (body.map (Token.move g) ++ last.move g :: rest'))) rfl
  simp only [function, p, FunctionParts.front, List.map_cons, List.map_append, List.cons_append,
    List.append_assoc, expect, Token.move_is, hkeyword, if_true, expectName, Token.move_isName, hname, hp,
    params, hopen, htail, hbody, bind, Except.bind, pure, Except.pure]
  simp [Member.map, MemberBody.map, Method.map, Span.map, hclose, hlast, hnames, Function.comp_def]

/-! ## Fields -/

theorem fieldName_move (g : Nat → Nat) (ts : List Token) (last : Option Token) (depth : Nat) :
    fieldName (last.map (Token.move g)) depth (ts.map (Token.move g)) = fieldName last depth ts := by
  have hend : ∀ last : Option Token, ((last.map (Token.move g)).filter (·.isName)).map (·.text) =
      (last.filter (·.isName)).map (·.text) := by
    rintro (_ | last)
    · rfl
    · by_cases hn : last.isName <;> simp [Option.filter, hn]
  induction ts generalizing last depth with
  | nil => exact hend last
  | cons t ts ih =>
    simp only [List.map_cons, fieldName, Token.move_opens?, Token.move_closes?, Token.move_isPunct, hend,
      ← ih, Option.map_some]

theorem field_reads {first : Token} {tokens rest : List Token} {m : Member}
    (h : field first tokens = .ok (m, rest)) :
    ∃ body semi, tokens = body ++ semi :: rest ∧ semi.isPunct ";" = true ∧
      m = ⟨⟨first.start, semi.stop⟩, .field (fieldName none 0 body)⟩ ∧
      ∀ g rest', (semi.move g).stop = g semi.stop →
        field (first.move g) (body.map (Token.move g) ++ semi.move g :: rest') =
          .ok (m.map g, rest') := by
  obtain ⟨⟨semi, r⟩, h₁, h₂⟩ := bind_eq_ok.1 h
  obtain ⟨body, rfl, hsemi, hread⟩ := semicolon_reads h₁
  have hpassed : ∀ (body : List Token) semi rest',
      (passed (body ++ semi :: rest') rest').dropLast = body := by
    intro body semi rest'
    have := passed_append (body ++ [semi]) rest'
    rw [List.append_assoc, List.singleton_append] at this
    rw [this, List.dropLast_concat]
  cases h₂
  simp only [hpassed]
  refine ⟨body, semi, rfl, hsemi, rfl, fun g rest' hstop => ?_⟩
  have hname := fieldName_move g body none 0
  rw [Option.map_none] at hname
  simp [field, hread, hpassed, bind, Except.bind, pure, Except.pure, Member.map, MemberBody.map,
    Span.map, hstop, hname]

/-! ## Members -/

/-- Qualifiers are read the same way whatever follows them, as long as a qualifier that is the name of a
field is still followed by the same token. -/
theorem qualifiers_reads {tokens found more : List Token} {t : Token}
    (h : qualifiers tokens = (found, t :: more)) :
    tokens = found ++ t :: more ∧ ∀ g more',
      (memberQualifiers.any t.is = true → more'.head? = more.head?.map (Token.move g)) →
        qualifiers (found.map (Token.move g) ++ t.move g :: more') =
          (found.map (Token.move g), t.move g :: more') := by
  fun_induction qualifiers tokens generalizing found with
  | case1 => cases h
  | case2 u rest hq found' rest' hrec ih =>
    cases h
    obtain ⟨rfl, hread⟩ := ih hrec
    refine ⟨rfl, fun g more' hmore => ?_⟩
    simp only [Bool.and_eq_true, Bool.not_eq_true'] at hq
    have heq : startsWith "=" (found'.map (Token.move g) ++ t.move g :: more') = false := by
      rw [← hq.2]
      exact startsWith_move (g := g) (by cases found' <;> simp)
    have hany : memberQualifiers.any (u.move g).is = true := hq.1
    simp [qualifiers, hany, heq, hread g more' hmore]
  | case3 u rest hq =>
    cases h
    refine ⟨rfl, fun g more' hmore => ?_⟩
    have hany : memberQualifiers.any (t.move g).is = memberQualifiers.any t.is := rfl
    by_cases hword : memberQualifiers.any t.is = true
    · have heq : startsWith "=" more' = startsWith "=" more := startsWith_move (hmore hword)
      rw [← hany, ← heq] at hq
      simp [qualifiers, hq]
    · simp [qualifiers, hany, hword]

/-- A keyword or punctuator is only one word. -/
theorem is_unique {t : Token} {s s' : String} (h : t.is s = true) (h' : t.is s' = true) : s = s' := by
  simp only [Token.is, Bool.and_eq_true, beq_iff_eq] at h h'
  exact h.2.symm.trans h'.2

theorem not_memberQualifier {t : Token} {s : String} (h : t.is s = true) (hs : s ∉ memberQualifiers) :
    memberQualifiers.any t.is = false := by
  rw [List.any_eq_false]
  intro s' hs' h'
  exact hs (is_unique h h' ▸ hs')

theorem is_of_isPunct {t : Token} {s : String} (h : t.isPunct s = true) : t.is s = true := by
  simp only [Token.isPunct, Bool.and_eq_true] at h
  simp [Token.is, h]

/-- The tokens of a member: its annotations, its qualifiers and a function or a field. -/
theorem member_cases {text : List Char} {tokens rest : List Token} {m : Member}
    (h : member text tokens = .ok (m, rest)) :
    ∃ notes quals t more first, annotations tokens = .ok (quals ++ t :: more) ∧
      tokens = notes ++ (quals ++ t :: more) ∧ (quals ++ t :: more).head? = some first ∧
      qualifiers (quals ++ t :: more) = (quals, t :: more) ∧
      (t.is "function" = true ∧ function text first (quals.map (·.text)) (t :: more) = .ok (m, rest) ∨
        t.is "function" = false ∧ field first (t :: more) = .ok (m, rest)) := by
  obtain ⟨r, h₁, h₂⟩ := bind_eq_ok.1 h
  obtain ⟨notes, rfl, -, -⟩ := annotations_reads h₁
  split at h₂
  · cases h₂
  · next first tail =>
    obtain ⟨quals, r, hq⟩ : ∃ quals r, qualifiers (first :: tail) = (quals, r) := ⟨_, _, rfl⟩
    dsimp only at h₂
    rw [hq] at h₂
    cases r with
    | nil =>
      exfalso
      simp only [startsWith, Bool.false_eq_true, if_false] at h₂
      obtain ⟨_, h₃, _⟩ := bind_eq_ok.1 h₂
      cases h₃
    | cons t more =>
      obtain ⟨hsplit, -⟩ := qualifiers_reads hq
      refine ⟨notes, quals, t, more, first, hsplit ▸ h₁, by rw [hsplit], by rw [← hsplit]; rfl,
        hsplit ▸ hq, ?_⟩
      split at h₂
      · next hf => exact Or.inl ⟨hf, h₂⟩
      · next hf => exact Or.inr ⟨by simpa using hf, h₂⟩

/-- How a member is read after its annotations and qualifiers. -/
theorem member_eq {text : List Char} {tokens rest quals found : List Token} {first : Token}
    (hnotes : annotations tokens = .ok rest) (hfirst : rest.head? = some first)
    (hquals : qualifiers rest = (quals, found)) :
    member text tokens = if startsWith "function" found then
        function text first (quals.map (·.text)) found
      else field first found := by
  obtain ⟨tail, rfl⟩ := List.head?_eq_some_iff.1 hfirst
  simp only [member, hnotes, bind, Except.bind, hquals]

/-- A member whose first tokens are moved is read as a function or a field, as it was before. Where what looks like
a qualifier is the name of a field, the token after it is moved too. -/
theorem member_move {notes quals more : List Token} {t first : Token}
    (hnotes : annotations (notes ++ (quals ++ t :: more)) = .ok (quals ++ t :: more))
    (hfirst : (quals ++ t :: more).head? = some first)
    (hquals : qualifiers (quals ++ t :: more) = (quals, t :: more)) (g : Nat → Nat) (tail' : List Token)
    (hhead : memberQualifiers.any t.is = true → tail'.head? = more.head?.map (Token.move g)) (text : List Char) :
    member text ((notes ++ (quals ++ [t])).map (Token.move g) ++ tail') = if t.is "function" then
        function text (first.move g) (quals.map (·.text)) (t.move g :: tail')
      else field (first.move g) (t.move g :: tail') := by
  obtain ⟨notes', hsplit, -, hnread⟩ := annotations_reads hnotes
  obtain rfl : notes = notes' := List.append_cancel_right hsplit
  have hq := (qualifiers_reads hquals).2 g tail' hhead
  have hmid : (quals.map (Token.move g) ++ t.move g :: tail').head? =
      (quals ++ t :: more).head?.map (Token.move g) := by
    cases quals <;> simp
  have hmap : (notes ++ (quals ++ [t])).map (Token.move g) ++ tail' =
      notes.map (Token.move g) ++ (quals.map (Token.move g) ++ t.move g :: tail') := by simp
  rw [hmap, member_eq (hnread g _ hmid) (by rw [hmid, hfirst]; rfl) hq]
  simp [Function.comp_def]

/-- A member is read the same way wherever its tokens are moved, whatever follows them. -/
theorem member_reads {text : List Char} {tokens rest : List Token} {m : Member}
    (h : member text tokens = .ok (m, rest)) :
    ∃ used, tokens = used ++ rest ∧ used ≠ [] ∧ ∀ g text' rest', Moves g text text' used →
      member text' (used.map (Token.move g) ++ rest') = .ok (m.map g, rest') := by
  obtain ⟨notes, quals, t, more, first, hnotes, rfl, hfirst, hquals, hbody⟩ := member_cases h
  rcases hbody with ⟨hf, hbody⟩ | ⟨hf, hbody⟩
  · obtain ⟨p, ps, htokens, hkey, -, -, -, hread⟩ := function_reads hbody
    obtain ⟨rfl, rfl⟩ := List.cons.inj htokens
    refine ⟨notes ++ (quals ++ (p.front ++ [p.last])), by simp [FunctionParts.front], by simp,
      fun g text' rest' hm => ?_⟩
    have hword := not_memberQualifier hkey (by decide)
    have hmove := member_move hnotes hfirst hquals g
      ((p.front.map (Token.move g)).tail ++ p.last.move g :: rest') (by simp [hword]) text'
    rw [if_pos hf] at hmove
    have hfun := hread g text' rest' (hm.mono (by simp))
    simpa [FunctionParts.front] using hmove.trans hfun
  · obtain ⟨body, semi, htokens, hsemi, -, hread⟩ := field_reads hbody
    refine ⟨notes ++ (quals ++ (body ++ [semi])), by simp [htokens], by simp,
      fun g text' rest' hm => ?_⟩
    have hfield := hread g rest' (hm.stop semi (by simp))
    cases body with
    | nil =>
      obtain ⟨rfl, rfl⟩ := List.cons.inj htokens
      have hword := not_memberQualifier (is_of_isPunct hsemi) (by decide)
      have hmove := member_move hnotes hfirst hquals g rest' (by simp [hword]) text'
      rw [if_neg (by simp [hf])] at hmove
      simpa using hmove.trans hfield
    | cons b body =>
      obtain ⟨rfl, rfl⟩ := List.cons.inj htokens
      have hmove := member_move hnotes hfirst hquals g (body.map (Token.move g) ++ semi.move g :: rest')
        (fun _ => by cases body <;> simp) text'
      rw [if_neg (by simp [hf])] at hmove
      simpa using hmove.trans hfield

theorem members_eq (text : List Char) (t : Token) (tail : List Token) :
    members text (t :: tail) = if t.is "\x7d" then pure ([], t, tail)
      else member text (t :: tail) >>= fun r => members text r.2 >>= fun q => pure (r.1 :: q.1, q.2) := by
  rw [members]
  split
  · rfl
  · split
    · next he => simp only [he, bind, Except.bind]
    · next m rest he =>
      simp only [he, bind, Except.bind]
      cases members text rest <;> rfl

theorem members_step {text : List Char} {t : Token} {tail rest : List Token} {m : Member}
    (hclose : t.is "\x7d" = false) (h : member text (t :: tail) = .ok (m, rest)) :
    members text (t :: tail) =
      (members text rest).map fun (ms, close, rest') => (m :: ms, close, rest') := by
  rw [members_eq, if_neg (by simp [hclose]), h]
  simp only [bind, Except.bind]
  cases members text rest <;> rfl

/-- Members that were read stay members, whatever members come after them. -/
theorem members_reads {text : List Char} {tokens rest : List Token} {ms : List Member} {close : Token}
    (h : members text tokens = .ok (ms, close, rest)) :
    ∃ used, tokens = used ++ close :: rest ∧ close.is "\x7d" = true ∧
      ∀ g text' tail' ms' close' rest', Moves g text text' used →
        members text' tail' = .ok (ms', close', rest') →
        members text' (used.map (Token.move g) ++ tail') =
          .ok (ms.map (Member.map g) ++ ms', close', rest') := by
  fun_induction members text tokens generalizing ms with
  | case1 => cases h
  | case2 t tail hclose =>
    cases h
    exact ⟨[], rfl, hclose, fun g text' tail' ms' close' rest' _ htail => htail⟩
  | case3 => cases h
  | case4 => cases h
  | case5 t tail hclose m r hmember _ ms close rest' hrec ih =>
    cases h
    obtain ⟨used, rfl, hc, hread⟩ := ih hrec
    obtain ⟨one, hone, hne, hmread⟩ := member_reads hmember
    obtain ⟨u, one, rfl⟩ := List.exists_cons_of_ne_nil hne
    obtain ⟨rfl, rfl⟩ := List.cons.inj hone
    refine ⟨t :: one ++ used, by simp, hc, fun g text' tail' ms' close' rest' hm htail => ?_⟩
    have hnext := hread g text' tail' ms' close' rest' (hm.mono (by simp)) htail
    have hfirst := hmread g text' (used.map (Token.move g) ++ tail') (hm.mono (by simp))
    rw [List.map_cons, List.cons_append] at hfirst
    rw [List.map_append, List.append_assoc, List.map_cons, List.cons_append,
      members_step (by simpa using hclose) hfirst, hnext]
    rfl

end ServiceLint.Parse
