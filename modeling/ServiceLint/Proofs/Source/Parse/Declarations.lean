import ServiceLint.Source.Parse.Module
import ServiceLint.Proofs.Source.Parse.Members

/-!
# What reading a declaration reads

For each kind of declaration, the tokens that are read (`importDecl_reads`, `listenerDecl_reads`,
`ServiceParts`). A service can be read with further members before its closing brace
(`serviceDecl_reads`), so that a member can be put there. `declarations_split` divides the reading of a
module at one of its declarations, and `declarations_move` moves the reading of a module as a whole.
-/
namespace ServiceLint.Parse

/-! ## Imports -/

theorem pathTail_stop {tokens : List Token} (h : startsWith "." tokens = false) :
    pathTail tokens = .ok ([], tokens) := by
  rcases tokens with _ | ⟨a, _ | ⟨b, tokens⟩⟩
  · rfl
  · simpa [pathTail] using h
  · rw [startsWith_cons] at h
    simp [pathTail, h]

theorem pathTail_reads {tokens rest : List Token} {names : List String}
    (h : pathTail tokens = .ok (names, rest)) :
    ∃ used, tokens = used ++ rest ∧ (∀ n ∈ names, ∃ t ∈ used, t.isName = true ∧ t.text = n) ∧
      ∀ g rest', rest'.head? = rest.head?.map (Token.move g) →
        pathTail (used.map (Token.move g) ++ rest') = .ok (names, rest') := by
  -- the path ends before a token that is no point
  have hend : ∀ rest : List Token, startsWith "." rest = false → ∀ g (rest' : List Token),
      rest'.head? = rest.head?.map (Token.move g) → pathTail rest' = .ok ([], rest') := by
    intro rest hdot g rest' hr
    exact pathTail_stop ((startsWith_move hr).trans hdot)
  fun_induction pathTail tokens generalizing names with
  | case1 => cases h
  | case2 dot name rest₁ hdot hname names' rest₂ hrec ih =>
    cases h
    obtain ⟨used, rfl, hnames, hread⟩ := ih hrec
    refine ⟨dot :: name :: used, rfl, ?_, fun g rest' hr => ?_⟩
    · intro n hn
      rcases List.mem_cons.1 hn with rfl | hn
      · exact ⟨name, by simp, hname, rfl⟩
      · obtain ⟨t, ht, hname⟩ := hnames n hn
        exact ⟨t, by simp [ht], hname⟩
    · simp [pathTail, hdot, hname, hread g rest' hr]
  | case3 => cases h
  | case4 dot name rest₁ hdot =>
    cases h
    exact ⟨[], rfl, by simp, hend _ (by simpa using hdot)⟩
  | case5 => cases h
  | case6 dot hdot =>
    cases h
    exact ⟨[], rfl, by simp, hend _ (by simpa using hdot)⟩
  | case7 =>
    cases h
    exact ⟨[], rfl, by simp, hend _ rfl⟩

theorem orgPart_reads {first : Token} {tokens rest : List Token} {p : Option String × String}
    (hfirst : first.isName = true) (h : orgPart first tokens = .ok (p, rest)) :
    ∃ used, tokens = used ++ rest ∧ (∃ t ∈ first :: used, t.isName = true ∧ t.text = p.2) ∧
      ∀ g rest', rest'.head? = rest.head?.map (Token.move g) →
        orgPart (first.move g) (used.map (Token.move g) ++ rest') = .ok (p, rest') := by
  unfold orgPart at h
  split at h
  · next hslash =>
    obtain ⟨⟨name, r⟩, h₁, h₂⟩ := bind_eq_ok.1 h
    cases h₂
    obtain ⟨slash, rfl, hs, hname⟩ := expectName_tail_eq_ok hslash h₁
    refine ⟨[slash, name], rfl, ⟨name, by simp, hname, rfl⟩, fun g rest' _ => ?_⟩
    simp [orgPart, hs, expectName, hname, bind, Except.bind, pure, Except.pure]
  · next hslash =>
    cases h
    refine ⟨[], rfl, ⟨first, by simp, hfirst, rfl⟩, fun g rest' hr => ?_⟩
    rw [List.map_nil, List.nil_append, orgPart, startsWith_move hr, if_neg hslash]
    rfl

theorem aliasPart_reads {tokens rest : List Token} {a : Option String}
    (h : aliasPart tokens = .ok (a, rest)) :
    ∃ used, tokens = used ++ rest ∧
      (∀ n, a = some n → ∃ t ∈ used, t.isName = true ∧
        String.ofList (t.text.toList.dropWhile (· == '\x27')) = n) ∧
      ∀ g rest', rest'.head? = rest.head?.map (Token.move g) →
        aliasPart (used.map (Token.move g) ++ rest') = .ok (a, rest') := by
  unfold aliasPart at h
  split at h
  · next has =>
    obtain ⟨⟨name, r⟩, h₁, h₂⟩ := bind_eq_ok.1 h
    cases h₂
    obtain ⟨as_, rfl, hs, hname⟩ := expectName_tail_eq_ok has h₁
    refine ⟨[as_, name], rfl, ?_, fun g rest' _ => ?_⟩
    · rintro n ⟨rfl⟩
      exact ⟨name, by simp, hname, rfl⟩
    · simp [aliasPart, hs, expectName, hname, bind, Except.bind, pure, Except.pure]
  · next has =>
    cases h
    refine ⟨[], rfl, by simp, fun g rest' hr => ?_⟩
    rw [List.map_nil, List.nil_append, aliasPart, startsWith_move hr, if_neg has]

/-- The name under which an import is known is written in its tokens. -/
def NamedIn (used : List Token) (d : Import) : Prop :=
  (d.path ≠ [] ∧ ∀ n ∈ d.path, ∃ t ∈ used, t.isName = true ∧ t.text = n) ∧
    ∀ n, d.alias? = some n → ∃ t ∈ used, t.isName = true ∧
      String.ofList (t.text.toList.dropWhile (· == '\x27')) = n

theorem importDecl_reads {tokens rest : List Token} {d : Import}
    (h : importDecl tokens = .ok (d, rest)) :
    ∃ keyword body semi, tokens = keyword :: (body ++ semi :: rest) ∧ keyword.is "import" = true ∧
      d.span = ⟨keyword.start, semi.stop⟩ ∧ NamedIn body d ∧
      ∀ g rest', (semi.move g).stop = g semi.stop →
        importDecl (keyword.move g :: (body.map (Token.move g) ++ semi.move g :: rest')) =
          .ok (d.map g, rest') := by
  obtain ⟨⟨keyword, r₁⟩, h₁, h⟩ := bind_eq_ok.1 h
  obtain ⟨⟨first, r₂⟩, h₂, h⟩ := bind_eq_ok.1 h
  obtain ⟨⟨⟨org, head⟩, r₃⟩, h₃, h⟩ := bind_eq_ok.1 h
  obtain ⟨⟨path, r₄⟩, h₄, h⟩ := bind_eq_ok.1 h
  obtain ⟨⟨alias?, r₅⟩, h₅, h⟩ := bind_eq_ok.1 h
  obtain ⟨⟨semi, r₆⟩, h₆, h⟩ := bind_eq_ok.1 h
  cases h
  obtain ⟨rfl, hkey⟩ := expect_eq_ok.1 h₁
  obtain ⟨rfl, hfirst⟩ := expectName_eq_ok.1 h₂
  obtain ⟨orgUsed, rfl, ⟨headToken, hmem, hname, hhead⟩, horg⟩ := orgPart_reads hfirst h₃
  obtain ⟨pathUsed, rfl, hpathNames, hpath⟩ := pathTail_reads h₄
  obtain ⟨aliasUsed, rfl, haliasName, halias⟩ := aliasPart_reads h₅
  obtain ⟨rfl, hsemi⟩ := expect_eq_ok.1 h₆
  refine ⟨keyword, first :: (orgUsed ++ (pathUsed ++ aliasUsed)), semi, by simp, hkey, rfl,
    ⟨⟨by simp, ?_⟩, ?_⟩, fun g rest' hstop => ?_⟩
  · intro n hn
    rcases List.mem_cons.1 hn with rfl | hn
    · refine ⟨headToken, ?_, hname, hhead⟩
      rcases List.mem_cons.1 hmem with rfl | hmem <;> simp [*]
    · obtain ⟨t, ht, hname⟩ := hpathNames n hn
      exact ⟨t, by simp [ht], hname⟩
  · intro n hn
    obtain ⟨t, ht, hname⟩ := haliasName n hn
    exact ⟨t, by simp [ht], hname⟩
  · have hend : (semi.move g :: rest').head? = (semi :: rest).head?.map (Token.move g) := rfl
    have h₅' := halias g _ hend
    have h₄' := hpath g _ (head?_move_append aliasUsed hend)
    have h₃' := horg g _ (head?_move_append pathUsed (head?_move_append aliasUsed hend))
    simp [importDecl, expect, hkey, expectName, hfirst, h₃', h₄', h₅', hsemi, bind, Except.bind, pure,
      Except.pure, Import.map, Span.map, hstop]

/-! ## Listeners -/

theorem listenerHead_reads {tokens rest : List Token} {p : Token × Option TypeRef}
    (h : listenerHead tokens = .ok (p, rest)) :
    ∃ used equals tail, tokens = used ++ equals :: tail ∧ rest = equals :: tail ∧
      ∀ g tail', listenerHead (used.map (Token.move g) ++ equals.move g :: tail') =
        .ok ((p.1.move g, p.2), equals.move g :: tail') := by
  unfold listenerHead at h
  split at h
  · cases h
  · next equals tail hd =>
    split at h
    · cases h
    · next name type hrev =>
      cases h
      refine ⟨_, equals, tail, by rw [← hd, List.takeWhile_append_dropWhile], rfl, fun g tail' => ?_⟩
      obtain ⟨htake, hdrop⟩ := cut_move (fun _ _ => rfl) hd g tail'
      simp only [listenerHead, hdrop, htake, ← List.map_reverse, hrev, List.map_cons, typeRef?_move]

theorem initialType_suffix (tokens : List Token) : (initialType tokens).2 <:+ tokens := by
  unfold initialType
  split
  · exact (leadingType_suffix _).trans (List.tail_suffix _)
  · exact List.suffix_refl _

theorem initialType_reads {s : Token} (hs : s.isPunct ";" = true) (g : Nat → Nat)
    (used rest rest' : List Token) :
    ∃ body, (initialType (used ++ s :: rest)).2 = body ++ s :: rest ∧
      initialType (used.map (Token.move g) ++ s.move g :: rest') =
        ((initialType (used ++ s :: rest)).1, body.map (Token.move g) ++ s.move g :: rest') := by
  have hnew : s.is "new" = false := by
    rw [Bool.eq_false_iff]
    intro h
    exact absurd (is_unique h (is_of_isPunct hs)) (by decide)
  cases used with
  | nil => exact ⟨[], by simp [initialType, hnew]⟩
  | cons a used =>
    by_cases ha : a.is "new" = true
    · obtain ⟨body, hb, hread⟩ := leadingType_append hs g used rest rest'
      exact ⟨body, by simpa [initialType, ha] using hb, by simpa [initialType, ha] using hread⟩
    · exact ⟨a :: used, by simp [initialType, ha]⟩

theorem listenerDecl_reads {start : Nat} {tokens rest : List Token} {d : Listener}
    (h : listenerDecl start tokens = .ok (d, rest)) :
    ∃ keyword body semi, tokens = keyword :: (body ++ semi :: rest) ∧ keyword.is "listener" = true ∧
      d.span = ⟨start, semi.stop⟩ ∧
      ∀ g rest', (semi.move g).stop = g semi.stop →
        listenerDecl (g start) (keyword.move g :: (body.map (Token.move g) ++ semi.move g :: rest')) =
          .ok (d.map g, rest') := by
  obtain ⟨⟨keyword, r₁⟩, h₁, h⟩ := bind_eq_ok.1 h
  obtain ⟨⟨⟨name, declared⟩, r₂⟩, h₂, h⟩ := bind_eq_ok.1 h
  obtain ⟨⟨equals, r₃⟩, h₃, h⟩ := bind_eq_ok.1 h
  obtain ⟨⟨semi, r₄⟩, h₄, h⟩ := bind_eq_ok.1 h
  cases h
  obtain ⟨rfl, hkey⟩ := expect_eq_ok.1 h₁
  obtain ⟨head, eq', tail, rfl, rfl, hhead⟩ := listenerHead_reads h₂
  obtain ⟨heq, hequals⟩ := expect_eq_ok.1 h₃
  obtain ⟨rfl, rfl⟩ := List.cons.inj heq
  obtain ⟨body, hbody, hsemi, hread⟩ := semicolon_reads h₄
  obtain ⟨pre, hpre⟩ := initialType_suffix tail
  obtain rfl : tail = (pre ++ body) ++ semi :: rest := by rw [← hpre, hbody, List.append_assoc]
  refine ⟨keyword, head ++ eq' :: (pre ++ body), semi, by simp, hkey, rfl, fun g rest' hstop => ?_⟩
  obtain ⟨body', hb', hinit⟩ := initialType_reads hsemi g (pre ++ body) rest rest'
  obtain rfl : body = body' := List.append_cancel_right (hbody.symm.trans hb')
  simp only [listenerDecl, List.cons_append, List.append_assoc, List.map_append, List.map_cons] at hinit ⊢
  simp [expect, hkey, hhead, hequals, hinit, hread, bind, Except.bind, pure, Except.pure,
    Listener.map, Span.map, hstop]

/-! ## Services -/

theorem serviceHead_reads {tokens type rest : List Token} (h : serviceHead tokens = .ok (type, rest)) :
    ∃ on tail, tokens = type ++ on :: tail ∧ rest = on :: tail ∧
      ∀ g tail', serviceHead (type.map (Token.move g) ++ on.move g :: tail') =
        .ok (type.map (Token.move g), on.move g :: tail') := by
  unfold serviceHead at h
  split at h
  · cases h
  · next on tail hd =>
    split at h
    · next hon =>
      cases h
      refine ⟨on, tail, by rw [← hd, List.takeWhile_append_dropWhile], rfl, fun g tail' => ?_⟩
      obtain ⟨htake, hdrop⟩ := cut_move (fun _ _ => rfl) hd g tail'
      simp only [serviceHead, hdrop, htake, Token.move_is, hon, if_true]
    · cases h

/-- An attach point whose tokens are moved is the moved attach point. -/
theorem classify_move {g : Nat → Nat} {first : Token} {more : List Token}
    (h : ∀ t ∈ first :: more, (t.move g).stop = g t.stop) :
    classify (first.move g) (more.map (Token.move g)) = (classify first more).map g := by
  have hstop : ((more.map (Token.move g)).getLast?.getD (first.move g)).stop =
      g (more.getLast?.getD first).stop := by
    have := stop_getLast_move first more h
    simpa [List.getLast?_cons] using this
  have htake : typeRef? ((more.map (Token.move g)).takeWhile (·.text != "(")) =
      typeRef? (more.takeWhile (·.text != "(")) := by
    rw [List.takeWhile_map, typeRef?_move]
    rfl
  simp only [classify, List.isEmpty_map, Token.move_kind, Token.move_text, Token.move_start, hstop, htake]
  split
  · rfl
  · split <;> rfl

theorem attachPoint_reads {tokens rest : List Token} {a : AttachPoint}
    (h : attachPoint tokens = .ok (a, rest)) :
    ∃ first more t tail, tokens = first :: (more ++ t :: tail) ∧ rest = t :: tail ∧
      (t.is "," || t.is "\x7b") = true ∧ a = classify first more ∧
      ∀ g tail', (∀ t ∈ first :: more, (t.move g).stop = g t.stop) →
        attachPoint ((first :: more).map (Token.move g) ++ t.move g :: tail') =
          .ok (a.map g, t.move g :: tail') := by
  obtain ⟨r, h₁, h₂⟩ := bind_eq_ok.1 h
  obtain ⟨used, t, tail, rfl, rfl, hstop, hread⟩ := upTo_reads h₁
  rw [passed_append] at h₂
  cases used with
  | nil => cases h₂
  | cons first more =>
    cases h₂
    refine ⟨first, more, t, tail, rfl, rfl, hstop, rfl, fun g tail' hstops => ?_⟩
    rw [attachPoint, hread g tail' fun _ => rfl]
    simp only [bind, Except.bind, passed_append, List.map_cons, attachFrom, classify_move hstops]

theorem attachPoints_eq (ts : List Token) :
    attachPoints ts = attachPoint ts >>= fun r =>
      if startsWith "," r.2 then attachPoints r.2.tail >>= fun q => pure (r.1 :: q.1, q.2)
      else pure ([r.1], r.2) := by
  rw [attachPoints]
  split
  · next he => simp only [he, bind, Except.bind]
  · next a rest he =>
    simp only [he, bind, Except.bind]
    cases attachPoints rest.tail <;> rfl

theorem attachPoints_step {tokens rest : List Token} {a : AttachPoint}
    (h : attachPoint tokens = .ok (a, rest)) :
    attachPoints tokens = if startsWith "," rest then
      (attachPoints rest.tail).map fun (as, rest') => (a :: as, rest') else .ok ([a], rest) := by
  rw [attachPoints_eq, h]
  simp only [bind, Except.bind]
  cases attachPoints rest.tail <;> rfl

theorem attachPoints_reads {tokens rest : List Token} {as : List AttachPoint}
    (h : attachPoints tokens = .ok (as, rest)) :
    ∃ used t tail, tokens = used ++ t :: tail ∧ rest = t :: tail ∧
      ∀ g tail', (∀ t ∈ used, (t.move g).stop = g t.stop) →
        attachPoints (used.map (Token.move g) ++ t.move g :: tail') =
          .ok (as.map (AttachPoint.map g), t.move g :: tail') := by
  fun_induction attachPoints tokens generalizing as with
  | case1 => cases h
  | case2 => cases h
  | case3 tokens a rest₁ ha _ hcomma as' rest₂ hrec ih =>
    cases h
    obtain ⟨first, more, comma, tail₁, rfl, rfl, -, -, hread⟩ := attachPoint_reads ha
    obtain ⟨used, t, tail, rfl, rfl, hused⟩ := ih hrec
    refine ⟨first :: more ++ comma :: used, t, tail, by simp, rfl, fun g tail' hstops => ?_⟩
    have h₁ := hread g (used.map (Token.move g) ++ t.move g :: tail')
      fun t ht => hstops t (List.mem_append_left _ ht)
    have h₂ := hused g tail' fun t ht => hstops t (List.mem_append_right _ (List.mem_cons_of_mem _ ht))
    have hc : comma.is "," = true := hcomma
    rw [List.map_append, List.append_assoc, List.map_cons (a := comma), List.cons_append,
      attachPoints_step h₁]
    simp [hc, h₂, Except.map]
  | case4 tokens a rest₁ ha _ hcomma =>
    cases h
    obtain ⟨first, more, t, tail, rfl, rfl, -, -, hread⟩ := attachPoint_reads ha
    refine ⟨first :: more, t, tail, rfl, rfl, fun g tail' hstops => ?_⟩
    have h₁ := hread g tail' hstops
    have hc : t.is "," = false := by simpa using hcomma
    rw [attachPoints_step h₁]
    simp [hc]

theorem textOf?_move {g : Nat → Nat} {text text' : List Char} {ts : List Token}
    (h : Moves g text text' ts) : textOf? text' (ts.map (Token.move g)) = textOf? text ts := by
  cases ts with
  | nil => rfl
  | cons t ts =>
    obtain ⟨last, hl⟩ : ∃ last, (t :: ts).getLast? = some last :=
      ⟨_, List.getLast?_eq_some_getLast (by simp)⟩
    simp only [textOf?, List.head?_map, List.head?_cons, Option.map_some, List.getLast?_map, hl,
      h.slice t List.mem_cons_self last (List.mem_of_getLast? hl)]

structure ServiceParts where
  keyword : Token
  type : List Token
  on : Token
  attach : List Token
  openBrace : Token
  body : List Token

namespace ServiceParts

/-- The tokens through the opening brace. -/
def front (p : ServiceParts) : List Token :=
  p.keyword :: (p.type ++ p.on :: (p.attach ++ [p.openBrace]))

end ServiceParts

/-- The service with its spans moved and with further members before its new closing brace. -/
def extended (g : Nat → Nat) (start : Nat) (s : Service) (ms : List Member) (close : Token) : Service where
  span := ⟨start, close.stop⟩
  typeDesc := s.typeDesc
  attachPoints := s.attachPoints.map (·.map g)
  openBrace := s.openBrace.map g
  closeBrace := close.span
  members := s.members.map (·.map g) ++ ms

theorem serviceDecl_reads {text : List Char} {start : Nat} {tokens rest : List Token} {s : Service}
    (h : serviceDecl text start tokens = .ok (s, rest)) :
    ∃ (p : ServiceParts) (close : Token),
      tokens = p.front ++ (p.body ++ close :: rest) ∧ p.keyword.is "service" = true ∧
      attachPoints (p.attach ++ p.openBrace :: (p.body ++ close :: rest)) =
        .ok (s.attachPoints, p.openBrace :: (p.body ++ close :: rest)) ∧
      p.openBrace.is "\x7b" = true ∧ close.is "\x7d" = true ∧
      members text (p.body ++ close :: rest) = .ok (s.members, close, rest) ∧
      s.span = ⟨start, close.stop⟩ ∧ s.openBrace = p.openBrace.span ∧ s.closeBrace = close.span ∧
      ∀ g text' start' tail' ms' close' rest', Moves g text text' (p.front ++ p.body) →
        members text' tail' = .ok (ms', close', rest') →
        serviceDecl text' start' ((p.front ++ p.body).map (Token.move g) ++ tail') =
          .ok (extended g start' s ms' close', rest') := by
  obtain ⟨⟨keyword, r₁⟩, h₁, h⟩ := bind_eq_ok.1 h
  obtain ⟨⟨type, r₂⟩, h₂, h⟩ := bind_eq_ok.1 h
  obtain ⟨⟨on, r₃⟩, h₃, h⟩ := bind_eq_ok.1 h
  obtain ⟨⟨as, r₄⟩, h₄, h⟩ := bind_eq_ok.1 h
  obtain ⟨⟨openBrace, r₅⟩, h₅, h⟩ := bind_eq_ok.1 h
  obtain ⟨⟨ms, close, r₆⟩, h₆, h⟩ := bind_eq_ok.1 h
  cases h
  obtain ⟨rfl, hkey⟩ := expect_eq_ok.1 h₁
  obtain ⟨on', tail, rfl, rfl, hhead⟩ := serviceHead_reads h₂
  obtain ⟨heq, hon⟩ := expect_eq_ok.1 h₃
  obtain ⟨rfl, rfl⟩ := List.cons.inj heq
  obtain ⟨attach, brace, tail₁, rfl, rfl, hattach⟩ := attachPoints_reads h₄
  obtain ⟨heq, hopen⟩ := expect_eq_ok.1 h₅
  obtain ⟨rfl, rfl⟩ := List.cons.inj heq
  obtain ⟨body, rfl, hclose, hread⟩ := members_reads h₆
  let p : ServiceParts := ⟨keyword, type, on', attach, brace, body⟩
  refine ⟨p, close, by simp [p, ServiceParts.front], hkey, h₄, hopen, hclose, h₆, rfl, rfl, rfl,
    fun g text' start' tail' ms' close' rest' hm hms => ?_⟩
  have hbody := hread g text' tail' ms' close' rest' (hm.mono (by simp [p])) hms
  have hat := hattach g (body.map (Token.move g) ++ tail') fun t ht => hm.stop t (by
    simp [p, ServiceParts.front, ht])
  have htype : textOf? text' (type.map (Token.move g)) = textOf? text type :=
    textOf?_move (hm.mono fun t ht => by simp [p, ServiceParts.front, ht])
  have hbrace : (brace.move g).stop = g brace.stop := hm.stop brace (by simp [p, ServiceParts.front])
  simp [serviceDecl, p, ServiceParts.front, expect, hkey, hhead, hon, hat, hopen, hbody, bind, Except.bind,
    pure, Except.pure, extended, htype, Token.span, Span.map, hbrace]

/-! ## Declarations -/

/-- A keyword or punctuator of a name is at most one of two words. -/
theorem startsWith_other {s s' : String} {w : List Token} (h : startsWith s w = true) (hs : s ≠ s') :
    startsWith s' w = false := by
  cases w with
  | nil => rfl
  | cons t w =>
    rw [Bool.eq_false_iff]
    intro h'
    exact hs (is_unique h h')

/-- Qualifiers at the front of a declaration, and what follows them. -/
structure Qualified (quals w : List Token) : Prop where
  quals : ∀ q ∈ quals, moduleQualifiers.any q.is = true
  head : ∀ t ∈ w.head?, moduleQualifiers.any t.is = false

theorem qualified_of_tokens (tokens : List Token) : ∃ quals w, tokens = quals ++ w ∧ Qualified quals w := by
  refine ⟨tokens.takeWhile fun t => moduleQualifiers.any t.is, afterQualifiers tokens,
    List.takeWhile_append_dropWhile.symm, fun q hq => ?_, fun t ht => ?_⟩
  · exact List.mem_takeWhile_imp (p := fun t : Token => moduleQualifiers.any t.is) hq
  · obtain ⟨r, hr⟩ := List.head?_eq_some_iff.1 ht
    exact dropWhile_cons_neg (p := fun t : Token => moduleQualifiers.any t.is) hr

theorem Qualified.afterQualifiers_eq {quals w : List Token} (h : Qualified quals w) :
    afterQualifiers (quals ++ w) = w := dropWhile_stretch h.quals h.head

/-- Nothing is left out where there are no qualifiers. -/
theorem Qualified.length_beq {first : Token} {tail quals w : List Token} (h : first :: tail = quals ++ w) :
    (w.length == tail.length + 1) = quals.isEmpty := by
  have hlength := congrArg List.length h
  simp only [List.length_cons, List.length_append] at hlength
  cases quals with
  | nil => simpa using hlength.symm
  | cons q quals =>
    simp only [List.length_cons] at hlength
    simp only [List.isEmpty_cons, beq_eq_false_iff_ne, ne_eq]
    omega

/-- What follows the qualifiers may change after its first token. -/
theorem Qualified.move {quals w w' : List Token} (h : Qualified quals w) {g : Nat → Nat}
    (hw : w'.head? = w.head?.map (Token.move g)) : Qualified (quals.map (Token.move g)) w' := by
  refine ⟨fun q hq => ?_, fun t ht => ?_⟩
  · obtain ⟨u, hu, rfl⟩ := List.mem_map.1 hq
    have hu := h.quals u hu
    exact hu
  · rw [hw] at ht
    obtain ⟨u, hu, rfl⟩ := Option.map_eq_some_iff.1 ht
    have hu := h.head u hu
    exact hu

/-- How a declaration is read after its qualifiers, case by case. -/
inductive Declares (text : List Char) (start : Nat) (quals w : List Token) :
    Option Decl → List Token → Prop
  | importDecl {i : Import} {rest : List Token} (hq : quals = []) (hw : startsWith "import" w = true)
      (h : importDecl w = .ok (i, rest)) : Declares text start quals w (some (.importDecl i)) rest
  | listenerDecl {l : Listener} {rest : List Token} (hw : startsWith "listener" w = true)
      (h : listenerDecl start w = .ok (l, rest)) :
      Declares text start quals w (some (.listenerDecl l)) rest
  | serviceDecl {s : Service} {rest : List Token} (hw : startsWith "service" w = true)
      (hc : startsWith "class" w.tail = false) (h : serviceDecl text start w = .ok (s, rest)) :
      Declares text start quals w (some (.serviceDecl s)) rest
  | other {rest : List Token} (hi : startsWith "import" w = true → quals ≠ [])
      (hl : startsWith "listener" w = false)
      (hs : startsWith "service" w = true → startsWith "class" w.tail = true)
      (h : construct [] w = .ok rest) : Declares text start quals w none rest

section

variable {text : List Char} {first : Token} {tail quals w rest : List Token} {d : Option Decl}

/-- A declaration that is read is of one of the kinds. -/
theorem Declares.of_declaration (hq : Qualified quals w) (hsplit : first :: tail = quals ++ w)
    (h : declaration text first tail = .ok (d, rest)) : Declares text first.start quals w d rest := by
  have hafter : afterQualifiers (first :: tail) = w := by rw [hsplit, hq.afterQualifiers_eq]
  simp only [declaration, hafter, Qualified.length_beq hsplit] at h
  split at h
  · next hi =>
    obtain ⟨⟨i, r⟩, h₁, h₂⟩ := bind_eq_ok.1 h
    cases h₂
    simp only [Bool.and_eq_true, List.isEmpty_iff] at hi
    exact .importDecl hi.2 hi.1 h₁
  · next hi =>
    split at h
    · next hl =>
      obtain ⟨⟨l, r⟩, h₁, h₂⟩ := bind_eq_ok.1 h
      cases h₂
      exact .listenerDecl hl h₁
    · next hl =>
      split at h
      · next hs =>
        obtain ⟨⟨s, r⟩, h₁, h₂⟩ := bind_eq_ok.1 h
        cases h₂
        simp only [Bool.and_eq_true, Bool.not_eq_true'] at hs
        exact .serviceDecl hs.1 hs.2 h₁
      · next hs =>
        obtain ⟨r, h₁, h₂⟩ := bind_eq_ok.1 h
        cases h₂
        refine .other (fun himp hq => hi ?_) (by simpa using hl) (fun hser => ?_) h₁
        · simp [himp, hq]
        · simpa [hser] using hs

/-- A declaration of each kind is read. -/
theorem Declares.declaration_eq (hq : Qualified quals w) (hsplit : first :: tail = quals ++ w)
    (h : Declares text first.start quals w d rest) : declaration text first tail = .ok (d, rest) := by
  have hafter : afterQualifiers (first :: tail) = w := by rw [hsplit, hq.afterQualifiers_eq]
  simp only [declaration, hafter, Qualified.length_beq hsplit]
  cases h with
  | importDecl hq hw h => simp [hq, hw, h, bind, Except.bind, pure, Except.pure]
  | listenerDecl hw h =>
    simp [hw, startsWith_other hw (show "listener" ≠ "import" by decide), h, bind, Except.bind, pure,
      Except.pure]
  | serviceDecl hw hc h =>
    simp [hw, hc, startsWith_other hw (show "service" ≠ "import" by decide),
      startsWith_other hw (show "service" ≠ "listener" by decide), h, bind, Except.bind, pure, Except.pure]
  | other hi hl hs h =>
    have h₁ : (startsWith "import" w && quals.isEmpty) = false := by
      rw [Bool.and_eq_false_imp]
      intro himp
      simpa using hi himp
    have h₂ : (startsWith "service" w && !startsWith "class" w.tail) = false := by
      rw [Bool.and_eq_false_imp]
      intro hser
      simpa using hs hser
    simp [h₁, hl, h₂, h, bind, Except.bind, pure, Except.pure]

theorem declaration_eq_ok_iff (hq : Qualified quals w) (hsplit : first :: tail = quals ++ w) :
    declaration text first tail = .ok (d, rest) ↔ Declares text first.start quals w d rest :=
  ⟨.of_declaration hq hsplit, Declares.declaration_eq hq hsplit⟩

end

/-- A service with its spans moved and no further member is the moved service. -/
theorem extended_nil {g : Nat → Nat} {start : Nat} {s : Service} {close : Token}
    (hspan : s.span = ⟨start, close.stop⟩) (hclose : s.closeBrace = close.span)
    (hstop : (close.move g).stop = g close.stop) :
    extended g (g start) s [] (close.move g) = s.map g := by
  simp [extended, Service.map, hspan, hclose, Span.map, Token.span, hstop]

/-- A declaration that is passed over has more than the keyword of a service, unless the text ends. -/
theorem construct_cons {u : Token} {rest : List Token} (h : construct [] (u :: rest) = .ok rest)
    (hrest : rest ≠ []) : u.is "service" = false := by
  have hword : ∀ s, s ≠ "service" → u.isPunct s = true → u.is "service" = false := by
    intro s hs hu
    rw [Bool.eq_false_iff]
    intro h'
    exact hs (is_unique (is_of_isPunct hu) h')
  unfold construct at h
  split at h
  · next hsemi => exact hword ";" (by decide) (by simpa using hsemi)
  · split at h
    · cases h
    · split at h
      · next hclose =>
        simp only [Bool.and_eq_true, beq_iff_eq] at hclose
        obtain ⟨-, hs⟩ | ⟨-, hs⟩ | ⟨-, hs⟩ := Token.isPunct_of_closes? hclose.2
        · exact hword ")" (by decide) hs
        · exact hword "]" (by decide) hs
        · exact hword "\x7d" (by decide) hs
      · rcases construct_length h with hnil | hlt
        · exact absurd hnil hrest
        · omega

/-- A list that starts with one of its parts starts with a moved token when that part is moved. -/
theorem head?_part {g : Nat → Nat} {part rest rest' : List Token} (h : part = [] → rest' = [] ∧ rest = []) :
    (part.map (Token.move g) ++ rest').head? = (part ++ rest).head?.map (Token.move g) := by
  cases part with
  | nil =>
    obtain ⟨rfl, rfl⟩ := h rfl
    rfl
  | cons t part => rfl

/-- Whether a declaration that is passed over is one of a service class is settled before it ends, unless the
text does. -/
theorem construct_tail_move {s : String} {g : Nat → Nat} {part rest rest' : List Token}
    (h : construct [] (part ++ rest) = .ok rest) (hservice : startsWith "service" (part ++ rest) = true)
    (hpart : part = [] → rest = []) (hr : rest = [] → rest' = []) :
    startsWith s (part.map (Token.move g) ++ rest').tail = startsWith s (part ++ rest).tail := by
  rcases part with _ | ⟨u, _ | ⟨v, part⟩⟩
  · rw [hpart rfl, hr (hpart rfl)]
    rfl
  · -- the keyword of a service alone ends no declaration
    have hnil : rest = [] := by
      by_contra hne
      have hkey := construct_cons h hne
      rw [List.singleton_append, startsWith_cons, hkey] at hservice
      cases hservice
    rw [hnil, hr hnil]
    rfl
  · exact startsWith_move (g := g) rfl

theorem Declares.reads {text : List Char} {start : Nat} {quals w rest : List Token} {d : Option Decl}
    (h : Declares text start quals w d rest) :
    ∃ part, w = part ++ rest ∧ (part = [] → rest = []) ∧
      ∀ g text' rest', Moves g text text' part → (rest = [] → rest' = []) →
        Declares text' (g start) (quals.map (Token.move g)) (part.map (Token.move g) ++ rest')
          (d.map (Decl.map g)) rest' := by
  cases h with
  | importDecl hq hw h =>
    obtain ⟨keyword, body, semi, rfl, hkey, -, -, hread⟩ := importDecl_reads h
    refine ⟨keyword :: (body ++ [semi]), by simp, by simp, fun g text' rest' hm _ => ?_⟩
    have hi := hread g rest' (hm.stop semi (by simp))
    exact .importDecl (by rw [hq]; rfl) hkey (by simpa using hi)
  | listenerDecl hw h =>
    obtain ⟨keyword, body, semi, rfl, hkey, -, hread⟩ := listenerDecl_reads h
    refine ⟨keyword :: (body ++ [semi]), by simp, by simp, fun g text' rest' hm _ => ?_⟩
    have hl := hread g rest' (hm.stop semi (by simp))
    exact .listenerDecl hkey (by simpa using hl)
  | serviceDecl hw hc h =>
    obtain ⟨p, close, rfl, hkey, -, -, hclose, -, hspan, -, hbrace, hread⟩ := serviceDecl_reads h
    refine ⟨p.front ++ p.body ++ [close], by simp, by simp, fun g text' rest' hm _ => ?_⟩
    have hmembers : members text' (close.move g :: rest') = .ok ([], close.move g, rest') := by
      simp [members, hclose]
    have hs := hread g text' (g start) (close.move g :: rest') [] (close.move g) rest'
      (hm.mono (by simp)) hmembers
    rw [extended_nil hspan hbrace (hm.stop close (by simp))] at hs
    refine .serviceDecl hkey ?_ (by simpa using hs)
    rw [← hc]
    refine startsWith_move (g := g) ?_
    simp only [ServiceParts.front, List.map_append, List.map_cons, List.append_assoc, List.cons_append,
      List.tail_cons]
    exact head?_move_append p.type rfl
  | other hi hl hs h =>
    obtain ⟨part, rfl, hread⟩ := construct_reads h
    have hpart : part = [] → rest = [] := by
      rintro rfl
      rcases construct_length h with hnil | hlt
      · exact hnil
      · simp at hlt
    refine ⟨part, rfl, hpart, fun g text' rest' _ hr => ?_⟩
    have hhead : (part.map (Token.move g) ++ rest').head? = (part ++ rest).head?.map (Token.move g) :=
      head?_part fun hp => ⟨hr (hpart hp), hpart hp⟩
    refine .other (fun himp => ?_) ?_ (fun hser => ?_) (hread g rest' hr)
    · simpa using hi ((startsWith_move hhead).symm.trans himp)
    · exact (startsWith_move hhead).trans hl
    · rw [startsWith_move hhead] at hser
      rw [← hs hser]
      exact construct_tail_move h hser hpart hr

/-- A declaration is read the same way wherever its tokens are moved. What follows matters only to a
declaration that ends with the text. -/
theorem declaration_reads {text : List Char} {first : Token} {tail rest : List Token} {d : Option Decl}
    (h : declaration text first tail = .ok (d, rest)) :
    ∃ used, tail = used ++ rest ∧ ∀ g text' rest', Moves g text text' (first :: used) →
      (rest = [] → rest' = []) →
      declaration text' (first.move g) (used.map (Token.move g) ++ rest') =
        .ok (d.map (Decl.map g), rest') := by
  obtain ⟨quals, w, hsplit, hq⟩ := qualified_of_tokens (first :: tail)
  obtain ⟨part, rfl, hpart, hread⟩ := ((declaration_eq_ok_iff hq hsplit).1 h).reads
  obtain ⟨used, hused⟩ : ∃ used, quals ++ part = first :: used := by
    cases quals with
    | cons q quals => exact ⟨quals ++ part, by rw [(List.cons.inj hsplit).1]; rfl⟩
    | nil =>
      cases part with
      | cons t part => exact ⟨part, by rw [(List.cons.inj hsplit).1]; rfl⟩
      | nil => rw [hpart rfl] at hsplit; cases hsplit
  obtain rfl : tail = used ++ rest := by
    rw [← List.append_assoc, hused] at hsplit
    exact (List.cons.inj hsplit).2
  refine ⟨used, rfl, fun g text' rest' hm hr => ?_⟩
  have hw : (part.map (Token.move g) ++ rest').head? = (part ++ rest).head?.map (Token.move g) :=
    head?_part fun hp => ⟨hr (hpart hp), hpart hp⟩
  refine (declaration_eq_ok_iff (hq.move hw) ?_).2 (hread g text' rest' (hm.mono ?_) hr)
  · rw [← List.append_assoc, ← List.map_append, hused]
    rfl
  · rw [← hused]
    simp

/-! ## Modules -/

theorem declarations_eq (text : List Char) (t : Token) (tail : List Token) :
    declarations text (t :: tail) = if t.is "@" then annotationStep (t :: tail) >>= declarations text
      else declaration text t tail >>= fun r => declarations text r.2 >>= fun ds => pure (r.1.toList ++ ds) := by
  rw [declarations]
  split
  · split
    · next he => simp only [he, bind, Except.bind]
    · next rest he => simp only [he, bind, Except.bind]
  · split
    · next he => simp only [he, bind, Except.bind]
    · next d rest he =>
      simp only [he, bind, Except.bind]
      cases declarations text rest <;> rfl

theorem declarations_annotation {text : List Char} {t : Token} {tail rest : List Token}
    (h : annotationStep (t :: tail) = .ok rest) (hat : t.is "@" = true) :
    declarations text (t :: tail) = declarations text rest := by
  rw [declarations_eq, if_pos hat, h]
  rfl

theorem declarations_step {text : List Char} {t : Token} {tail rest : List Token} {d : Option Decl}
    (h : declaration text t tail = .ok (d, rest)) (hat : t.is "@" = false) :
    declarations text (t :: tail) = (declarations text rest).map (d.toList ++ ·) := by
  rw [declarations_eq, if_neg (by simp [hat]), h]
  simp only [bind, Except.bind]
  cases declarations text rest <;> rfl

theorem map_toList_map (g : Nat → Nat) (d : Option Decl) :
    (d.map (Decl.map g)).toList = d.toList.map (Decl.map g) := by
  cases d <;> rfl

/-- A module whose tokens are moved is the moved module. -/
theorem declarations_move {g : Nat → Nat} {text text' : List Char} {tokens : List Token}
    {ds : List Decl} (hm : Moves g text text' tokens) (h : declarations text tokens = .ok ds) :
    declarations text' (tokens.map (Token.move g)) = .ok (ds.map (Decl.map g)) := by
  fun_induction declarations text tokens generalizing ds with
  | case1 => cases h; simp [declarations]
  | case2 => cases h
  | case3 t tail hat rest hstep _ ih =>
    obtain ⟨used, hused, hne, hread⟩ := annotationStep_reads hstep
    obtain ⟨u, used, rfl⟩ := List.exists_cons_of_ne_nil hne
    obtain ⟨rfl, rfl⟩ := List.cons.inj hused
    have hstep' := hread g (rest.map (Token.move g)) (List.head?_map ..)
    have hrest := ih (hm.mono (by simp)) h
    rw [List.map_cons, List.cons_append] at hstep'
    rw [List.map_cons, List.append_eq, List.map_append, declarations_annotation hstep' hat, hrest]
  | case4 => cases h
  | case5 => cases h
  | case6 t tail hat d rest hdecl _ ds' hrec ih =>
    cases h
    obtain ⟨used, rfl, hread⟩ := declaration_reads hdecl
    have hdecl' := hread g text' (rest.map (Token.move g)) (hm.mono (by simp)) (by rintro rfl; rfl)
    have hrest := ih (hm.mono (by simp)) hrec
    rw [List.map_cons, List.map_append, declarations_step hdecl' (by simpa using hat), hrest,
      map_toList_map, List.map_append]
    rfl

/-- Reading a module comes to each of its declarations. What is read before depends on what follows only by
the first token of the declaration. -/
theorem declarations_split {text : List Char} {tokens : List Token} {ds₁ ds₂ : List Decl} {decl : Decl}
    (h : declarations text tokens = .ok (ds₁ ++ decl :: ds₂)) :
    ∃ before first tail rest, tokens = before ++ first :: tail ∧ first.is "@" = false ∧
      declaration text first tail = .ok (some decl, rest) ∧
      declarations text rest = .ok ds₂ ∧
      ∀ g text' rest' ds', Moves g text text' before → rest'.head? = some (first.move g) →
        declarations text' rest' = .ok ds' →
        declarations text' (before.map (Token.move g) ++ rest') = .ok (ds₁.map (Decl.map g) ++ ds') := by
  generalize hds : ds₁ ++ decl :: ds₂ = ds at h
  fun_induction declarations text tokens generalizing ds₁ ds with
  | case1 => cases h; simp at hds
  | case2 => cases h
  | case3 t tail hat rest hstep _ ih =>
    obtain ⟨before, first, tail', rest', rfl, hfirst, hdecl, hrest, hread⟩ := ih _ hds h
    obtain ⟨used, hused, hne, hone⟩ := annotationStep_reads hstep
    obtain ⟨u, used, rfl⟩ := List.exists_cons_of_ne_nil hne
    obtain ⟨rfl, rfl⟩ := List.cons.inj hused
    refine ⟨t :: used ++ before, first, tail', rest', by simp, hfirst, hdecl, hrest,
      fun g text' rest'' ds' hm hhead hds' => ?_⟩
    have hnext := hread g text' rest'' ds' (hm.mono (by simp)) hhead hds'
    have hstep' := hone g (before.map (Token.move g) ++ rest'') (head?_move_append before hhead)
    rw [List.map_cons, List.cons_append] at hstep'
    rw [List.map_append, List.append_assoc, List.map_cons, List.cons_append,
      declarations_annotation hstep' hat, hnext]
  | case4 => cases h
  | case5 => cases h
  | case6 t tail hat d rest hdecl _ ds' hrec ih =>
    cases h
    have hat' : t.is "@" = false := by simpa using hat
    -- it is this declaration, or stands in what follows
    by_cases hhere : d = some decl ∧ ds₁ = []
    · obtain ⟨rfl, rfl⟩ := hhere
      obtain rfl : ds₂ = ds' := by simpa using hds
      exact ⟨[], t, tail, rest, rfl, hat', hdecl, hrec, fun g text' rest' ds' _ _ hds' => hds'⟩
    · obtain ⟨ds₃, rfl, hlater⟩ : ∃ ds₃, ds₁ = d.toList ++ ds₃ ∧ ds₃ ++ decl :: ds₂ = ds' := by
        cases d with
        | none => exact ⟨ds₁, rfl, by simpa using hds⟩
        | some d =>
          cases ds₁ with
          | nil => simp_all
          | cons d₁ ds₁ =>
            simp only [Option.toList_some, List.cons_append, List.nil_append, List.cons.injEq] at hds
            exact ⟨ds₁, by rw [hds.1]; rfl, hds.2⟩
      obtain ⟨before, first, tail', rest', rfl, hfirst, hdecl', hrest, hread⟩ := ih _ hlater hrec
      obtain ⟨used, rfl, hone⟩ := declaration_reads hdecl
      refine ⟨t :: used ++ before, first, tail', rest', by simp, hfirst, hdecl', hrest,
        fun g text' rest'' ds' hm hhead hds' => ?_⟩
      have hnext := hread g text' rest'' ds' (hm.mono (by simp)) hhead hds'
      have hone' := hone g text' (before.map (Token.move g) ++ rest'') (hm.mono (by simp)) (by simp)
      rw [List.map_append, List.append_assoc, List.map_cons, List.cons_append,
        declarations_step hone' hat', hnext, map_toList_map, List.map_append, List.append_assoc]
      rfl

/-- The tokens around the body of a service. -/
structure Surroundings where
  /-- Everything before the opening brace of the service. -/
  front : List Token
  openBrace : Token
  body : List Token
  closeBrace : Token
  /-- Everything after the closing brace. -/
  rest : List Token

namespace Surroundings

def tokens (x : Surroundings) : List Token :=
  x.front ++ x.openBrace :: (x.body ++ x.closeBrace :: x.rest)

def before (x : Surroundings) : List Token := x.front ++ x.openBrace :: x.body

theorem tokens_eq (x : Surroundings) : x.tokens = x.before ++ x.closeBrace :: x.rest := by
  simp [tokens, before]

end Surroundings

structure Surrounds (text : List Char) (s : Service) (x : Surroundings) : Prop where
  opens : x.openBrace.is "\x7b" = true
  closes : x.closeBrace.is "\x7d" = true
  openBrace : s.openBrace = x.openBrace.span
  closeBrace : s.closeBrace = x.closeBrace.span
  stop : s.span.stop = x.closeBrace.stop
  members : members text (x.body ++ x.closeBrace :: x.rest) = .ok (s.members, x.closeBrace, x.rest)

/-- A service can be read with further members before its closing brace. -/
theorem declaration_insert {text : List Char} {first : Token} {tail rest : List Token} {s : Service}
    (h : declaration text first tail = .ok (some (.serviceDecl s), rest)) :
    ∃ x : Surroundings, first :: tail = x.tokens ∧ x.rest = rest ∧ Surrounds text s x ∧
      ∀ text' tail' ms' close' rest', Moves id text text' x.before →
        members text' tail' = .ok (ms', close', rest') →
        ∃ more, x.before ++ tail' = first :: more ∧ declaration text' first more =
          .ok (some (.serviceDecl (extended id s.span.start s ms' close')), rest') := by
  obtain ⟨quals, w, hsplit, hq⟩ := qualified_of_tokens (first :: tail)
  cases (declaration_eq_ok_iff hq hsplit).1 h with
  | serviceDecl hw hc hservice =>
    obtain ⟨p, close, rfl, hkey, -, hopen, hclose, hmembers, hspan, hobrace, hcbrace, hread⟩ :=
      serviceDecl_reads hservice
    let x : Surroundings :=
      ⟨quals ++ p.keyword :: (p.type ++ p.on :: p.attach), p.openBrace, p.body, close, rest⟩
    have hbefore : x.before = quals ++ (p.front ++ p.body) := by
      simp [x, Surroundings.before, ServiceParts.front]
    refine ⟨x, ?_, rfl, ⟨hopen, hclose, hobrace, hcbrace, by rw [hspan], hmembers⟩,
      fun text' tail' ms' close' rest' hm hms => ?_⟩
    · rw [hsplit]
      simp [x, Surroundings.tokens, ServiceParts.front]
    · have hserv := hread id text' s.span.start tail' ms' close' rest' (hm.mono (by simp [hbefore])) hms
      rw [Token.map_move_id] at hserv
      have hstart : s.span.start = first.start := by rw [hspan]
      -- the declaration still starts with the same token
      obtain ⟨more, hmore⟩ : ∃ more, quals ++ (p.front ++ p.body ++ tail') = first :: more := by
        cases quals with
        | cons q quals => exact ⟨_, by rw [(List.cons.inj hsplit).1]; rfl⟩
        | nil => exact ⟨_, by rw [(List.cons.inj hsplit).1]; rfl⟩
      have hq' : Qualified quals (p.front ++ p.body ++ tail') := ⟨hq.quals, fun t ht => hq.head t ht⟩
      refine ⟨more, by rw [hbefore, List.append_assoc, hmore], ?_⟩
      refine (declaration_eq_ok_iff hq' hmore.symm).2 (.serviceDecl hw ?_ (hstart ▸ hserv))
      rw [← hc]
      refine startsWith_move (g := id) ?_
      cases htype : p.type <;> simp [ServiceParts.front, htype]

/-- Members can be put before the closing brace of a service of a module: what stands before them stays,
and what stands after them is moved. -/
theorem declarations_insert {text : List Char} {tokens : List Token} {ds₁ ds₂ : List Decl} {s : Service}
    (h : declarations text tokens = .ok (ds₁ ++ .serviceDecl s :: ds₂)) :
    ∃ x : Surroundings, tokens = x.tokens ∧ Surrounds text s x ∧
      ∀ g text' tail' ms' close', Moves id text text' x.before → Moves g text text' x.rest →
        members text' tail' = .ok (ms', close', x.rest.map (Token.move g)) →
        declarations text' (x.before ++ tail') =
          .ok (ds₁ ++ .serviceDecl (extended id s.span.start s ms' close') ::
            ds₂.map (Decl.map g)) := by
  obtain ⟨before, first, tail, rest, rfl, hfirst, hdecl, hrest, hbefore⟩ := declarations_split h
  obtain ⟨x, htokens, rfl, hx, hread⟩ := declaration_insert hdecl
  refine ⟨⟨before ++ x.front, x.openBrace, x.body, x.closeBrace, x.rest⟩, ?_, ?_,
    fun g text' tail' ms' close' hm hmrest hms => ?_⟩
  · rw [htokens]
    simp [Surroundings.tokens]
  · exact ⟨hx.opens, hx.closes, hx.openBrace, hx.closeBrace, hx.stop, hx.members⟩
  · have hsplit : (⟨before ++ x.front, x.openBrace, x.body, x.closeBrace, x.rest⟩ : Surroundings).before =
        before ++ x.before := by simp [Surroundings.before]
    rw [hsplit] at hm ⊢
    obtain ⟨more, hmore, hdecl'⟩ := hread text' tail' ms' close' _ (hm.mono (by simp)) hms
    have hdecls := declarations_step hdecl' hfirst
    rw [declarations_move hmrest hrest] at hdecls
    have hall := hbefore id text' (first :: more) _ (hm.mono (by simp)) rfl hdecls
    rw [Token.map_move_id, ← hmore] at hall
    rw [List.append_assoc, hall]
    simp

end ServiceLint.Parse
