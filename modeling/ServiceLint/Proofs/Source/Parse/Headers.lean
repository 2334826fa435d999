import ServiceLint.Proofs.Source.Parse.Unchecked

/-!
# What listeners and attach points are written with

A listener declaration is divided by its first equals sign: before it stand a type, if there is one, and the name,
after it the initial value (`Module.parse_listener`). An attach point is read from the tokens of its span
(`Module.parse_attachPoint`), and a type is the configured one when three tokens write it (`typeRef?_isQualified`,
`leadingType_isQualified`).
-/
namespace ServiceLint

/-! ## The tokens of a listener -/

/-- The tokens of the listener after its qualifiers and its keyword. -/
def Listener.body (tokens : List Token) (d : Listener) : List Token :=
  ((within d.span tokens).dropWhile fun t => Parse.moduleQualifiers.any t.is).tail

/-- The type and the name: everything before the first equals sign. -/
def Listener.header (tokens : List Token) (d : Listener) : List Token :=
  (d.body tokens).takeWhile (!·.is "=")

/-- The name that the listener is written with. -/
def Listener.nameText? (tokens : List Token) (d : Listener) : Option String :=
  (d.header tokens).getLast?.map (·.text)

/-- The tokens of the declared type, if there is one. -/
def Listener.typeTokens (tokens : List Token) (d : Listener) : List Token := (d.header tokens).dropLast

/-- The initial value and the semicolon. -/
def Listener.initTokens (tokens : List Token) (d : Listener) : List Token :=
  ((d.body tokens).dropWhile (!·.is "=")).tail

structure Listener.Written (tokens : List Token) (d : Listener) : Prop where
  name : d.nameText? tokens = some d.name
  declaredType : d.declaredType = Parse.typeRef? (d.typeTokens tokens)
  initType : d.initType = (Parse.initialType (d.initTokens tokens)).1
  type_infix : d.typeTokens tokens <:+: tokens
  init_infix : d.initTokens tokens <:+: tokens

namespace Parse

theorem listenerHead_parts {tokens rest : List Token} {name : Token} {type? : Option TypeRef}
    (h : listenerHead tokens = .ok ((name, type?), rest)) :
    ∃ type equals tail, tokens = type ++ name :: equals :: tail ∧ rest = equals :: tail ∧
      (∀ t ∈ type ++ [name], (!t.is "=") = true) ∧ type? = typeRef? type := by
  unfold listenerHead at h
  split at h
  · cases h
  · next equals tail hd =>
    split at h
    · cases h
    · next type hrev =>
      cases h
      have htake : tokens.takeWhile (!·.is "=") = type.reverse ++ [name] := by
        rw [← List.reverse_reverse (tokens.takeWhile _), hrev, List.reverse_cons]
      refine ⟨type.reverse, equals, tail, ?_, rfl, fun t ht => ?_, rfl⟩
      · rw [← List.takeWhile_append_dropWhile (p := fun t : Token => !t.is "=") (l := tokens), htake, hd]
        simp
      · rw [← htake] at ht
        exact List.mem_takeWhile_imp (p := fun t : Token => !t.is "=") ht

/-- A listener as it is read, token by token. -/
theorem listenerDecl_parts {start : Nat} {tokens rest : List Token} {d : Listener}
    (h : listenerDecl start tokens = .ok (d, rest)) :
    ∃ keyword type name equals init semi,
      tokens = keyword :: (type ++ name :: equals :: (init ++ semi :: rest)) ∧ keyword.is "listener" = true ∧
      equals.is "=" = true ∧ (∀ t ∈ type ++ [name], (!t.is "=") = true) ∧
      d = ⟨⟨start, semi.stop⟩, name.text, typeRef? type, (initialType (init ++ [semi])).1⟩ := by
  obtain ⟨⟨keyword, r₁⟩, h₁, h⟩ := bind_eq_ok.1 h
  obtain ⟨⟨⟨name, declared⟩, r₂⟩, h₂, h⟩ := bind_eq_ok.1 h
  obtain ⟨⟨equals, r₃⟩, h₃, h⟩ := bind_eq_ok.1 h
  obtain ⟨⟨semi, r₄⟩, h₄, h⟩ := bind_eq_ok.1 h
  cases h
  obtain ⟨rfl, hkey⟩ := expect_eq_ok.1 h₁
  obtain ⟨type, equals', tail, rfl, rfl, hhead, rfl⟩ := listenerHead_parts h₂
  obtain ⟨heq, hequals⟩ := expect_eq_ok.1 h₃
  obtain ⟨rfl, rfl⟩ := List.cons.inj heq
  obtain ⟨body, hbody, hsemi, -⟩ := semicolon_reads h₄
  obtain ⟨pre, hpre⟩ := initialType_suffix tail
  obtain rfl : tail = (pre ++ body) ++ semi :: rest := by rw [← hpre, hbody, List.append_assoc]
  -- what follows the semicolon is not part of the type
  obtain ⟨_, -, hinit⟩ := initialType_reads hsemi id (pre ++ body) rest []
  rw [Token.map_move_id, Token.move_id] at hinit
  exact ⟨keyword, type, name, equals', pre ++ body, semi, rfl, hkey, hequals, hhead, by rw [hinit]⟩

/-- Reading a module comes to each declaration. -/
theorem exists_declaration {text : List Char} {m : Module} {tokens : List Token} {decl : Decl}
    (hm : Module.parse text = .ok m) (htok : tokenize text = .ok tokens) (hd : decl ∈ m.decls) :
    ∃ before first tail rest quals w, tokens = before ++ first :: tail ∧ first :: tail = quals ++ w ∧
      Qualified quals w ∧ Declares text first.start quals w (some decl) rest := by
  obtain ⟨tokens', htok', hdecls⟩ := Module.parse_eq_ok hm
  obtain rfl := Except.ok.inj (htok.symm.trans htok')
  obtain ⟨ds₁, ds₂, hsplit⟩ := List.append_of_mem hd
  rw [hsplit] at hdecls
  obtain ⟨before, first, tail, rest, rfl, -, hdecl, -⟩ := declarations_split hdecls
  obtain ⟨quals, w, hw, hq⟩ := qualified_of_tokens (first :: tail)
  exact ⟨before, first, tail, rest, quals, w, rfl, hw, hq, (declaration_eq_ok_iff hq hw).1 hdecl⟩

end Parse

open Parse

section

variable {text : List Char} {m : Module} {tokens : List Token}

/-- A declaration whose tokens are divided as those of a listener are. -/
theorem Listener.Written.of_parts {d : Listener} {quals type init : List Token} {keyword name equals semi : Token}
    (hspan : within d.span tokens = quals ++ keyword :: (type ++ name :: equals :: (init ++ [semi])))
    (hin : within d.span tokens <:+: tokens) (hq : Qualified quals (keyword :: (type ++ name :: equals :: init)))
    (hequals : equals.is "=" = true) (hhead : ∀ t ∈ type ++ [name], (!t.is "=") = true)
    (hname : d.name = name.text) (hdeclared : d.declaredType = typeRef? type)
    (hinit : d.initType = (initialType (init ++ [semi])).1) : d.Written tokens := by
  have hbody : d.body tokens = (type ++ [name]) ++ equals :: (init ++ [semi]) := by
    have hstop : ∀ t ∈ (keyword :: (type ++ name :: equals :: (init ++ [semi]))).head?,
        moduleQualifiers.any t.is = false := fun t ht => hq.head t ht
    rw [Listener.body, hspan, dropWhile_stretch hq.quals hstop]
    simp
  have hstop : ∀ t ∈ (equals :: (init ++ [semi])).head?, (!t.is "=") = false := by
    rintro t ⟨rfl⟩
    simp [hequals]
  have hheader : d.header tokens = type ++ [name] := by
    rw [Listener.header, hbody, takeWhile_stretch hhead hstop]
  have htype : d.typeTokens tokens = type := by rw [Listener.typeTokens, hheader, List.dropLast_concat]
  have hvalue : d.initTokens tokens = init ++ [semi] := by
    rw [Listener.initTokens, hbody, dropWhile_stretch hhead hstop, List.tail_cons]
  rw [hspan] at hin
  refine ⟨?_, by rw [htype, hdeclared], by rw [hvalue, hinit], ?_, ?_⟩
  · rw [Listener.nameText?, hheader, List.getLast?_concat, Option.map_some, hname]
  · rw [htype]
    exact List.IsInfix.trans ⟨quals ++ [keyword], name :: equals :: (init ++ [semi]), by simp⟩ hin
  · rw [hvalue]
    exact List.IsInfix.trans ⟨quals ++ keyword :: (type ++ [name, equals]), [], by simp⟩ hin

/-- A listener of a module is what its tokens say. -/
theorem Module.parse_listener {d : Listener} (hm : Module.parse text = .ok m)
    (htok : tokenize text = .ok tokens) (hd : d ∈ m.listeners) : d.Written tokens := by
  obtain ⟨before, first, tail, rest, quals, w, rfl, hw, hq, hdeclares⟩ :=
    exists_declaration hm htok (Module.mem_listeners.1 hd)
  cases hdeclares with
  | listenerDecl _ hl =>
    obtain ⟨keyword, type, name, equals, init, semi, rfl, hkey, hequals, hhead, rfl⟩ := listenerDecl_parts hl
    have hsplit : first :: tail = (quals ++ keyword :: (type ++ name :: equals :: init)) ++ semi :: rest := by
      rw [hw]
      simp
    have hfirst : (quals ++ keyword :: (type ++ name :: equals :: init) ++ [semi]).head? = some first := by
      rw [show some first = (first :: tail).head? from rfl, hw]
      cases quals <;> simp
    have hin : (quals ++ keyword :: (type ++ name :: equals :: init)) ++ semi :: rest <:+
        before ++ first :: tail := by
      rw [hsplit]
      exact List.suffix_append before _
    have hspan := within_from (tokenize_laid htok) hin hfirst
    have hparts : within ⟨first.start, semi.stop⟩ (before ++ first :: tail) =
        quals ++ keyword :: (type ++ name :: equals :: (init ++ [semi])) := hspan.trans (by simp)
    refine .of_parts hparts ?_ ⟨hq.quals, hq.head⟩ hequals hhead rfl rfl rfl
    show within ⟨first.start, semi.stop⟩ (before ++ first :: tail) <:+: _
    rw [hspan]
    exact ⟨before, rest, by rw [hsplit]; simp⟩

/-! ## Attach points -/

/-- Each attach point is read from some of the tokens. -/
theorem Parse.attachPoints_written {ts rest : List Token} {as : List AttachPoint} {a : AttachPoint}
    (h : attachPoints ts = .ok (as, rest)) (ha : a ∈ as) :
    ∃ first more tail, first :: (more ++ tail) <:+ ts ∧ a = classify first more := by
  fun_induction attachPoints ts generalizing as with
  | case1 => cases h
  | case2 => cases h
  | case3 ts b rest₁ hb _ hcomma as' rest₂ hrec ih =>
    cases h
    obtain ⟨first, more, t, tail, rfl, rfl, -, rfl, -⟩ := attachPoint_reads hb
    rcases List.mem_cons.1 ha with rfl | ha
    · exact ⟨first, more, t :: tail, List.suffix_refl _, rfl⟩
    · obtain ⟨first', more', tail', hin, rfl⟩ := ih hrec ha
      refine ⟨first', more', tail', hin.trans ?_, rfl⟩
      exact ⟨first :: (more ++ [t]), by simp⟩
  | case4 ts b rest₁ hb _ hcomma =>
    cases h
    obtain ⟨first, more, t, tail, rfl, rfl, -, rfl, -⟩ := attachPoint_reads hb
    obtain rfl := List.mem_singleton.1 ha
    exact ⟨first, more, t :: tail, List.suffix_refl _, rfl⟩

/-- An attach point of a module is read from the tokens in its span. -/
theorem Module.parse_attachPoint {s : Service} {a : AttachPoint} (hm : Module.parse text = .ok m)
    (htok : tokenize text = .ok tokens) (hs : s ∈ m.services) (ha : a ∈ s.attachPoints) :
    ∃ first more, within a.span tokens = first :: more ∧ first :: more <:+: tokens ∧ a = classify first more := by
  obtain ⟨before, first, tail, rest, quals, w, rfl, hw, hq, hdeclares⟩ :=
    exists_declaration hm htok (Module.mem_services.1 hs)
  cases hdeclares with
  | serviceDecl _ _ hserv =>
    obtain ⟨p, close, rfl, -, hattach, -⟩ := serviceDecl_reads hserv
    obtain ⟨first', more, tail', hin, rfl⟩ := attachPoints_written hattach ha
    have hall : first' :: (more ++ tail') <:+ before ++ first :: tail := by
      refine hin.trans (List.IsSuffix.trans ?_ (List.suffix_append before _))
      rw [hw]
      exact ⟨quals ++ p.keyword :: (p.type ++ [p.on]), by simp [ServiceParts.front]⟩
    obtain ⟨front, last, hlast⟩ : ∃ front last, first' :: more = front ++ [last] :=
      ⟨_, _, (List.dropLast_concat_getLast (List.cons_ne_nil first' more)).symm⟩
    have hsplit : first' :: (more ++ tail') = front ++ last :: tail' := by
      rw [← List.cons_append, hlast, List.append_assoc, List.singleton_append]
    have hstop : (more.getLast?.getD first') = last := by
      have := congrArg List.getLast? hlast
      rw [List.getLast?_cons, List.getLast?_concat] at this
      exact Option.some.inj this
    refine ⟨first', more, ?_, ?_, rfl⟩
    · rw [classify_span, hstop, hlast]
      exact within_from (tokenize_laid htok) (hsplit ▸ hall) (by rw [← hlast]; rfl)
    · obtain ⟨pre, hpre⟩ := hall
      exact ⟨pre, tail', by rw [← hpre]; simp⟩

end

/-! ## Type names -/

/-- The tokens of the qualified type name `qualifier:name`. -/
inductive IsTypeName (qualifier name : String) : List Token → Prop
  | mk {q colon n : Token} (hq : q.isName = true) (hqualifier : q.text = qualifier) (hcolon : colon.text = ":")
      (hn : n.isName = true) (hname : n.text = name) : IsTypeName qualifier name [q, colon, n]

/-- The tokens of a type name, qualified or not, and of nothing else. -/
inductive IsPlainType : List Token → Prop
  | simple {n : Token} (hn : n.isName = true) : IsPlainType [n]
  | qualified {qualifier name : String} {ts : List Token} (h : IsTypeName qualifier name ts) : IsPlainType ts

/-- The tokens start with `new qualifier:name`, and the last ones follow. -/
inductive StartsNew (qualifier name : String) : List Token → List Token → Prop
  | mk {new : Token} {type rest : List Token} (hnew : new.text = "new") (htype : IsTypeName qualifier name type) :
      StartsNew qualifier name (new :: (type ++ rest)) rest

/-- Whether tokens are a type name shows in how many they are. -/
theorem typeRef?_cases (ts : List Token) :
    (∃ n, ts = [n] ∧ n.isName = true ∧ typeRef? ts = some ⟨none, n.text⟩) ∨
    (∃ q colon n, ts = [q, colon, n] ∧ IsTypeName q.text n.text ts ∧ typeRef? ts = some ⟨some q.text, n.text⟩) ∨
    (typeRef? ts = none ∧ ¬ IsPlainType ts) := by
  -- no qualified name has another length
  have hlength : ∀ {qualifier name ts}, IsTypeName qualifier name ts → ts.length = 3 := by
    rintro _ _ _ ⟨⟩
    rfl
  have hother : ∀ ts : List Token, ts.length ≠ 1 → ts.length ≠ 3 → ¬ IsPlainType ts := by
    intro ts hone hthree hplain
    cases hplain with
    | simple => exact hone rfl
    | qualified h => exact hthree (hlength h)
  rcases ts with _ | ⟨q, _ | ⟨colon, _ | ⟨n, _ | ⟨t, ts⟩⟩⟩⟩
  · exact Or.inr (Or.inr ⟨rfl, hother [] (by simp) (by simp)⟩)
  · by_cases hq : q.isName = true
    · exact Or.inl ⟨q, rfl, hq, by simp [typeRef?, hq]⟩
    · refine Or.inr (Or.inr ⟨by simp [typeRef?, hq], fun hplain => ?_⟩)
      cases hplain with
      | simple hn => exact hq hn
      | qualified h => exact absurd (hlength h) (by simp)
  · exact Or.inr (Or.inr ⟨rfl, hother [q, colon] (by simp) (by simp)⟩)
  · by_cases hall : (q.isName && colon.text == ":" && n.isName) = true
    · have hparts := hall
      simp only [Bool.and_eq_true, beq_iff_eq] at hparts
      obtain ⟨⟨hq, hcolon⟩, hn⟩ := hparts
      exact Or.inr (Or.inl ⟨q, colon, n, rfl, .mk hq rfl hcolon hn rfl, by rw [typeRef?, if_pos hall]⟩)
    · refine Or.inr (Or.inr ⟨by rw [typeRef?, if_neg hall], fun hplain => ?_⟩)
      cases hplain with
      | qualified h =>
        cases h with
        | mk hq hqualifier hcolon hn hname => exact hall (by simp [hq, hcolon, hn])
  · exact Or.inr (Or.inr ⟨rfl, hother (q :: colon :: n :: t :: ts) (by simp) (by simp)⟩)

theorem typeRef?_isQualified {qualifier name : String} {ts : List Token} :
    (typeRef? ts).any (·.isQualified qualifier name) = true ↔ IsTypeName qualifier name ts := by
  constructor
  · intro h
    rcases typeRef?_cases ts with ⟨n, rfl, -, hsome⟩ | ⟨q, colon, n, rfl, htype, hsome⟩ | ⟨hnone, -⟩
    · simp [hsome, TypeRef.isQualified] at h
    · simp only [hsome, Option.any_some, TypeRef.isQualified, Bool.and_eq_true, beq_iff_eq,
        Option.some.injEq] at h
      rwa [h.1, h.2] at htype
    · simp [hnone] at h
  · rintro ⟨hq, rfl, hcolon, hn, rfl⟩
    simp [typeRef?, hq, hcolon, hn, TypeRef.isQualified]

theorem typeRef?_eq_none {ts : List Token} : typeRef? ts = none ↔ ¬ IsPlainType ts := by
  rcases typeRef?_cases ts with ⟨n, rfl, hn, hsome⟩ | ⟨q, colon, n, -, htype, hsome⟩ | ⟨hnone, hplain⟩
  · simp [hsome, IsPlainType.simple hn]
  · simp [hsome, IsPlainType.qualified htype]
  · simp [hnone, hplain]

/-! ## Words -/

/-- A token with the text of a keyword or of a punctuator is that keyword or punctuator: literals and quoted names
look different. -/
theorem is_of_text {text : List Char} {tokens : List Token} {t : Token} {s : String}
    (htok : tokenize text = .ok tokens) (ht : t ∈ tokens) (hs : s = "new" ∨ s = ":") (htext : t.text = s) :
    t.is s = true := by
  obtain ⟨a, c, tail, b, -, -, -, -, hlexes⟩ := (scan_eq_ok_iff.1 htok).mem_lexes ht
  have hshape := hlexes.shape
  have hchars : t.chars = s.toList := by rw [Token.chars, htext]
  rw [hchars] at hshape
  have hkind : t.kind = .ident ∨ t.kind = .punct := by
    cases hk : t.kind with
    | ident => exact Or.inl rfl
    | punct => exact Or.inr rfl
    | _ =>
      rw [hk] at hshape
      rcases hs with rfl | rfl
      all_goals simp [TokenKind.Shape] at hshape
  simp [Token.is, hkind, htext]

theorem leadingType_isQualified {qualifier name : String} {ts : List Token}
    (hcolon : ∀ t ∈ ts, t.text = ":" → t.is ":" = true) :
    (leadingType ts).1.any (·.isQualified qualifier name) = true ↔
      ∃ type rest, ts = type ++ rest ∧ IsTypeName qualifier name type := by
  constructor
  · intro h
    rcases ts with _ | ⟨q, _ | ⟨colon, _ | ⟨n, rest⟩⟩⟩
    · simp [leadingType] at h
    · by_cases hq : q.isName = true <;> simp [leadingType, hq, TypeRef.isQualified] at h
    · by_cases hq : q.isName = true <;> simp [leadingType, hq, TypeRef.isQualified] at h
    · by_cases hq : q.isName = true
      · by_cases hrest : (colon.is ":" && n.isName) = true
        · simp only [leadingType, hq, hrest, if_true, Option.any_some, TypeRef.isQualified, Bool.and_eq_true,
            beq_iff_eq, Option.some.injEq] at h
          simp only [Bool.and_eq_true, Token.is, beq_iff_eq] at hrest
          exact ⟨[q, colon, n], rest, rfl, .mk hq h.1 hrest.1.2 hrest.2 h.2⟩
        · simp [leadingType, hq, hrest, TypeRef.isQualified] at h
      · simp [leadingType, hq] at h
  · rintro ⟨_, rest, rfl, ⟨hq, rfl, htext, hn, rfl⟩⟩
    have hc := hcolon _ (by simp) htext
    simp [leadingType, hq, hc, hn, TypeRef.isQualified]

/-- The initial value has the type when it starts with `new` and the type. -/
theorem initialType_isQualified {qualifier name : String} {text : List Char} {tokens ts : List Token}
    (htok : tokenize text = .ok tokens) (hin : ts <:+: tokens) :
    (initialType ts).1.any (·.isQualified qualifier name) = true ↔ ∃ rest, StartsNew qualifier name ts rest := by
  cases ts with
  | nil =>
    refine ⟨fun h => by simp [initialType, startsWith] at h, ?_⟩
    rintro ⟨rest, ⟨⟩⟩
  | cons new ts =>
    have hmem : ∀ t ∈ new :: ts, t ∈ tokens := fun t ht => hin.subset ht
    have hnew : new.is "new" = true ↔ new.text = "new" := by
      refine ⟨fun h => ?_, is_of_text htok (hmem new List.mem_cons_self) (Or.inl rfl)⟩
      simp only [Token.is, Bool.and_eq_true, beq_iff_eq] at h
      exact h.2
    have hleading : (leadingType ts).1.any (·.isQualified qualifier name) = true ↔
        ∃ type rest, ts = type ++ rest ∧ IsTypeName qualifier name type :=
      leadingType_isQualified fun t ht => is_of_text htok (hmem t (List.mem_cons_of_mem _ ht)) (Or.inr rfl)
    by_cases hn : new.is "new" = true
    · rw [initialType, startsWith_cons, if_pos hn, List.tail_cons, hleading]
      constructor
      · rintro ⟨type, rest, rfl, htype⟩
        exact ⟨rest, .mk (hnew.1 hn) htype⟩
      · rintro ⟨rest, ⟨-, htype⟩⟩
        exact ⟨_, rest, rfl, htype⟩
    · rw [initialType, startsWith_cons, if_neg hn]
      refine ⟨fun h => by simp at h, ?_⟩
      rintro ⟨rest, ⟨htext, -⟩⟩
      exact absurd (hnew.2 htext) hn

end ServiceLint
