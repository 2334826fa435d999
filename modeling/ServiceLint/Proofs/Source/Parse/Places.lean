import ServiceLint.Proofs.Source.Layout
import ServiceLint.Proofs.Source.Parse.Build

/-!
# Where the declarations of a module stand

The tokens of a text are laid out in it, so the spans that a parsing step makes of them are too. Each
step leaves its tokens laid out after what it has read; the loops put the spans of their steps in order.
`Module.parse_laid` is the result for a whole text: declarations stand one after the other, and each is
`WellRead`.
-/
namespace ServiceLint

/-- The parts of a function stand in order: its name, its parameter list, and in it the parameters. -/
structure Method.Laid (text : List Char) (lo hi : Nat) (f : Method) : Prop where
  name : f.nameSpan.Fits text lo f.paramsSpan.start
  list : f.paramsSpan.Fits text lo hi
  params : InOrder text f.paramsSpan.start (f.params.map (·.span)) f.paramsSpan.stop

/-- If the member is a function, the parts of the function stand in it. -/
def Member.WellLaid (text : List Char) (m : Member) : Prop :=
  ∀ f, m.method? = some f → f.Laid text m.span.start m.span.stop

/-- The parts of a service stand in order: the attach points, the opening brace, the members and the
closing brace, with which it ends. -/
structure Service.WellLaid (text : List Char) (s : Service) : Prop where
  attach : InOrder text s.span.start (s.attachPoints.map (·.span)) s.openBrace.start
  openBrace : s.openBrace.Fits text s.span.start s.closeBrace.start
  closeBrace : s.closeBrace.Fits text s.openBrace.stop s.span.stop
  stop : s.closeBrace.stop = s.span.stop
  openText : Text.slice text s.openBrace.start s.openBrace.stop = ['\x7b']
  closeText : Text.slice text s.closeBrace.start s.closeBrace.stop = ['\x7d']
  members : InOrder text s.openBrace.stop (s.members.map (·.span)) s.closeBrace.start
  each : ∀ m ∈ s.members, m.WellLaid text

/-- An import is known under a name, and the parts of a service stand in order. -/
def Decl.WellRead (text : List Char) : Decl → Prop
  | .importDecl d => IsNameText d.localName.toList
  | .listenerDecl _ => True
  | .serviceDecl s => s.WellLaid text

namespace Parse

variable {text : List Char} {lo hi : Nat}

/-! ## Members -/

theorem paramsTail_laid {tokens rest : List Token} {ps : List Param} {close : Token}
    (h : paramsTail text tokens = .ok (ps, close, rest)) (hl : Laid text lo tokens hi) :
    InOrder text lo (ps.map (·.span)) close.start := by
  fun_induction paramsTail text tokens generalizing ps lo with
  | case1 => cases h
  | case2 => cases h
  | case3 tokens part stop rest hpart _ p hp hclose =>
    cases h
    obtain ⟨rfl, -, -⟩ := paramTokens_reads hpart
    obtain ⟨hlp, -, -⟩ := hl.cut
    rcases param?_eq_ok hp with ⟨rfl, rfl⟩ | ⟨first, last, _, _, _, hf, hlast, _, _, _, rfl⟩
    · exact hlp
    · exact .cons (hlp.span hf hlast) (Nat.le_refl _)
  | case4 => cases h
  | case5 => cases h
  | case6 tokens part stop rest hpart _ hcomma p ps close rest' hrec hp ih =>
    cases h
    obtain ⟨rfl, -, -⟩ := paramTokens_reads hpart
    obtain ⟨hlp, hstop, hlr⟩ := hl.cut
    rcases param?_eq_ok hp with ⟨_, hnone⟩ | ⟨first, last, _, _, _, hf, hlast, _, _, _, hsome⟩
    · cases hnone
    · cases hsome
      exact .cons (hlp.span hf hlast) ((ih hrec hlr).mono (Nat.le_of_lt hstop.lt) (Nat.le_refl _))

/-- The parts of a function follow one another. -/
theorem FunctionParts.laid {p : FunctionParts} {quals : List String} {name : String} {ps : List Param}
    {rest : List Token} (hl : Laid text lo (p.front ++ p.last :: rest) hi)
    (hparams : paramsTail text (p.inner ++ p.closeParen :: (p.body ++ p.last :: rest)) =
      .ok (ps, p.closeParen, p.body ++ p.last :: rest)) :
    Method.Laid text lo p.last.stop ⟨quals, name, p.nameSpan, ps, p.paramsSpan⟩ := by
  have hparts : Laid text lo (p.keyword :: p.name :: p.path ++ p.openParen ::
      (p.inner ++ p.closeParen :: (p.body ++ p.last :: rest))) hi := by
    simpa [FunctionParts.front] using hl
  obtain ⟨⟨hkeyLo, hkey, hnames⟩, hopen, hafter⟩ := hparts.cut
  obtain ⟨hinner, hclose, hend⟩ := hafter.cut
  obtain ⟨hbody, hlast, -⟩ := hend.cut
  have hname : Span.Fits text p.keyword.stop p.openParen.start p.nameSpan := by
    refine hnames.span rfl ?_
    rw [List.getLast?_eq_some_getLast (List.cons_ne_nil _ _)]
    rfl
  have hlist : Laid text p.openParen.start
      ((p.openParen :: p.inner) ++ p.closeParen :: (p.body ++ p.last :: rest)) hi :=
    ⟨Nat.le_refl _, hopen, hafter⟩
  have hkeyLt := hkey.lt
  have hlo : lo ≤ p.keyword.stop := by omega
  have hopenLo : lo ≤ p.openParen.start := Nat.le_trans hlo hnames.le
  have hlastLt := hlast.lt
  have hbodyLe := hbody.le
  have hcloseHi : p.closeParen.stop ≤ p.last.stop := by omega
  exact {
    name := hname.mono hlo (Nat.le_refl _)
    list := (hlist.spanTo rfl).1.mono hopenLo hcloseHi
    params := (paramsTail_laid hparams hafter).mono (Nat.le_of_lt hopen.lt) (Nat.le_of_lt hclose.lt) }

theorem function_laid {first : Token} {quals : List String} {before tokens rest : List Token} {m : Member}
    (h : function text first quals tokens = .ok (m, rest)) (hfirst : (before ++ tokens).head? = some first)
    (hl : Laid text lo (before ++ tokens) hi) :
    m.span.Fits text lo m.span.stop ∧ m.WellLaid text ∧ Laid text m.span.stop rest hi := by
  obtain ⟨p, ps, rfl, -, hparams, -, rfl, -⟩ := function_reads h
  obtain ⟨-, hparts⟩ := hl.from_head hfirst
  rw [← List.append_assoc] at hl hfirst
  obtain ⟨hspan, hrest⟩ := hl.spanTo hfirst
  refine ⟨hspan, ?_, hrest⟩
  rintro f ⟨rfl⟩
  exact FunctionParts.laid (hparts.sublist (List.sublist_append_right before _)) hparams

theorem field_laid {first : Token} {before tokens rest : List Token} {m : Member}
    (h : field first tokens = .ok (m, rest)) (hfirst : (before ++ tokens).head? = some first)
    (hl : Laid text lo (before ++ tokens) hi) :
    m.span.Fits text lo m.span.stop ∧ m.WellLaid text ∧ Laid text m.span.stop rest hi := by
  obtain ⟨body, semi, rfl, -, rfl, -⟩ := field_reads h
  rw [← List.append_assoc] at hl hfirst
  obtain ⟨hspan, hrest⟩ := hl.spanTo hfirst
  exact ⟨hspan, by rintro f ⟨⟩, hrest⟩

/-- A member stands before what is left after it. -/
theorem member_laid {tokens rest : List Token} {m : Member} (h : member text tokens = .ok (m, rest))
    (hl : Laid text lo tokens hi) :
    m.span.Fits text lo m.span.stop ∧ m.WellLaid text ∧ Laid text m.span.stop rest hi := by
  obtain ⟨notes, quals, t, more, first, -, rfl, hfirst, -, hbody⟩ := member_cases h
  obtain ⟨mid, hnotes, hlm⟩ := laid_append.1 hl
  have hlm := hlm.mono hnotes.le
  rcases hbody with ⟨-, hbody⟩ | ⟨-, hbody⟩
  · exact function_laid hbody hfirst hlm
  · exact field_laid hbody hfirst hlm

theorem members_laid {tokens rest : List Token} {ms : List Member} {close : Token}
    (h : members text tokens = .ok (ms, close, rest)) (hl : Laid text lo tokens hi) :
    InOrder text lo (ms.map (·.span)) close.start ∧ ∀ m ∈ ms, m.WellLaid text := by
  fun_induction members text tokens generalizing ms lo with
  | case1 => cases h
  | case2 t tail hclose =>
    cases h
    exact ⟨hl.1, by simp⟩
  | case3 => cases h
  | case4 => cases h
  | case5 t tail hclose m r hmember _ ms close rest' hrec ih =>
    cases h
    obtain ⟨hspan, hwell, hrest⟩ := member_laid hmember hl
    obtain ⟨horder, heach⟩ := ih hrec hrest
    refine ⟨.cons hspan horder, ?_⟩
    intro m' hm'
    rcases List.mem_cons.1 hm' with rfl | hm'
    · exact hwell
    · exact heach m' hm'

/-! ## Services -/

theorem classify_span (first : Token) (more : List Token) :
    (classify first more).span = ⟨first.start, (more.getLast?.getD first).stop⟩ := by
  unfold classify
  dsimp only
  split
  · rfl
  · split <;> rfl

theorem attachPoints_laid {tokens tail : List Token} {as : List AttachPoint} {t : Token}
    (h : attachPoints tokens = .ok (as, t :: tail)) (hl : Laid text lo tokens hi) :
    InOrder text lo (as.map (·.span)) t.start := by
  -- one attach point stands before the token that ends it
  have hone : ∀ {lo tokens u us a}, attachPoint tokens = .ok (a, u :: us) → Laid text lo tokens hi →
      a.span.Fits text lo u.start ∧ u.Stands text ∧ Laid text u.stop us hi := by
    intro lo tokens u us a h hl
    obtain ⟨first, more, u', us', rfl, hrest, -, rfl, -⟩ := attachPoint_reads h
    obtain ⟨rfl, rfl⟩ := List.cons.inj hrest
    rw [← List.cons_append] at hl
    obtain ⟨hpart, hu, hus⟩ := hl.cut
    refine ⟨?_, hu, hus⟩
    rw [classify_span]
    refine hpart.span rfl ?_
    rw [List.getLast?_cons]
  fun_induction attachPoints tokens generalizing as lo with
  | case1 => cases h
  | case2 => cases h
  | case3 tokens a rest₁ ha _ hcomma as' rest₂ hrec ih =>
    cases h
    obtain ⟨first, more, comma, tail₁, -, rfl, -, -, -⟩ := attachPoint_reads ha
    obtain ⟨hspan, hstands, hrest⟩ := hone ha hl
    exact .cons hspan ((ih hrec hrest).mono (Nat.le_of_lt hstands.lt) (Nat.le_refl _))
  | case4 tokens a rest₁ ha _ hcomma =>
    cases h
    exact .cons (hone ha hl).1 (Nat.le_refl _)

theorem slice_of_is {t : Token} {s : String} (hstands : t.Stands text) (h : t.is s = true) :
    Text.slice text t.start t.stop = s.toList := by
  simp only [Token.is, Bool.and_eq_true, beq_iff_eq] at h
  rw [hstands.slice, Token.chars, h.2]

theorem serviceDecl_laid {first : Token} {before tokens rest : List Token} {s : Service}
    (h : serviceDecl text first.start tokens = .ok (s, rest))
    (hfirst : (before ++ tokens).head? = some first) (hl : Laid text lo (before ++ tokens) hi) :
    s.span.Fits text lo s.span.stop ∧ s.WellLaid text ∧ Laid text s.span.stop rest hi := by
  obtain ⟨p, close, rfl, -, hattach, hopen, hclose, hmembers, hspan, hobrace, hcbrace, -⟩ :=
    serviceDecl_reads h
  obtain ⟨-, hparts⟩ := hl.from_head hfirst
  rw [← List.append_assoc p.front, ← List.append_assoc before] at hl hfirst
  obtain ⟨hfits, hrest⟩ := hl.spanTo hfirst
  -- the attach points, the members and the braces follow one another
  have hsplit : before ++ (p.front ++ (p.body ++ close :: rest)) =
      (before ++ p.keyword :: (p.type ++ [p.on])) ++
        (p.attach ++ p.openBrace :: (p.body ++ close :: rest)) := by simp [ServiceParts.front]
  rw [hsplit] at hparts
  have hafter := hparts.sublist (List.sublist_append_right _ _)
  obtain ⟨hatt, hob, hbody⟩ := hafter.cut
  obtain ⟨hbodyOnly, hcb, -⟩ := hbody.cut
  obtain ⟨horder, heach⟩ := members_laid hmembers hbody
  rw [hspan]
  refine ⟨hfits, ?_, hrest⟩
  constructor
  · rw [hspan, hobrace]
    exact attachPoints_laid hattach hafter
  · rw [hspan, hobrace, hcbrace]
    exact ⟨hatt.le, hob.lt, hbodyOnly.le, hob.start, hob.stop⟩
  · rw [hspan, hobrace, hcbrace]
    exact ⟨hbodyOnly.le, hcb.lt, Nat.le_refl _, hcb.start, hcb.stop⟩
  · rw [hspan, hcbrace]
    rfl
  · rw [hobrace]
    exact slice_of_is hob hopen
  · rw [hcbrace]
    exact slice_of_is hcb hclose
  · rw [hobrace, hcbrace]
    exact horder
  · exact heach

/-! ## Modules -/

/-- The name under which an import is known is a name. -/
theorem NamedIn.isNameText {used : List Token} {d : Import} (h : NamedIn used d)
    (hstands : ∀ t ∈ used, t.Stands text) : IsNameText d.localName.toList := by
  obtain ⟨⟨hne, hpath⟩, halias⟩ := h
  cases ha : d.alias? with
  | some a =>
    obtain ⟨t, ht, hname, htext⟩ := halias a ha
    have := ((hstands t ht).name hname).dropQuotes
    rw [Import.localName, ha, Option.getD_some, ← htext]
    refine Or.inl ?_
    rwa [String.toList_ofList]
  | none =>
    have hlast := List.getLast?_eq_some_getLast hne
    obtain ⟨t, ht, hname, htext⟩ := hpath _ (List.getLast_mem hne)
    have := (hstands t ht).name hname
    rw [Import.localName, ha, Option.getD_none, hlast, Option.getD_some, ← htext]
    exact this

theorem declaration_laid {first : Token} {tail rest : List Token} {d : Option Decl}
    (h : declaration text first tail = .ok (d, rest)) (hl : Laid text lo (first :: tail) hi) :
    (∀ x ∈ d, x.WellRead text) ∧
      ∃ mid, InOrder text lo (d.toList.map (·.span)) mid ∧ Laid text mid rest hi := by
  obtain ⟨quals, w, hsplit, hq⟩ := qualified_of_tokens (first :: tail)
  have hfirst : (quals ++ w).head? = some first := by rw [← hsplit]; rfl
  rw [hsplit] at hl
  -- what is kept reaches from the first token to a token of its own
  have hspan : ∀ keyword body semi, w = keyword :: (body ++ semi :: rest) →
      Span.Fits text lo semi.stop ⟨first.start, semi.stop⟩ ∧ Laid text semi.stop rest hi := by
    rintro keyword body semi rfl
    have hsplit' : quals ++ keyword :: (body ++ semi :: rest) =
        (quals ++ keyword :: body) ++ semi :: rest := by simp
    rw [hsplit'] at hl hfirst
    exact hl.spanTo hfirst
  cases (declaration_eq_ok_iff hq hsplit).1 h with
  | importDecl hquals hw hi =>
    obtain ⟨keyword, body, semi, rfl, -, hs, hnamed, -⟩ := importDecl_reads hi
    obtain ⟨hfit, hrest⟩ := hspan keyword body semi rfl
    subst hquals
    obtain ⟨rfl, -⟩ := List.cons.inj hsplit
    rw [← hs] at hfit
    refine ⟨?_, semi.stop, .cons hfit (Nat.le_refl _), hrest⟩
    rintro x ⟨rfl⟩
    exact hnamed.isNameText fun t ht => hl.stands (by simp [ht])
  | listenerDecl hw hlis =>
    obtain ⟨keyword, body, semi, rfl, -, hs, -⟩ := listenerDecl_reads hlis
    obtain ⟨hfit, hrest⟩ := hspan keyword body semi rfl
    rw [← hs] at hfit
    refine ⟨?_, semi.stop, .cons hfit (Nat.le_refl _), hrest⟩
    rintro x ⟨rfl⟩
    trivial
  | serviceDecl hw hc hserv =>
    obtain ⟨hfit, hwell, hrest⟩ := serviceDecl_laid hserv hfirst hl
    refine ⟨?_, _, .cons hfit (Nat.le_refl _), hrest⟩
    rintro x ⟨rfl⟩
    exact hwell
  | other hi hlis hs hcon =>
    obtain ⟨used, rfl, -⟩ := construct_reads hcon
    rw [← List.append_assoc] at hl
    obtain ⟨mid, hused, hrest⟩ := laid_append.1 hl
    refine ⟨?_, mid, hused.le, hrest⟩
    rintro x ⟨⟩

theorem declarations_laid {tokens : List Token} {ds : List Decl} (h : declarations text tokens = .ok ds)
    (hl : Laid text lo tokens hi) :
    InOrder text lo (ds.map (·.span)) hi ∧ ∀ d ∈ ds, d.WellRead text := by
  fun_induction declarations text tokens generalizing ds lo with
  | case1 =>
    cases h
    exact ⟨hl, by simp⟩
  | case2 => cases h
  | case3 t tail hat rest hstep _ ih =>
    obtain ⟨used, hused, -, -⟩ := annotationStep_reads hstep
    rw [hused] at hl
    obtain ⟨mid, hl₁, hl₂⟩ := laid_append.1 hl
    exact ih h (hl₂.mono hl₁.le)
  | case4 => cases h
  | case5 => cases h
  | case6 t tail hat d rest hdecl _ ds' hrec ih =>
    cases h
    obtain ⟨hwell, mid, horder, hrest⟩ := declaration_laid hdecl hl
    obtain ⟨horder', hwell'⟩ := ih hrec hrest
    refine ⟨by rw [List.map_append]; exact horder.append horder', ?_⟩
    intro x hx
    rcases List.mem_append.1 hx with hx | hx
    · exact hwell x (Option.mem_toList.1 hx)
    · exact hwell' x hx

end Parse

/-- The declarations of a text stand in it one after the other, and each is well read. -/
theorem Module.parse_laid {text : List Char} {m : Module} (h : Module.parse text = .ok m) :
    InOrder text 0 (m.decls.map (·.span)) (Text.size text) ∧ ∀ d ∈ m.decls, d.WellRead text := by
  obtain ⟨tokens, htok, hdecls⟩ := Module.parse_eq_ok h
  exact Parse.declarations_laid hdecls (tokenize_laid htok)

theorem Module.mem_imports {m : Module} {i : Import} : i ∈ m.imports ↔ .importDecl i ∈ m.decls := by
  rw [Module.imports, List.mem_filterMap]
  constructor
  · rintro ⟨d, hd, hi⟩
    cases d <;> cases hi
    exact hd
  · exact fun h => ⟨_, h, rfl⟩

theorem Module.mem_listeners {m : Module} {l : Listener} : l ∈ m.listeners ↔ .listenerDecl l ∈ m.decls := by
  rw [Module.listeners, List.mem_filterMap]
  constructor
  · rintro ⟨d, hd, hl⟩
    cases d <;> cases hl
    exact hd
  · exact fun h => ⟨_, h, rfl⟩

theorem Module.mem_services {m : Module} {s : Service} :
    s ∈ m.services ↔ .serviceDecl s ∈ m.decls := by
  rw [Module.services, List.mem_filterMap]
  constructor
  · rintro ⟨d, hd, hs⟩
    cases d <;> cases hs
    exact hd
  · exact fun h => ⟨_, h, rfl⟩

end ServiceLint
