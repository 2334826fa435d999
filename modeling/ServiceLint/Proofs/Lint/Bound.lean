import ServiceLint.Lint.Binding
import ServiceLint.Proofs.Source.Parse.Headers

/-!
# Which services are bound

A service is bound through one of the expressions that it is attached to: one that creates the configured listener,
or a single token that names a listener of that type (`Binding.Attaches`). The first listener of a name counts. Its
type is the declared one; a listener that declares no type name has the type that its initial value is created with.
`Binding.isBound_tokens` says so in terms of the tokens of the file.
-/
namespace ServiceLint

open Parse

/-! ## What binds a service -/

/-- The first listener that is written with the name. -/
def Module.FirstNamed (tokens : List Token) (m : Module) (name : String) (d : Listener) : Prop :=
  ∃ before after, m.listeners = before ++ d :: after ∧ d.nameText? tokens = some name ∧
    ∀ e ∈ before, e.nameText? tokens ≠ some name

/-- The listener declares the type, or it declares no type name and its initial value starts with `new` and the
type. -/
def Listener.HasType (tokens : List Token) (qualifier name : String) (d : Listener) : Prop :=
  IsTypeName qualifier name (d.typeTokens tokens) ∨
    ¬ IsPlainType (d.typeTokens tokens) ∧ ∃ rest, StartsNew qualifier name (d.initTokens tokens) rest

/-- The expression creates the configured listener, with or without arguments, or it is one token that names a
listener of that type. The condition says which tokens are names. -/
def Binding.Attaches (b : Binding) (tokens : List Token) (isId : Token → Prop) (ts : List Token) : Prop :=
  (∃ rest, StartsNew b.qualifier b.config.listener ts rest ∧ ∀ t ∈ rest.head?, t.text = "(") ∨
    ∃ id d, ts = [id] ∧ isId id ∧ b.file.module.FirstNamed tokens id.text d ∧
      d.HasType tokens b.qualifier b.config.listener

/-! ## Listeners -/

section

variable {text : List Char} {tokens : List Token} {m : Module}

theorem Listener.Written.type_isQualified {d : Listener} {qualifier name : String} (h : d.Written tokens)
    (htok : tokenize text = .ok tokens) :
    d.type.any (·.isQualified qualifier name) = true ↔ d.HasType tokens qualifier name := by
  rw [Listener.type, Listener.HasType, ← typeRef?_eq_none, ← typeRef?_isQualified, ← h.declaredType,
    ← initialType_isQualified htok h.init_infix, ← h.initType]
  cases d.declaredType <;> simp

/-- Looking up a name finds the first listener that is written with it. -/
theorem Module.listener?_eq_some_iff {name : String} {d : Listener} (hm : Module.parse text = .ok m)
    (htok : tokenize text = .ok tokens) : m.listener? name = some d ↔ m.FirstNamed tokens name d := by
  have hname : ∀ e ∈ m.listeners, (e.nameText? tokens = some name ↔ e.name = name) := by
    intro e he
    rw [(Module.parse_listener hm htok he).name, Option.some.injEq]
  rw [Module.listener?, List.find?_eq_some_iff_append]
  constructor
  · rintro ⟨hd, before, after, hsplit, hbefore⟩
    refine ⟨before, after, hsplit, (hname d (by simp [hsplit])).2 (by simpa using hd), fun e he hwritten => ?_⟩
    have hother := hbefore e he
    simp [(hname e (by simp [hsplit, he])).1 hwritten] at hother
  · rintro ⟨before, after, hsplit, hd, hbefore⟩
    refine ⟨by simpa using (hname d (by simp [hsplit])).1 hd, before, after, hsplit, fun e he => ?_⟩
    have hother := mt (hname e (by simp [hsplit, he])).2 (hbefore e he)
    simpa using hother

end

/-! ## Attach points -/

/-- What is created has the type when the type stands before the arguments. -/
theorem typeRef?_takeWhile {qualifier name : String} {more : List Token}
    (hparen : ∀ t ∈ more, t.isName = true → t.text ≠ "(") :
    (typeRef? (more.takeWhile (·.text != "("))).any (·.isQualified qualifier name) = true ↔
      ∃ type rest, more = type ++ rest ∧ IsTypeName qualifier name type ∧ ∀ t ∈ rest.head?, t.text = "(" := by
  rw [typeRef?_isQualified]
  constructor
  · intro h
    refine ⟨_, _, List.takeWhile_append_dropWhile.symm, h, fun t ht => ?_⟩
    obtain ⟨rest, hrest⟩ := List.head?_eq_some_iff.1 ht
    simpa using dropWhile_cons_neg hrest
  · rintro ⟨type, rest, rfl, htype, hrest⟩
    have hall : ∀ t ∈ type, (t.text != "(") = true := by
      intro t ht
      rw [bne_iff_ne]
      obtain ⟨hq, -, hcolon, hn, -⟩ := htype
      simp only [List.mem_cons, List.not_mem_nil, or_false] at ht
      rcases ht with rfl | rfl | rfl
      · exact hparen _ (by simp) hq
      · rw [hcolon]
        decide
      · exact hparen _ (by simp) hn
    rwa [takeWhile_stretch hall fun t ht => by simpa using hrest t ht]

section

variable {b : Binding} {first : Token} {more : List Token}

theorem startsNew_iff {qualifier name : String} {P : List Token → Prop} :
    (∃ rest, StartsNew qualifier name (first :: more) rest ∧ P rest) ↔
      first.text = "new" ∧ ∃ type rest, more = type ++ rest ∧ IsTypeName qualifier name type ∧ P rest := by
  constructor
  · rintro ⟨rest, ⟨htext, htype⟩, hrest⟩
    exact ⟨htext, _, rest, rfl, htype, hrest⟩
  · rintro ⟨htext, type, rest, rfl, htype, hrest⟩
    exact ⟨rest, .mk htext htype, hrest⟩

/-- How the tokens of an expression decide whether it attaches to the configured listener. -/
theorem Binding.isListenerAt_classify (hparen : ∀ t ∈ more, t.isName = true → t.text ≠ "(") :
    b.isListenerAt (classify first more) = true ↔
      (∃ rest, StartsNew b.qualifier b.config.listener (first :: more) rest ∧ ∀ t ∈ rest.head?, t.text = "(") ∨
      more = [] ∧ first.kind = .ident ∧ ∃ d, b.file.module.listener? first.text = some d ∧
        d.type.any (·.isQualified b.qualifier b.config.listener) = true := by
  rw [startsNew_iff, ← typeRef?_takeWhile hparen]
  by_cases hsingle : more = [] ∧ first.kind = .ident
  · obtain ⟨rfl, hkind⟩ := hsingle
    have hclass : b.isListenerAt (classify first []) =
        ((b.file.module.listener? first.text).bind (·.type)).any b.isListener := by
      simp [classify, hkind, Binding.isListenerAt]
    have hlone : (typeRef? (([] : List Token).takeWhile (·.text != "("))).any
        (·.isQualified b.qualifier b.config.listener) = false := rfl
    rw [hclass, hlone]
    cases b.file.module.listener? first.text with
    | none => simp
    | some d =>
      have heta : d.type.any b.isListener = d.type.any (·.isQualified b.qualifier b.config.listener) := rfl
      simp [hkind, heta]
  · have hclass : b.isListenerAt (classify first more) = (decide (first.text = "new") &&
        (typeRef? (more.takeWhile (·.text != "("))).any (·.isQualified b.qualifier b.config.listener)) := by
      have hmany : (more.isEmpty && first.kind == .ident) = false := by
        rw [Bool.eq_false_iff]
        intro h
        exact hsingle (by simpa using h)
      by_cases hfirst : first.text = "new"
      · simp [classify, hmany, hfirst, Binding.isListenerAt]
        rfl
      · simp [classify, hmany, hfirst, Binding.isListenerAt]
    rw [hclass, Bool.and_eq_true, decide_eq_true_eq]
    refine ⟨Or.inl, fun h => h.resolve_right ?_⟩
    rintro ⟨hmore, hkind, -⟩
    exact hsingle ⟨hmore, hkind⟩

end

/-! ## Services -/

section

variable {name : String} {text : List Char} {file : SourceFile} {tokens : List Token} {config : Config} {b : Binding}
  {s : Service}

/-- An attach point of a file attaches to the configured listener when its tokens do. -/
theorem Binding.isListenerAt_iff {a : AttachPoint} (hm : Module.parse text = .ok b.file.module)
    (htok : tokenize text = .ok tokens) (hs : s ∈ b.file.module.services) (ha : a ∈ s.attachPoints) :
    b.isListenerAt a = true ↔ b.Attaches tokens (·.kind = .ident) (within a.span tokens) := by
  obtain ⟨first, more, hspan, hin, rfl⟩ := Module.parse_attachPoint hm htok hs ha
  have hparen : ∀ t ∈ more, t.isName = true → t.text ≠ "(" := by
    intro t ht hname htext
    have hstands := (tokenize_laid htok).stands (hin.subset (List.mem_cons_of_mem _ ht))
    have hchars := hstands.name hname
    rw [Token.chars, htext] at hchars
    exact hchars.notMem (c := '(') (by decide) (by decide) (by decide)
  rw [Binding.isListenerAt_classify hparen, Binding.Attaches, hspan]
  refine or_congr_right ⟨?_, ?_⟩
  · rintro ⟨rfl, hkind, d, hd, htype⟩
    have hfirst := (Module.listener?_eq_some_iff hm htok).1 hd
    have hmem : d ∈ b.file.module.listeners := List.mem_of_find?_eq_some hd
    exact ⟨first, d, rfl, hkind, hfirst, ((Module.parse_listener hm htok hmem).type_isQualified htok).1 htype⟩
  · rintro ⟨id, d, hsingle, hkind, hfirst, htype⟩
    obtain ⟨rfl, rfl⟩ := List.cons.inj hsingle
    have hd := (Module.listener?_eq_some_iff hm htok).2 hfirst
    have hmem : d ∈ b.file.module.listeners := List.mem_of_find?_eq_some hd
    exact ⟨rfl, hkind, d, hd, ((Module.parse_listener hm htok hmem).type_isQualified htok).2 htype⟩

theorem StartsNew.exists_typeName {qualifier name : String} {ts rest : List Token}
    (h : StartsNew qualifier name ts rest) : ∃ type, type <:+: ts ∧ IsTypeName qualifier name type := by
  cases h with
  | @mk new type _ _ htype => exact ⟨type, ⟨[new], rest, by simp⟩, htype⟩

/-- A file with a bound service has the type of the configured listener written somewhere. -/
theorem Binding.exists_typeName (hm : Module.parse text = .ok b.file.module) (htok : tokenize text = .ok tokens)
    (hs : s ∈ b.file.module.services) (hbound : b.isBound s = true) :
    ∃ type, type <:+: tokens ∧ IsTypeName b.qualifier b.config.listener type := by
  rw [Binding.isBound, List.any_eq_true] at hbound
  obtain ⟨a, ha, hat⟩ := hbound
  obtain ⟨first, more, hspan, hin, -⟩ := Module.parse_attachPoint hm htok hs ha
  rcases (Binding.isListenerAt_iff hm htok hs ha).1 hat with ⟨rest, hnew, -⟩ | ⟨id, d, -, -, hfirst, htype⟩
  · obtain ⟨type, htype, hname⟩ := hnew.exists_typeName
    rw [hspan] at htype
    exact ⟨type, htype.trans hin, hname⟩
  · obtain ⟨before, after, hsplit, -⟩ := hfirst
    have hwritten := Module.parse_listener hm htok (d := d) (by simp [hsplit])
    rcases htype with hname | ⟨-, rest, hnew⟩
    · exact ⟨_, hwritten.type_infix, hname⟩
    · obtain ⟨type, htype, hname⟩ := hnew.exists_typeName
      exact ⟨type, htype.trans hwritten.init_infix, hname⟩

/-- A service is bound when one of its expressions attaches to the configured listener, names being written without
a quote, and it is bound only if one does. -/
theorem Binding.isBound_tokens (hparse : SourceFile.parse name text = .ok file)
    (htok : tokenize text = .ok tokens) (hb : Binding.resolve file config = some b)
    (hs : s ∈ file.module.services) :
    ((∃ a ∈ s.attachPoints, b.Attaches tokens (·.kind = .ident) (within a.span tokens)) → b.isBound s = true) ∧
      (b.isBound s = true → ∃ a ∈ s.attachPoints, b.Attaches tokens (·.isName = true) (within a.span tokens)) := by
  obtain ⟨m, hm, rfl⟩ := SourceFile.parse_eq_ok hparse
  obtain ⟨i, -, rfl⟩ := Option.map_eq_some_iff.1 hb
  rw [Binding.isBound, List.any_eq_true]
  refine ⟨?_, ?_⟩
  · rintro ⟨a, ha, hattaches⟩
    exact ⟨a, ha, (Binding.isListenerAt_iff hm htok hs ha).2 hattaches⟩
  · rintro ⟨a, ha, hat⟩
    refine ⟨a, ha, ?_⟩
    rcases (Binding.isListenerAt_iff hm htok hs ha).1 hat with hnew | ⟨id, d, hsingle, hkind, hfirst, htype⟩
    · exact Or.inl hnew
    · exact Or.inr ⟨id, d, hsingle, by simp [Token.isName, hkind], hfirst, htype⟩

/-- The file of a listener that declares a type of its own and is created as the configured one. The first service
names it, the second one creates a listener without arguments. -/
theorem exists_declared_otherwise : ∃ text file tokens b d s s',
    text = "import ballerina/mqtt;listener T l=new mqtt:Listener();service on l\x7b\x7d".toList ++
      "service on new mqtt:Listener\x7b\x7d".toList ∧
    SourceFile.parse "m.bal" text = .ok file ∧ tokenize text = .ok tokens ∧
    Binding.resolve file {} = some b ∧ b.qualifier = "mqtt" ∧ file.module.listeners = [d] ∧ d.name = "l" ∧
    d.initType = some ⟨some "mqtt", "Listener"⟩ ∧ file.module.services = [s, s'] ∧
    (s.attachPoints.map fun a => (within a.span tokens).map (·.text)) = [["l"]] ∧
    b.isBound s = false ∧ b.isBound s' = true := by
  generalize htext : "import ballerina/mqtt;listener T l=new mqtt:Listener();service on l\x7b\x7d".toList ++
      "service on new mqtt:Listener\x7b\x7d".toList = text
  have hchars : text = _ ++ _ := htext.symm.trans (congrArg₂ _ String.toList_ofList String.toList_ofList)
  have hcheck : ((SourceFile.parse "m.bal" text).toOption.bind fun file => (tokenize text).toOption.bind fun tokens =>
      (Binding.resolve file {}).filter fun b => b.qualifier = "mqtt" ∧
        file.module.listeners.map (fun d => (d.name, d.initType)) = [("l", some ⟨some "mqtt", "Listener"⟩)] ∧
        file.module.services.map (fun s => (s.attachPoints.map fun a => (within a.span tokens).map (·.text),
          b.isBound s)) = [([["l"]], false), ([["new", "mqtt", ":", "Listener"]], true)]).isSome = true := by
    rw [hchars]
    decide +kernel
  obtain ⟨b, hcheck⟩ := Option.isSome_iff_exists.1 hcheck
  obtain ⟨file, hparse, hcheck⟩ := Option.bind_eq_some_iff.1 hcheck
  obtain ⟨tokens, htok, hcheck⟩ := Option.bind_eq_some_iff.1 hcheck
  obtain ⟨hb, hfacts⟩ := Option.filter_eq_some_iff.1 hcheck
  obtain ⟨hq, hlisteners, hservices⟩ := of_decide_eq_true hfacts
  obtain ⟨d, hlisteners, hd⟩ := List.map_eq_singleton_iff.1 hlisteners
  obtain ⟨s, ss, hservices, hs, hss⟩ := List.map_eq_cons_iff.1 hservices
  obtain ⟨s', rfl, hs'⟩ := List.map_eq_singleton_iff.1 hss
  obtain ⟨hname, hinit⟩ := Prod.mk.inj hd
  obtain ⟨hpoints, hunbound⟩ := Prod.mk.inj hs
  exact ⟨text, file, tokens, b, d, s, s', rfl, eq_ok_of_toOption hparse, eq_ok_of_toOption htok, hb, hq,
    hlisteners, hname, hinit, hservices, hpoints, hunbound, (Prod.mk.inj hs').2⟩

/-- A listener that is created in place binds its service without arguments too. -/
theorem Binding.isBound_tokens_created : ∃ text file tokens b s,
    text = "import ballerina/mqtt;listener T l=new mqtt:Listener();service on l\x7b\x7d".toList ++
      "service on new mqtt:Listener\x7b\x7d".toList ∧
    SourceFile.parse "m.bal" text = .ok file ∧ tokenize text = .ok tokens ∧ Binding.resolve file {} = some b ∧
    s ∈ file.module.services ∧ b.isBound s = true ∧
    ∃ a ∈ s.attachPoints, b.Attaches tokens (·.isName = true) (within a.span tokens) := by
  obtain ⟨text, file, tokens, b, d, s, s', htext, hparse, htok, hb, -, -, -, -, hservices, -, -, hbound⟩ :=
    exists_declared_otherwise
  have hs : s' ∈ file.module.services := by simp [hservices]
  exact ⟨text, file, tokens, b, s', htext, hparse, htok, hb, hs, hbound,
    (Binding.isBound_tokens hparse htok hb hs).2 hbound⟩

/-- The declared type counts, even if the listener is created as the configured one. -/
theorem Binding.isBound_declared : ∃ text file tokens b s a id d,
    text = "import ballerina/mqtt;listener T l=new mqtt:Listener();service on l\x7b\x7d".toList ++
      "service on new mqtt:Listener\x7b\x7d".toList ∧
    SourceFile.parse "m.bal" text = .ok file ∧ tokenize text = .ok tokens ∧ Binding.resolve file {} = some b ∧
    s ∈ file.module.services ∧ a ∈ s.attachPoints ∧ within a.span tokens = [id] ∧
    file.module.FirstNamed tokens id.text d ∧
    (∃ rest, StartsNew b.qualifier b.config.listener (d.initTokens tokens) rest) ∧ b.isBound s = false := by
  obtain ⟨text, file, tokens, b, d, s, s', htext, hparse, htok, hb, hq, hlisteners, hname, hinit, hservices, hpoints,
    hunbound, -⟩ := exists_declared_otherwise
  obtain ⟨m, hm, rfl⟩ := SourceFile.parse_eq_ok hparse
  obtain ⟨a, hpoint, hspan⟩ := List.map_eq_singleton_iff.1 hpoints
  obtain ⟨id, hid, htoken⟩ := List.map_eq_singleton_iff.1 hspan
  have hwritten := Module.parse_listener hm htok (d := d) (by simp [hlisteners])
  have hconfig : b.config.listener = "Listener" := by
    obtain ⟨i, -, rfl⟩ := Option.map_eq_some_iff.1 hb
    rfl
  refine ⟨text, _, tokens, b, s, a, id, d, htext, hparse, htok, hb, by simp [hservices], by simp [hpoint], hid,
    ⟨[], [], hlisteners, ?_, by simp⟩, ?_, hunbound⟩
  · rw [hwritten.name, hname, htoken]
  · rw [← initialType_isQualified htok hwritten.init_infix, ← hwritten.initType, hinit, hq, hconfig]
    decide

end

end ServiceLint
