import ServiceLint.Proofs.Source.Parse.Headers
import ServiceLint.Proofs.Source.Parse.Params

/-!
# Where names come from

The names that a module keeps are texts of its identifiers (`SourceFile.parse_named`). A name is checked where it
is read as the next token, and where it is the last token before an equals sign. The name of a listener is the
exception: it is the last token before the first equals sign, whatever that token is, so that a number can name a
listener (`SourceFile.parse_listener_number`).
-/
namespace ServiceLint

/-- The text is that of an identifier among the tokens, quoted or not. -/
def NamedBy (tokens : List Token) (s : String) : Prop := ∃ t ∈ tokens, t.isName = true ∧ t.text = s

instance (tokens : List Token) (s : String) : Decidable (NamedBy tokens s) :=
  inferInstanceAs (Decidable (∃ t ∈ tokens, t.isName = true ∧ t.text = s))

theorem NamedBy.mono {tokens tokens' : List Token} {s : String} (h : NamedBy tokens s) (hin : tokens ⊆ tokens') :
    NamedBy tokens' s := by
  obtain ⟨t, ht, hname⟩ := h
  exact ⟨t, hin ht, hname⟩

/-- The text is that of an identifier among the tokens, without its leading quote if it has one. -/
def UnquotedBy (tokens : List Token) (s : String) : Prop :=
  ∃ t ∈ tokens, t.kind = .ident ∧ t.text = s ∨ t.kind = .quotedIdent ∧ t.text = "\x27" ++ s

structure Import.Named (tokens : List Token) (i : Import) : Prop where
  org : ∀ o ∈ i.org, NamedBy tokens o
  path : ∀ n ∈ i.path, NamedBy tokens n
  alias? : ∀ a ∈ i.alias?, UnquotedBy tokens a

/-- The name of a listener is the last token before the first equals sign. It is an identifier when that token is
one, and not otherwise. -/
def Listener.Named (tokens : List Token) (d : Listener) : Prop :=
  ∃ t ∈ tokens, (d.header tokens).getLast? = some t ∧ d.name = t.text ∧ (NamedBy tokens d.name ↔ t.isName = true)

/-- The name of a function is an identifier unless it is the path of a resource, and so are the names of its
parameters and of a field that has one. -/
def Member.Named (tokens : List Token) (m : Member) : Prop :=
  match m.body with
  | .method f => ("resource" ∉ f.qualifiers → NamedBy tokens f.name) ∧ ∀ p ∈ f.params, NamedBy tokens p.name
  | .field name => ∀ n ∈ name, NamedBy tokens n

/-- The names in a declaration are identifiers; those of listeners are where their tokens are. -/
def Decl.Named (tokens : List Token) : Decl → Prop
  | .importDecl i => i.Named tokens
  | .listenerDecl d => d.Named tokens
  | .serviceDecl s => ∀ m ∈ s.members, m.Named tokens

theorem Member.Named.mono {tokens tokens' : List Token} {m : Member} (h : m.Named tokens) (hin : tokens ⊆ tokens') :
    m.Named tokens' := by
  obtain ⟨span, f | name⟩ := m
  · exact ⟨fun hr => (h.1 hr).mono hin, fun p hp => (h.2 p hp).mono hin⟩
  · exact fun n hn => NamedBy.mono (h n hn) hin

/-! ## The texts of identifiers -/

/-- The text of a token says whether it is an identifier. -/
theorem isName_of_text {text : List Char} {tokens : List Token} {t u : Token} (htok : tokenize text = .ok tokens)
    (ht : t ∈ tokens) (hu : u ∈ tokens) (hname : u.isName = true) (htext : u.text = t.text) : t.isName = true := by
  obtain ⟨_, _, _, _, -, -, -, -, hlexes⟩ := (scan_eq_ok_iff.1 htok).mem_lexes ht
  have hchars : u.chars = t.chars := by rw [Token.chars, Token.chars, htext]
  have hstands := (tokenize_laid htok).stands hu
  have hkind := hlexes.kind_of_isNameText (hchars ▸ hstands.name hname)
  simpa [Token.isName] using hkind

/-- An identifier has at most one quote to leave out. -/
theorem unquotedBy_of_isName {text : List Char} {tokens : List Token} {t : Token} (htok : tokenize text = .ok tokens)
    (ht : t ∈ tokens) (hname : t.isName = true) :
    UnquotedBy tokens (String.ofList (t.text.toList.dropWhile (· == '\x27'))) := by
  obtain ⟨_, _, _, _, -, -, -, -, hlexes⟩ := (scan_eq_ok_iff.1 htok).mem_lexes ht
  have hshape := hlexes.shape
  have hkind : t.kind = .ident ∨ t.kind = .quotedIdent := by simpa [Token.isName] using hname
  refine ⟨t, ht, ?_⟩
  rcases hkind with hkind | hkind
  · rw [hkind] at hshape
    have hident : IsIdentifier t.text.toList := hshape.1
    exact Or.inl ⟨hkind, by rw [hident.dropQuotes, String.ofList_toList]⟩
  · rw [hkind] at hshape
    obtain ⟨word, hchars, hword, -⟩ := hshape
    have htext : t.text.toList = '\x27' :: word := hchars
    refine Or.inr ⟨hkind, ?_⟩
    rw [htext, List.dropWhile_cons_of_pos (by rfl), hword.dropQuotes, ← String.toList_inj, htext]
    simp

namespace Parse

variable {text : List Char} {tokens rest : List Token}

/-! ## Imports -/

theorem orgPart_org {first : Token} {p : Option String × String} (h : orgPart first tokens = .ok (p, rest)) :
    ∀ o ∈ p.1, o = first.text := by
  unfold orgPart at h
  split at h
  · obtain ⟨_, -, h⟩ := bind_eq_ok.1 h
    cases h
    rintro o ⟨rfl⟩
    rfl
  · cases h
    simp

/-- The organisation is the token after the keyword. -/
theorem importDecl_org {d : Import} (h : importDecl tokens = .ok (d, rest)) : ∀ o ∈ d.org, NamedBy tokens o := by
  obtain ⟨⟨keyword, r₁⟩, h₁, h⟩ := bind_eq_ok.1 h
  obtain ⟨⟨first, r₂⟩, h₂, h⟩ := bind_eq_ok.1 h
  obtain ⟨⟨⟨org, head⟩, r₃⟩, h₃, h⟩ := bind_eq_ok.1 h
  obtain ⟨_, -, h⟩ := bind_eq_ok.1 h
  obtain ⟨_, -, h⟩ := bind_eq_ok.1 h
  obtain ⟨_, -, h⟩ := bind_eq_ok.1 h
  cases h
  obtain ⟨rfl, -⟩ := expect_eq_ok.1 h₁
  obtain ⟨rfl, hfirst⟩ := expectName_eq_ok.1 h₂
  intro o ho
  obtain rfl := orgPart_org h₃ o ho
  exact ⟨first, by simp, hfirst, rfl⟩

theorem importDecl_named {all : List Token} {d : Import} (htok : tokenize text = .ok all) (hin : tokens ⊆ all)
    (h : importDecl tokens = .ok (d, rest)) : d.Named all := by
  have horg := importDecl_org h
  obtain ⟨keyword, body, semi, rfl, -, -, ⟨⟨-, hpath⟩, halias⟩, -⟩ := importDecl_reads h
  have hbody : body ⊆ all := fun t ht => hin (by simp [ht])
  refine ⟨fun o ho => (horg o ho).mono hin, fun n hn => NamedBy.mono (hpath n hn) hbody, fun a ha => ?_⟩
  obtain ⟨t, ht, hname, rfl⟩ := halias a ha
  exact unquotedBy_of_isName htok (hbody ht) hname

/-! ## Members -/

/-- The last token names a field if it is an identifier. -/
theorem namedBy_of_filter {last : Option Token} {n : String}
    (h : (last.filter (·.isName)).map (·.text) = some n) : NamedBy (last.toList ++ tokens) n := by
  obtain ⟨t, ht, rfl⟩ := Option.map_eq_some_iff.1 h
  obtain ⟨rfl, hname⟩ := Option.filter_eq_some_iff.1 ht
  exact ⟨t, by simp, hname, rfl⟩

theorem fieldName_namedBy {last : Option Token} {depth : Nat} {n : String}
    (h : fieldName last depth tokens = some n) : NamedBy (last.toList ++ tokens) n := by
  induction tokens generalizing last depth with
  | nil => exact namedBy_of_filter h
  | cons t ts ih =>
    have hnext : ∀ {depth : Nat}, fieldName (some t) depth ts = some n → NamedBy (last.toList ++ t :: ts) n :=
      fun h => (ih h).mono (by simp)
    unfold fieldName at h
    split at h
    · exact hnext h
    · split at h
      · exact hnext h
      · split at h
        · exact namedBy_of_filter h
        · exact hnext h

theorem field_named {first : Token} {m : Member} (h : field first tokens = .ok (m, rest)) : m.Named tokens := by
  obtain ⟨body, semi, rfl, -, rfl, -⟩ := field_reads h
  intro n hn
  have hbody : NamedBy body n := fieldName_namedBy hn
  exact hbody.mono (by simp)

/-- The name of a parameter is one of the tokens that it is read from. -/
theorem param?_named {p : Param} (h : param? text tokens = .ok (some p)) : NamedBy tokens p.name := by
  rcases param?_eq_ok h with ⟨-, hnone⟩ | ⟨_, _, name, typeLast, front, -, -, htake, hname, -, hp⟩
  · cases hnone
  · obtain rfl := Option.some.inj hp
    have hmem : name ∈ tokens.takeWhile (!·.isPunct "=") := by simp [htake]
    exact ⟨name, List.takeWhile_subset _ hmem, hname, rfl⟩

theorem function_named {first : Token} {quals : List String} {m : Member}
    (h : function text first quals tokens = .ok (m, rest)) : m.Named tokens := by
  obtain ⟨⟨keyword, r₁⟩, h₁, h⟩ := bind_eq_ok.1 h
  obtain ⟨⟨name, r₂⟩, h₂, h⟩ := bind_eq_ok.1 h
  obtain ⟨⟨path, r₃⟩, h₃, h⟩ := bind_eq_ok.1 h
  obtain ⟨⟨⟨ps, span⟩, r₄⟩, h₄, h⟩ := bind_eq_ok.1 h
  obtain ⟨_, -, h⟩ := bind_eq_ok.1 h
  cases h
  obtain ⟨rfl, -⟩ := expect_eq_ok.1 h₁
  obtain ⟨rfl, hname⟩ := expectName_eq_ok.1 h₂
  obtain ⟨rfl, -⟩ := nameTail_reads h₃
  refine ⟨fun hresource => ?_, fun p hp => ?_⟩
  · have hnil : path = [] := by
      rw [nameTail, if_neg (by simpa using hresource)] at h₃
      exact (Prod.mk.inj (Except.ok.inj h₃)).1.symm
    subst hnil
    exact ⟨name, by simp, hname, by simp⟩
  · obtain ⟨⟨openParen, r₅⟩, h₅, h⟩ := bind_eq_ok.1 h₄
    obtain ⟨⟨ps', close, r₆⟩, h₆, h⟩ := bind_eq_ok.1 h
    cases h
    obtain ⟨rfl, -⟩ := expect_eq_ok.1 h₅
    obtain ⟨before, part, after, rfl, hpart, -⟩ := paramsTail_mem h₆ hp
    exact (param?_named hpart).mono (fun t ht => by simp [ht])

theorem member_named {m : Member} (h : member text tokens = .ok (m, rest)) : m.Named tokens := by
  obtain ⟨notes, quals, t, more, first, -, rfl, -, -, hbody⟩ := member_cases h
  have hin : t :: more ⊆ notes ++ (quals ++ t :: more) := fun u hu => by simp_all
  rcases hbody with ⟨-, hbody⟩ | ⟨-, hbody⟩
  · exact (function_named hbody).mono hin
  · exact (field_named hbody).mono hin

theorem members_named {ms : List Member} {close : Token} (h : members text tokens = .ok (ms, close, rest)) :
    ∀ m ∈ ms, m.Named tokens := by
  fun_induction members text tokens generalizing ms with
  | case1 => cases h
  | case2 => cases h; simp
  | case3 => cases h
  | case4 => cases h
  | case5 t tail hclose m r hmember _ ms close rest' hrec ih =>
    cases h
    obtain ⟨used, hused, -⟩ := member_reads hmember
    refine List.forall_mem_cons.2 ⟨member_named hmember, fun m' hm' => ?_⟩
    exact (ih hrec m' hm').mono (hused ▸ List.subset_append_right used r)

end Parse

open Parse

/-! ## Modules -/

theorem within_subset (s : Span) (tokens : List Token) : within s tokens ⊆ tokens :=
  List.filter_sublist.subset

/-- The tokens before the name of a listener are tokens of the text. -/
theorem Listener.header_subset (tokens : List Token) (d : Listener) : d.header tokens ⊆ tokens := by
  intro t ht
  have hbody := List.mem_of_mem_tail ((List.takeWhile_subset _) ht)
  exact within_subset _ _ ((List.dropWhile_subset _) hbody)

section

variable {text : List Char} {tokens : List Token}

theorem Listener.Written.named {d : Listener} (h : d.Written tokens) (htok : tokenize text = .ok tokens) :
    d.Named tokens := by
  obtain ⟨t, hlast, htext⟩ := Option.map_eq_some_iff.1 h.name
  have ht : t ∈ tokens := d.header_subset tokens (List.mem_of_getLast? hlast)
  refine ⟨t, ht, hlast, htext.symm, fun ⟨u, hu, hname, hu'⟩ => ?_, fun hname => ⟨t, ht, hname, htext⟩⟩
  exact isName_of_text htok ht hu hname (hu'.trans htext.symm)

theorem Module.named_of_parse {m : Module} (hm : Module.parse text = .ok m) (htok : tokenize text = .ok tokens) :
    ∀ d ∈ m.decls, d.Named tokens := by
  intro decl hd
  obtain ⟨before, first, tail, rest, quals, w, rfl, hw, -, hdeclares⟩ := exists_declaration hm htok hd
  have hin : w ⊆ before ++ first :: tail := by
    rw [hw]
    exact fun t ht => by simp [ht]
  cases hdeclares with
  | importDecl _ _ h => exact importDecl_named htok hin h
  | listenerDecl => exact (Module.parse_listener hm htok (Module.mem_listeners.2 hd)).named htok
  | serviceDecl _ _ h =>
    obtain ⟨p, close, rfl, -, -, -, -, hmembers, -⟩ := serviceDecl_reads h
    exact fun m hmem => (members_named hmembers m hmem).mono fun t ht => hin (by simp_all)

end

/-- In every text that is accepted, the organisation and the segments of an import, the functions that are no
resources, their parameters and the fields are named by identifiers of the text, and an alias is one without its
quote. A listener is named by the last token before its first equals sign, and so by an identifier exactly when
that token is one. -/
theorem SourceFile.parse_named {name : String} {text : List Char} {file : SourceFile}
    (hparse : SourceFile.parse name text = .ok file) :
    ∃ tokens, tokenize text = .ok tokens ∧ ∀ d ∈ file.module.decls, d.Named tokens := by
  obtain ⟨m, hm, rfl⟩ := SourceFile.parse_eq_ok hparse
  obtain ⟨tokens, htok, -⟩ := Module.parse_eq_ok hm
  exact ⟨tokens, htok, Module.named_of_parse hm htok⟩

/-- A file with a quoted alias, in which everything that can have a name has one. -/
theorem SourceFile.parse_named_quoted : ∃ text file,
    text = ("import ballerina/mqtt as 'm;listener 'm:Listener l=new('m);" ++
      "service on l\x7bint n=1;remote function f('m:Message x)\x7b\x7d\x7d").toList ∧
    SourceFile.parse "main.bal" text = .ok file ∧
    file.module.imports.map (fun i => (i.org, i.path, i.alias?)) = [(some "ballerina", ["mqtt"], some "m")] ∧
    file.module.listeners.map (·.name) = ["l"] ∧
    file.module.services.flatMap (fun s => s.members.map (·.name?)) = [some "n", some "f"] ∧
    ∃ tokens, tokenize text = .ok tokens ∧ ∀ d ∈ file.module.decls, d.Named tokens := by
  generalize htext : ("import ballerina/mqtt as 'm;listener 'm:Listener l=new('m);" ++
    "service on l\x7bint n=1;remote function f('m:Message x)\x7b\x7d\x7d").toList = text
  have hchars : text = _ := htext.symm.trans (String.toList_append.trans
    (congrArg₂ (· ++ ·) String.toList_ofList String.toList_ofList))
  have hcheck : ((SourceFile.parse "main.bal" text).toOption.map fun file => decide (
      file.module.imports.map (fun i => (i.org, i.path, i.alias?)) = [(some "ballerina", ["mqtt"], some "m")] ∧
      file.module.listeners.map (·.name) = ["l"] ∧
      file.module.services.flatMap (fun s => s.members.map (·.name?)) = [some "n", some "f"])) = some true := by
    rw [hchars]
    decide +kernel
  obtain ⟨file, hfile, hcheck⟩ := Option.map_eq_some_iff.1 hcheck
  obtain ⟨himports, hlisteners, hmembers⟩ := of_decide_eq_true hcheck
  have hparse := eq_ok_of_toOption hfile
  exact ⟨text, file, rfl, hparse, himports, hlisteners, hmembers, SourceFile.parse_named hparse⟩

/-- A number stands before the equals sign of a listener, and names it. -/
theorem SourceFile.parse_listener_number : ∃ text file tokens d,
    text = "listener mqtt:Listener 1 = new mqtt:Listener();".toList ∧
    SourceFile.parse "main.bal" text = .ok file ∧ tokenize text = .ok tokens ∧ d ∈ file.module.listeners ∧
    d.name = "1" ∧ ¬ NamedBy tokens d.name := by
  generalize htext : "listener mqtt:Listener 1 = new mqtt:Listener();".toList = text
  have hchars : text = _ := htext.symm.trans String.toList_ofList
  have hcheck : ((SourceFile.parse "main.bal" text).toOption.bind fun file =>
      (tokenize text).toOption.bind fun tokens => file.module.listeners.head?.map fun d =>
        decide (d.name = "1" ∧ ¬ NamedBy tokens d.name)) = some true := by
    rw [hchars]
    decide +kernel
  obtain ⟨file, hfile, hcheck⟩ := Option.bind_eq_some_iff.1 hcheck
  obtain ⟨tokens, htokens, hcheck⟩ := Option.bind_eq_some_iff.1 hcheck
  obtain ⟨d, hd, hcheck⟩ := Option.map_eq_some_iff.1 hcheck
  obtain ⟨hname, hnamed⟩ := of_decide_eq_true hcheck
  exact ⟨text, file, tokens, d, rfl, eq_ok_of_toOption hfile, eq_ok_of_toOption htokens, List.mem_of_mem_head? hd,
    hname, hnamed⟩

end ServiceLint
