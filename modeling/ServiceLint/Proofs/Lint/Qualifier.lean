import ServiceLint.Lint.Binding
import ServiceLint.Proofs.Source.Parse.Names
import ServiceLint.Proofs.Text.Trim

/-!
# The name of the configured module

The name under which a file knows the configured module is found in two ways. The import gives its alias, or the last
segment of the path that was read token by token; the configuration gives what follows the last slash and the last
point of its module id. Identifiers have neither slashes nor points, so that the two agree for an import without an
alias (`Config.moduleName_eq`). With an alias the name is the one written after `as`, without a quote
(`Module.parse_alias`). Both together say which name the rules look for: `Binding.resolve_qualifier`.
-/
namespace ServiceLint

/-- The module id of an import ends with the last segment of its path, which is what the configuration takes for the
name of the module. -/
theorem Config.moduleName_eq {config : Config} {i : Import} {last : String}
    (hpath : ∀ n ∈ i.path, IsNameText n.toList) (hlast : i.path.getLast? = some last)
    (hmodule : i.qualifiedName = config.module) : config.moduleName = last := by
  have hdotted : i.module.toList = ['.'].intercalate (i.path.map String.toList) := String.toList_intercalate
  have hfree : ∀ {c : Char}, isIdentPart c = false → c ≠ '\x27' → ∀ part ∈ i.path.map String.toList, c ∉ part := by
    intro c hc hquote part hpart
    obtain ⟨n, hn, rfl⟩ := List.mem_map.1 hpart
    exact (hpath n hn).notMem hc hquote
  have hslash : '/' ∉ i.module.toList := by
    rw [hdotted]
    intro hmem
    rcases Text.mem_intercalate hmem with heq | ⟨part, hpart, hin⟩
    · exact absurd heq (by decide)
    · exact hfree (by decide) (by decide) part hpart hin
  have hpoint : Text.afterLast '.' i.module.toList = last.toList := by
    rw [hdotted]
    exact Text.afterLast_intercalate (hfree (by decide) (by decide)) (by rw [List.getLast?_map, hlast]; rfl)
  have hid : Text.afterLast '/' config.module.toList = i.module.toList := by
    rw [← hmodule, Import.qualifiedName]
    cases i.org with
    | none => exact Text.afterLast_of_notMem hslash
    | some org =>
      have hchars : (s!"{org}/{i.module}").toList = org.toList ++ '/' :: i.module.toList := by
        simp [ToString.toString]
      rw [hchars, Text.afterLast_append hslash]
  rw [Config.moduleName, hid, hpoint, String.ofList_toList]

example : Config.moduleName { module := "acme/messaging.mqtt" } = "mqtt" := by decide

/-! ## Aliases -/

/-- A name without the quote in front of it, if it has one. -/
def unquoted (name : String) : String :=
  match name.toList with
  | '\x27' :: word => String.ofList word
  | _ => name

/-- The alias that the import is written with: the name between `as` and the semicolon. -/
def Import.aliasText? (tokens : List Token) (i : Import) : Option String :=
  match (within i.span tokens).reverse with
  | _ :: name :: word :: _ => if word.is "as" then some name.text else none
  | _ => none

/-- An identifier has one quote in front of it at most. -/
theorem unquoted_eq {name : String} (h : IsNameText name.toList) :
    unquoted name = String.ofList (name.toList.dropWhile (· == '\x27')) := by
  unfold unquoted
  rcases h with h | ⟨word, hchars, hword⟩
  · rw [h.dropQuotes, String.ofList_toList]
    split
    · next hquote =>
      rw [hquote] at h
      exact absurd h.1 (by decide)
    · rfl
  · rw [hchars, List.dropWhile_cons_of_pos (by rfl), hword.dropQuotes]
    rfl

namespace Parse

variable {tokens rest : List Token}

/-- The tokens before `rest` end with a name that no `as` introduces. -/
def PathEnds (tokens rest : List Token) : Prop :=
  ∃ front word name, tokens = front ++ word :: name :: rest ∧ word.is "as" = false

theorem PathEnds.cons {t : Token} (h : PathEnds tokens rest) : PathEnds (t :: tokens) rest := by
  obtain ⟨front, word, name, rfl, hword⟩ := h
  exact ⟨t :: front, word, name, rfl, hword⟩

/-- A name after another word goes on where the tokens end with a name. -/
theorem PathEnds.trans {mid : List Token} (h : PathEnds tokens mid) (hmid : mid = rest ∨ PathEnds mid rest) :
    PathEnds tokens rest := by
  rcases hmid with rfl | ⟨front', word', name', rfl, hword'⟩
  · exact h
  · obtain ⟨front, word, name, rfl, -⟩ := h
    exact ⟨front ++ word :: name :: front', word', name', by simp, hword'⟩

theorem not_as {t : Token} {s : String} (h : t.is s = true) (hs : s ≠ "as") : t.is "as" = false := by
  rw [Bool.eq_false_iff]
  intro has
  exact hs (is_unique h has)

theorem pathTail_end {names : List String} (h : pathTail tokens = .ok (names, rest)) :
    tokens = rest ∨ PathEnds tokens rest := by
  fun_induction pathTail tokens generalizing names with
  | case1 => cases h
  | case2 point name _ hpoint _ _ _ hrec ih =>
    cases h
    rcases ih hrec with rfl | hends
    · exact Or.inr ⟨[], point, name, rfl, not_as hpoint (by decide)⟩
    · exact Or.inr hends.cons.cons
  | case3 => cases h
  | case4 => cases h; exact Or.inl rfl
  | case5 => cases h
  | case6 => cases h; exact Or.inl rfl
  | case7 => cases h; exact Or.inl rfl

theorem orgPart_end {first : Token} {p : Option String × String} (h : orgPart first tokens = .ok (p, rest)) :
    tokens = rest ∨ PathEnds tokens rest := by
  unfold orgPart at h
  split at h
  · next hslash =>
    obtain ⟨⟨name, r⟩, hname, h⟩ := bind_eq_ok.1 h
    cases h
    obtain ⟨slash, rfl, hs, -⟩ := expectName_tail_eq_ok hslash hname
    exact Or.inr ⟨[], slash, name, rfl, not_as hs (by decide)⟩
  · cases h
    exact Or.inl rfl

/-- An alias is a name after `as`, and it is kept without its quote. -/
theorem aliasPart_end {alias? : Option String} (h : aliasPart tokens = .ok (alias?, rest)) :
    (tokens = rest ∧ alias? = none) ∨
      ∃ word name, tokens = word :: name :: rest ∧ word.is "as" = true ∧ name.isName = true ∧
        alias? = some (String.ofList (name.text.toList.dropWhile (· == '\x27'))) := by
  unfold aliasPart at h
  split at h
  · next has =>
    obtain ⟨⟨name, r⟩, hread, h⟩ := bind_eq_ok.1 h
    cases h
    obtain ⟨word, rfl, hword, hname⟩ := expectName_tail_eq_ok has hread
    exact Or.inr ⟨word, name, rfl, hword, hname, rfl⟩
  · cases h
    exact Or.inl ⟨rfl, rfl⟩

/-- The word before the last name of an import says whether that name is its alias. -/
theorem importDecl_end {i : Import} (h : importDecl tokens = .ok (i, rest)) :
    ∃ keyword front word name semi, tokens = front ++ word :: name :: semi :: rest ∧
      tokens.head? = some keyword ∧ i.span = ⟨keyword.start, semi.stop⟩ ∧
      (word.is "as" = false ∧ i.alias? = none ∨ word.is "as" = true ∧ name.isName = true ∧
        i.alias? = some (String.ofList (name.text.toList.dropWhile (· == '\x27')))) := by
  obtain ⟨⟨keyword, r₁⟩, h₁, h⟩ := bind_eq_ok.1 h
  obtain ⟨⟨first, r₂⟩, h₂, h⟩ := bind_eq_ok.1 h
  obtain ⟨⟨⟨org, head⟩, r₃⟩, h₃, h⟩ := bind_eq_ok.1 h
  obtain ⟨⟨path, r₄⟩, h₄, h⟩ := bind_eq_ok.1 h
  obtain ⟨⟨alias?, r₅⟩, h₅, h⟩ := bind_eq_ok.1 h
  obtain ⟨⟨semi, r₆⟩, h₆, h⟩ := bind_eq_ok.1 h
  cases h
  obtain ⟨rfl, hkey⟩ := expect_eq_ok.1 h₁
  obtain ⟨rfl, -⟩ := expectName_eq_ok.1 h₂
  obtain ⟨rfl, -⟩ := expect_eq_ok.1 h₆
  -- the keyword, a slash or a point stands before the last name of the path
  have hstart : PathEnds (keyword :: first :: r₂) r₂ := ⟨[], keyword, first, rfl, not_as hkey (by decide)⟩
  obtain ⟨front, word, name, hpath, hword⟩ := (hstart.trans (orgPart_end h₃)).trans (pathTail_end h₄)
  rcases aliasPart_end h₅ with ⟨rfl, rfl⟩ | ⟨as_, given, rfl, has, hname, rfl⟩
  · exact ⟨keyword, front, word, name, semi, hpath, rfl, rfl, Or.inl ⟨hword, rfl⟩⟩
  · refine ⟨keyword, front ++ [word, name], as_, given, semi, ?_, rfl, rfl, Or.inr ⟨has, hname, rfl⟩⟩
    rw [hpath]
    simp

end Parse

open Parse

section

variable {text : List Char} {tokens : List Token} {m : Module} {i : Import}

/-- Reading a module comes to each import. -/
theorem exists_importDecl (hm : Module.parse text = .ok m) (htok : tokenize text = .ok tokens) (hi : i ∈ m.imports) :
    ∃ before used rest, tokens = before ++ used ∧ importDecl used = .ok (i, rest) := by
  obtain ⟨before, first, tail, rest, quals, used, rfl, hw, -, hdeclares⟩ :=
    exists_declaration hm htok (Module.mem_imports.1 hi)
  cases hdeclares with
  | importDecl hquals _ himport =>
    subst hquals
    exact ⟨before, used, rest, congrArg (before ++ ·) hw, himport⟩

/-- The alias of an import is the one that it is written with, without its quote. -/
theorem Module.parse_alias (hm : Module.parse text = .ok m) (htok : tokenize text = .ok tokens)
    (hi : i ∈ m.imports) : i.alias? = (i.aliasText? tokens).map unquoted := by
  obtain ⟨before, used, rest, rfl, himport⟩ := exists_importDecl hm htok hi
  obtain ⟨keyword, front, word, name, semi, rfl, hhead, hspan, halias⟩ := importDecl_end himport
  have hfirst : (front ++ [word, name] ++ [semi]).head? = some keyword := by
    rw [← hhead]
    cases front <;> rfl
  have hin : front ++ [word, name] ++ semi :: rest <:+ before ++ (front ++ word :: name :: semi :: rest) :=
    ⟨before, by simp⟩
  have hwithin := within_from (tokenize_laid htok) hin hfirst
  have htext : i.aliasText? (before ++ (front ++ word :: name :: semi :: rest)) =
      if word.is "as" then some name.text else none := by
    rw [Import.aliasText?, hspan, hwithin]
    simp
  rw [htext]
  rcases halias with ⟨hword, hnone⟩ | ⟨hword, hname, hsome⟩
  · rw [hnone, hword]
    rfl
  · have hstands := (tokenize_laid htok).stands (t := name) (by simp)
    rw [hsome, hword, if_pos rfl, Option.map_some, unquoted_eq (hstands.name hname)]

/-- The path of an import has a last segment, and its segments are identifiers. -/
theorem Module.parse_path (hm : Module.parse text = .ok m) (htok : tokenize text = .ok tokens)
    (hi : i ∈ m.imports) : (∃ last, i.path.getLast? = some last) ∧ ∀ n ∈ i.path, IsNameText n.toList := by
  obtain ⟨before, used, rest, rfl, himport⟩ := exists_importDecl hm htok hi
  obtain ⟨keyword, body, semi, rfl, -, -, ⟨⟨hne, hpath⟩, -⟩, -⟩ := importDecl_reads himport
  refine ⟨Option.ne_none_iff_exists'.1 (by simpa using hne), fun n hn => ?_⟩
  obtain ⟨t, ht, hname, rfl⟩ := hpath n hn
  have hstands := (tokenize_laid htok).stands (t := t) (by simp [ht])
  exact hstands.name hname

end

/-- The name under which a file knows the configured module is given by the first import of the module: it is the
alias written there, without its quote, or else the name that the configuration takes from the module id. -/
theorem Binding.resolve_qualifier {name : String} {text : List Char} {file : SourceFile} {config : Config}
    {b : Binding} (hparse : SourceFile.parse name text = .ok file) (hb : Binding.resolve file config = some b) :
    ∃ tokens before i after, tokenize text = .ok tokens ∧ file.module.imports = before ++ i :: after ∧
      i.qualifiedName = config.module ∧ (∀ j ∈ before, j.qualifiedName ≠ config.module) ∧
      i.alias? = (i.aliasText? tokens).map unquoted ∧ b.qualifier = i.alias?.getD config.moduleName := by
  obtain ⟨m, hm, rfl⟩ := SourceFile.parse_eq_ok hparse
  obtain ⟨tokens, htok, -⟩ := Module.parse_eq_ok hm
  obtain ⟨i, hfind, rfl⟩ := Option.map_eq_some_iff.1 hb
  obtain ⟨hmodule, before, after, himports, hbefore⟩ := List.find?_eq_some_iff_append.1 hfind
  have hmodule : i.qualifiedName = config.module := by simpa using hmodule
  have hi : i ∈ m.imports := himports ▸ by simp
  obtain ⟨⟨last, hlast⟩, hpath⟩ := Module.parse_path hm htok hi
  refine ⟨tokens, before, i, after, htok, himports, hmodule, fun j hj => by simpa using hbefore j hj,
    Module.parse_alias hm htok hi, ?_⟩
  rw [Config.moduleName_eq hpath hlast hmodule]
  show i.localName = i.alias?.getD last
  rw [Import.localName, hlast, Option.getD_some]

/-- Another module is imported before the configured one, which is imported twice, first with a quoted alias. -/
theorem Binding.resolve_qualifier_quoted : ∃ text file b tokens before i after,
    text = "import ballerina/io;import acme/messaging.mqtt as 'm;import acme/messaging.mqtt;".toList ∧
    SourceFile.parse "main.bal" text = .ok file ∧
    Binding.resolve file { module := "acme/messaging.mqtt" } = some b ∧ b.qualifier = "m" ∧
    tokenize text = .ok tokens ∧ file.module.imports = before ++ i :: after ∧
    i.qualifiedName = "acme/messaging.mqtt" ∧ (∀ j ∈ before, j.qualifiedName ≠ "acme/messaging.mqtt") ∧
    i.alias? = (i.aliasText? tokens).map unquoted ∧
    b.qualifier = i.alias?.getD (Config.moduleName { module := "acme/messaging.mqtt" }) := by
  generalize htext :
    "import ballerina/io;import acme/messaging.mqtt as 'm;import acme/messaging.mqtt;".toList = text
  have hchars : text = _ := htext.symm.trans String.toList_ofList
  have hcheck : ((SourceFile.parse "main.bal" text).toOption.bind fun file =>
      (Binding.resolve file { module := "acme/messaging.mqtt" }).map fun b =>
        decide (b.qualifier = "m")) = some true := by
    rw [hchars]
    decide +kernel
  obtain ⟨file, hfile, hcheck⟩ := Option.bind_eq_some_iff.1 hcheck
  obtain ⟨b, hb, hcheck⟩ := Option.map_eq_some_iff.1 hcheck
  have hparse := eq_ok_of_toOption hfile
  obtain ⟨tokens, before, i, after, hresolve⟩ := Binding.resolve_qualifier hparse hb
  exact ⟨text, file, b, tokens, before, i, after, rfl, hparse, hb, of_decide_eq_true hcheck, hresolve⟩

end ServiceLint
