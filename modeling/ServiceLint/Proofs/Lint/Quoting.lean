import Mathlib.Data.List.Chain
import ServiceLint.Proofs.Lint.Bound
import ServiceLint.Proofs.Lint.Keys
import ServiceLint.Proofs.Lint.Readings
import ServiceLint.Proofs.Source.Alias

/-!
# Quoted names of the module

The quote of an alias is no part of the name under which the module is known, and the quote of a qualifier is a part
of the name that is looked for. So a quote before the alias changes nothing, and quotes before the qualifiers of all
types hide every service from the rules: `validate_quoted`.
-/
namespace ServiceLint

/-- The name qualifies nothing: it stands before no colon. -/
def QualifiesNothing (name : String) (tokens : List Token) : Prop :=
  tokens.IsChain fun q colon => q.text = name → colon.text ≠ ":"

instance (name : String) (tokens : List Token) : Decidable (QualifiesNothing name tokens) :=
  inferInstanceAs (Decidable (tokens.IsChain _))

theorem QualifiesNothing.not_isTypeName {qualifier name : String} {tokens type : List Token}
    (h : QualifiesNothing qualifier tokens) (hin : type <:+: tokens) : ¬ IsTypeName qualifier name type := by
  rintro ⟨hq, hqualifier, hcolon, hn, hname⟩
  have hchain := List.IsChain.infix h hin
  exact (List.isChain_cons_cons.1 hchain).1 hqualifier hcolon

section

variable {name : String} {text : List Char} {file : SourceFile} {tokens : List Token} {config : Config} {b : Binding}

/-- Nothing is bound where the name of the module qualifies nothing. -/
theorem Binding.services_eq_nil (hparse : SourceFile.parse name text = .ok file) (htok : tokenize text = .ok tokens)
    (hb : Binding.resolve file config = some b) (hnothing : QualifiesNothing b.qualifier tokens) :
    b.services = [] := by
  obtain ⟨m, hm, rfl⟩ := SourceFile.parse_eq_ok hparse
  obtain ⟨hfile, -, -⟩ := Binding.resolve_eq_some hb
  rw [Binding.services, List.filter_eq_nil_iff]
  intro s hs hbound
  obtain ⟨type, hin, htype⟩ := Binding.exists_typeName (by rw [hfile]; exact hm) htok hs hbound
  exact hnothing.not_isTypeName hin htype

theorem validate_eq_nil [Similarity] (hb : Binding.resolve file config = some b) (hnone : b.services = []) :
    validate file config = [] := by
  rw [validate, hb]
  simp [Binding.diagnostics, hnone]

/-- A quote before the alias of an import changes neither the name under which the configured module is known, nor
which services are bound, nor what is said about them. A file in which that name qualifies nothing has no bound
services, and nothing is said about it. -/
theorem validate_quoted [Similarity] (config : Config) (hparse : SourceFile.parse name text = .ok file)
    (htok : tokenize text = .ok tokens) :
    (∀ i ∈ file.module.imports, i.alias?.isSome = true → ∀ us t semi, within i.span tokens = us ++ [t, semi] →
      t.kind = .ident → ∃ file', SourceFile.parse name (quoteAt t.start text) = .ok file' ∧
        file'.bound? config = file.bound? config ∧ (Text.size text + 1 < UInt32.size →
          (validate file' config).map Diagnostic.key = (validate file config).map Diagnostic.key)) ∧
    ∀ b, Binding.resolve file config = some b → QualifiesNothing b.qualifier tokens →
      b.services = [] ∧ validate file config = [] := by
  obtain ⟨m, hm, rfl⟩ := SourceFile.parse_eq_ok hparse
  refine ⟨fun i hi halias us t semi hspan ht => ?_, fun b hb hnothing => ?_⟩
  · obtain ⟨m', hm', hbare⟩ := Module.parse_quoteAt hm htok hi halias hspan ht
    have hparse' := SourceFile.parse_of_module name hm'
    refine ⟨_, hparse', SourceFile.bound?_bare config hbare, fun hsize => ?_⟩
    have hsize' : Text.size (quoteAt t.start text) < UInt32.size := by rw [size_quoteAt]; exact hsize
    exact validate_keys_bare config hparse hparse' (by omega) hsize' hbare
  · have hnone := Binding.services_eq_nil hparse htok hb hnothing
    exact ⟨hnone, validate_eq_nil hb hnone⟩

/-- A file that knows the module by an alias, and the same file with quotes before the alias and before its use. -/
theorem exists_quoted : ∃ text text' file file' tokens tokens' i us t semi b,
    text = "import ballerina/mqtt as m;service on new m:Listener()\x7b\x7d".toList ∧
    text' = "import ballerina/mqtt as 'm;service on new 'm:Listener()\x7b\x7d".toList ∧
    SourceFile.parse "m.bal" text = .ok file ∧ SourceFile.parse "m.bal" text' = .ok file' ∧
    tokenize text = .ok tokens ∧ tokenize text' = .ok tokens' ∧
    Text.size text + 1 < UInt32.size ∧
    i ∈ file.module.imports ∧ i.alias?.isSome = true ∧ within i.span tokens = us ++ [t, semi] ∧ t.kind = .ident ∧
    file.bound? {} = some ("m", [true]) ∧ file.codes? {} = some ["EMPTY_SERVICE"] ∧
    file'.bound? {} = some ("m", [false]) ∧ Binding.resolve file' {} = some b ∧
    QualifiesNothing b.qualifier tokens' := by
  generalize htext : "import ballerina/mqtt as m;service on new m:Listener()\x7b\x7d".toList = text
  generalize htext' : "import ballerina/mqtt as 'm;service on new 'm:Listener()\x7b\x7d".toList = text'
  have hchars : text = _ := htext.symm.trans String.toList_ofList
  have hchars' : text' = _ := htext'.symm.trans String.toList_ofList
  have hcheck : ((SourceFile.parse "m.bal" text).toOption.bind fun file =>
      (SourceFile.parse "m.bal" text').toOption.bind fun file' => (tokenize text).toOption.bind fun tokens =>
      (tokenize text').toOption.filter fun tokens' =>
        Text.size text + 1 < UInt32.size ∧
        file.module.imports = [⟨⟨0, 27⟩, some "ballerina", ["mqtt"], some "m"⟩] ∧
        (within ⟨0, 27⟩ tokens).drop 5 = [⟨.ident, 25, "m"⟩, ⟨.punct, 26, ";"⟩] ∧
        file.bound? {} = some ("m", [true]) ∧ file.codes? {} = some ["EMPTY_SERVICE"] ∧
        file'.bound? {} = some ("m", [false]) ∧ QualifiesNothing "m" tokens').isSome = true := by
    rw [hchars, hchars']
    decide +kernel
  obtain ⟨tokens', hcheck⟩ := Option.isSome_iff_exists.1 hcheck
  obtain ⟨file, hparse, hcheck⟩ := Option.bind_eq_some_iff.1 hcheck
  obtain ⟨file', hparse', hcheck⟩ := Option.bind_eq_some_iff.1 hcheck
  obtain ⟨tokens, htok, hcheck⟩ := Option.bind_eq_some_iff.1 hcheck
  obtain ⟨htok', hfacts⟩ := Option.filter_eq_some_iff.1 hcheck
  obtain ⟨hsize, himports, hspan, hbound, hcodes, hbound', hnothing⟩ := of_decide_eq_true hfacts
  obtain ⟨b, hb, hqualifier⟩ := Option.map_eq_some_iff.1 hbound'
  have hwithin := (List.take_append_drop 5 (within ⟨0, 27⟩ tokens)).symm
  rw [hspan] at hwithin
  refine ⟨text, text', file, file', tokens, tokens', _, _, _, _, b, rfl, rfl, eq_ok_of_toOption hparse,
    eq_ok_of_toOption hparse', eq_ok_of_toOption htok, eq_ok_of_toOption htok', hsize,
    himports ▸ List.mem_singleton_self _, rfl, hwithin, rfl, hbound, hcodes, hbound', hb, ?_⟩
  rw [(Prod.mk.inj hqualifier).1]
  exact hnothing

/-- With a quote before the alias the service stays bound. With a quote before the qualifier too it is not. -/
theorem validate_quoted_alias : ∃ text text' file file' tokens t b,
    text = "import ballerina/mqtt as m;service on new m:Listener()\x7b\x7d".toList ∧
    text' = "import ballerina/mqtt as 'm;service on new 'm:Listener()\x7b\x7d".toList ∧
    tokenize text = .ok tokens ∧ t ∈ tokens ∧ t.kind = .ident ∧
    SourceFile.parse "m.bal" (quoteAt t.start text) = .ok file ∧ file.bound? {} = some ("m", [true]) ∧
    (validate file {}).map (·.rule.code) = ["EMPTY_SERVICE"] ∧
    SourceFile.parse "m.bal" text' = .ok file' ∧ Binding.resolve file' {} = some b ∧ b.services = [] ∧
    validate file' {} = [] := by
  obtain ⟨text, text', plain, file', tokens, tokens', i, us, t, semi, b, htext, htext', hparse, hparse', htok, htok',
    hsize, hi, halias, hspan, ht, hbound, hcodes, -, hb, hnothing⟩ := exists_quoted
  obtain ⟨file, hfile, hsame, hkeys⟩ :=
    (validate_quoted {} hparse htok).1 i hi halias us t semi hspan ht
  obtain ⟨hnone, hsilent⟩ := (validate_quoted {} hparse' htok').2 b hb hnothing
  have hmem : t ∈ within i.span tokens := by simp [hspan]
  have hcodes' : (validate file {}).map (·.rule.code) = ["EMPTY_SERVICE"] := by
    have hsay := congrArg (List.map (·.1)) (hkeys hsize)
    rw [List.map_map, List.map_map] at hsay
    exact hsay.trans (SourceFile.codes?_eq_some hparse (by omega) hcodes)
  exact ⟨text, text', file, file', tokens, t, b, htext, htext', htok, (List.mem_filter.1 hmem).1, ht, hfile,
    hsame.trans hbound, hcodes', hparse', hb, hnone, hsilent⟩

/-- Quotes before the alias and before its use change which services are bound and what is said. -/
theorem validate_quoted_qualifier : ∃ text text' file file',
    text = "import ballerina/mqtt as m;service on new m:Listener()\x7b\x7d".toList ∧
    text' = "import ballerina/mqtt as 'm;service on new 'm:Listener()\x7b\x7d".toList ∧
    SourceFile.parse "m.bal" text = .ok file ∧ SourceFile.parse "m.bal" text' = .ok file' ∧
    file.bound? {} = some ("m", [true]) ∧ (validate file {}).map (·.rule.code) = ["EMPTY_SERVICE"] ∧
    file'.bound? {} = some ("m", [false]) ∧ (validate file' {}).map (·.rule.code) = [] := by
  obtain ⟨text, text', file, file', tokens, tokens', i, us, t, semi, b, htext, htext', hparse, hparse', htok, htok',
    hsize, -, -, -, -, hbound, hcodes, hbound', hb, hnothing⟩ := exists_quoted
  have hnone := Binding.services_eq_nil hparse' htok' hb hnothing
  exact ⟨text, text', file, file', htext, htext', hparse, hparse', hbound,
    SourceFile.codes?_eq_some hparse (by omega) hcodes, hbound', by rw [validate_eq_nil hb hnone]; rfl⟩

end

end ServiceLint
