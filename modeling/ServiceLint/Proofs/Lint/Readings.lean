import ServiceLint.Package.Default
import ServiceLint.Proofs.Lint.Order
import ServiceLint.Proofs.Source.Words

/-!
# What validation takes from the layout of a text

The rules look at the shape of a module and at one thing more: the name and the qualifier that they read
from the type of a parameter (`Param.reading`). The type is kept as it is written, so a comment between its
tokens, or white space between two marks of an optional type, is read as a part of it
(`validate_codes_comment`). Nothing else of the layout is seen: texts with the same words whose types are
read alike get the same codes (`validate_codes_alike`).
-/
namespace ServiceLint

/-- What rules read from the type of a parameter: its name and its qualifier. -/
def Param.reading (p : Param) : String × Option String := (p.typeName, p.typeQualifier)

/-- What rules read from the types of a remote function's parameters. -/
def Member.readings (m : Member) : List (String × Option String) :=
  (Service.only m).remoteMethods.flatMap fun f => f.params.map Param.reading

/-- What rules read from types, by service and member. -/
def Module.readings (m : Module) : List (List (List (String × Option String))) :=
  m.services.map fun s => s.members.map Member.readings

/-! ## The shape of a module -/

section

variable {m m' : Module}

theorem Module.imports_shape (m : Module) : m.shape.imports = m.imports.map (Import.map fun _ => 0) := by
  rw [Module.imports, Module.imports, Module.shape, List.filterMap_map, List.map_filterMap]
  exact List.filterMap_congr fun d _ => by cases d <;> rfl

theorem Module.listeners_shape (m : Module) :
    m.shape.listeners = m.listeners.map (Listener.map fun _ => 0) := by
  rw [Module.listeners, Module.listeners, Module.shape, List.filterMap_map, List.map_filterMap]
  exact List.filterMap_congr fun d _ => by cases d <;> rfl

theorem Module.services_shape (m : Module) : m.shape.services = m.services.map Service.shape := by
  rw [Module.services, Module.services, Module.shape, List.filterMap_map, List.map_filterMap]
  exact List.filterMap_congr fun d _ => by cases d <;> rfl

/-- Texts with the same words declare modules of one shape. -/
theorem Module.shape_eq_of_words {text text' : List Char} {tokens tokens' : List Token}
    (htok : tokenize text = .ok tokens) (htok' : tokenize text' = .ok tokens')
    (hwords : tokens.map Token.word = tokens'.map Token.word) (hm : Module.parse text = .ok m)
    (hm' : Module.parse text' = .ok m') : m'.shape = m.shape := by
  obtain ⟨g, rfl⟩ := exists_move (tokenize_laid htok).pairwise_start hwords
  rw [Module.parse_eq htok] at hm
  rw [Module.parse_eq htok'] at hm'
  cases hdecls : Parse.declarations text tokens with
  | error f => simp [hdecls] at hm
  | ok decls =>
    obtain ⟨decls', hdecls', hshape⟩ := (Parse.declarations_follows (g := g) text text' tokens).ok hdecls
    rw [hdecls] at hm
    rw [hdecls'] at hm'
    cases hm
    cases hm'
    exact congrArg Module.mk hshape

end

/-! ## What rules see of a service -/

/-- What rules see of a function: its name and the types of its parameters. -/
def Method.seen (f : Method) : String × List (String × Option String) :=
  (f.name, f.params.map Param.reading)

theorem Member.shape_method? (m : Member) : m.shape.method? = m.method?.map Method.shape := by
  obtain ⟨_, _ | _⟩ := m <;> rfl

theorem Member.shape_isRemote (m : Member) : m.shape.isRemote = m.isRemote := by
  obtain ⟨_, _ | _⟩ := m <;> rfl

theorem Member.shape_isResource (m : Member) : m.shape.isResource = m.isResource := by
  obtain ⟨_, _ | _⟩ := m <;> rfl

/-- What rules see of the functions of a member is in its shape and in its types. -/
theorem Member.seen_alike {m m' : Member} (hshape : m'.shape = m.shape) (hread : m'.readings = m.readings) :
    (Service.only m').remoteMethods.map Method.seen = (Service.only m).remoteMethods.map Method.seen := by
  have hremote : m'.isRemote = m.isRemote := by
    rw [← m'.shape_isRemote, hshape, m.shape_isRemote]
  have hmethod : m'.method?.map Method.shape = m.method?.map Method.shape := by
    rw [← m'.shape_method?, hshape, m.shape_method?]
  simp only [Member.readings, Service.only_remoteMethods, hremote] at hread ⊢
  by_cases hr : m.isRemote = true
  · simp only [hr, if_true] at hread ⊢
    cases hf : m.method? with
    | none =>
      rw [hf, Option.map_none, Option.map_eq_none_iff] at hmethod
      rw [hmethod]
    | some f =>
      rw [hf, Option.map_some, Option.map_eq_some_iff] at hmethod
      obtain ⟨f', hf', hsame⟩ := hmethod
      have hname : f'.shape.name = f.shape.name := congrArg Method.name hsame
      change f'.name = f.name at hname
      have htypes : f'.params.map Param.reading = f.params.map Param.reading := by
        simpa [hf, hf'] using hread
      simp [hf', Method.seen, hname, htypes]
  · simp [hr]

variable {s s' : Service}

theorem Service.members_alike (hshape : s'.shape = s.shape)
    (hread : s'.members.map Member.readings = s.members.map Member.readings) :
    s'.members.map (fun m => (m.shape, m.readings)) = s.members.map fun m => (m.shape, m.readings) := by
  have hmembers : s'.members.map Member.shape = s.members.map Member.shape := congrArg Service.members hshape
  rw [← List.zip_map', ← List.zip_map', hmembers, hread]

/-- What rules see of the functions of a service is in its shape and in its types. -/
theorem Service.seen_alike (hshape : s'.shape = s.shape)
    (hread : s'.members.map Member.readings = s.members.map Member.readings) :
    s'.remoteMethods.map Method.seen = s.remoteMethods.map Method.seen := by
  rw [Service.remoteMethods_only, Service.remoteMethods_only s, List.map_flatMap, List.map_flatMap]
  refine flatMap_congr_of_map (Service.members_alike hshape hread) fun m' m h => ?_
  obtain ⟨hm, hr⟩ := Prod.mk.inj h
  exact Member.seen_alike hm hr

/-! ## How much rules find -/

theorem Param.hasType_eq (p : Param) (q expected : String) :
    p.hasType q expected = decide (p.reading = (expected, some q)) := by
  simp [Param.hasType, Param.reading, Bool.beq_eq_decide_eq]

/-- Whether types, as they are read, do not fit a function of the contract. -/
def MethodSpec.rejects (spec : MethodSpec) (q : String) (types : List (String × Option String)) : Bool :=
  decide (types.length < spec.minArity) || decide (spec.maxArity < types.length) ||
    (types.zip spec.params).any fun (r, t) => decide (r ≠ (t.typeName, some q))

theorem MethodSpec.mismatch?_isSome (spec : MethodSpec) (q : String) (ps : List Param) :
    (spec.mismatch? q ps).isSome = spec.rejects q (ps.map Param.reading) := by
  simp only [MethodSpec.mismatch?, MethodSpec.rejects, List.length_map]
  by_cases h : (decide (ps.length < spec.minArity) || decide (spec.maxArity < ps.length)) = true
  · rw [if_pos h, h]
    rfl
  · rw [if_neg h, Option.isSome_map, List.isSome_find?, List.zip_map_left, List.any_map]
    rw [Bool.not_eq_true] at h
    simp [h, Param.hasType_eq, Function.comp_def]

theorem Rule.missingMethods_eq (b : Binding) (s : Service) :
    Rule.missingMethods b s = (b.config.contract.required.map (·.name)).filter fun name =>
      !(s.remoteMethods.map Method.seen).any (·.1 == name) := by
  simp only [Rule.missingMethods, List.any_map]
  rfl

theorem Rule.checkUnknown_length [Similarity] (b : Binding) (s : Service) :
    (Rule.checkUnknown b s).length =
      (s.remoteMethods.map Method.seen).countP fun f => (b.config.contract.method? f.1).isNone := by
  rw [Rule.checkUnknown, List.length_map, ← List.countP_eq_length_filter, List.countP_map]
  rfl

theorem Rule.checkSignature_length (b : Binding) (s : Service) :
    (Rule.checkSignature b s).length = (s.remoteMethods.map Method.seen).countP fun f =>
      (b.config.contract.method? f.1).any fun spec => spec.rejects b.qualifier f.2 := by
  rw [Rule.checkSignature, List.length_filterMap_eq_countP, List.countP_map]
  refine List.countP_congr fun f _ => ?_
  simp only [Function.comp_apply, Method.seen, Rule.signatureFinding?]
  cases b.config.contract.method? f.name with
  | none => simp
  | some spec => simp [MethodSpec.mismatch?_isSome]

/-- A rule finds as much in a service as in one of the same shape whose types are read alike. -/
theorem Binding.Alike.check_length [Similarity] {b b' : Binding} (h : b.Alike b') (hshape : s'.shape = s.shape)
    (hread : s'.members.map Member.readings = s.members.map Member.readings) (rule : Rule) :
    (rule.check b' s').length = (rule.check b s).length := by
  have hseen := Service.seen_alike hshape hread
  have hmembers : s'.members.map Member.shape = s.members.map Member.shape := congrArg Service.members hshape
  have hempty : s'.isEmpty = s.isEmpty := by
    simpa [Service.isEmpty] using congrArg List.isEmpty hmembers
  rw [h.check]
  cases rule with
  | emptyService =>
    simp only [Rule.check, Rule.checkEmpty, hempty]
    split <;> rfl
  | missingRequiredMethod =>
    simp only [Rule.check, Rule.checkMissing_length, Rule.missingMethods_eq, hempty, hseen]
  | unknownRemoteMethod => simp only [Rule.check, Rule.checkUnknown_length, hseen]
  | invalidMethodSignature => simp only [Rule.check, Rule.checkSignature_length, hseen]
  | resourceMethodNotAllowed =>
    have hcount : ∀ ms : List Member, ms.countP Member.isResource =
        (ms.map Member.shape).countP Member.isResource := by
      intro ms
      rw [List.countP_map]
      exact List.countP_congr fun m _ => by rw [Function.comp_apply, m.shape_isResource]
    simp only [Rule.check, Rule.checkResource, List.length_map, ← List.countP_eq_length_filter]
    rw [hcount, hmembers, ← hcount]

/-! ## The codes of diagnostics -/

namespace Binding

def codes [Similarity] (b : Binding) (s : Service) : List String := (b.orderedDiagnostics s).map (·.rule.code)

theorem ruleDiagnostics_codes [Similarity] (b : Binding) (s : Service) (rule : Rule) :
    (b.ruleDiagnostics s rule).map (·.rule.code) =
      if (b.config.level rule.name).severity?.isSome then
        List.replicate (rule.check b s).length rule.code else [] := by
  unfold ruleDiagnostics
  split
  · next hoff => simp [hoff]
  · next severity hon => simp [hon, Function.comp_def]

namespace Alike

variable {b b' : Binding}

theorem ruleDiagnostics_codes [Similarity] (h : b.Alike b') (hshape : s'.shape = s.shape)
    (hread : s'.members.map Member.readings = s.members.map Member.readings) (rule : Rule) :
    (b'.ruleDiagnostics s' rule).map (·.rule.code) = (b.ruleDiagnostics s rule).map (·.rule.code) := by
  rw [b'.ruleDiagnostics_codes, b.ruleDiagnostics_codes, h.config, h.check_length hshape hread]

/-- Services of one shape whose types are read alike get the same codes. -/
theorem codes [Similarity] (h : b.Alike b') (hshape : s'.shape = s.shape)
    (hread : s'.members.map Member.readings = s.members.map Member.readings) : b'.codes s' = b.codes s := by
  have hone : ∀ m' m : Member, (m'.shape, m'.readings) = (m.shape, m.readings) →
      (b'.memberDiagnostics m').map (·.rule.code) = (b.memberDiagnostics m).map (·.rule.code) := by
    intro m' m hm
    obtain ⟨hmshape, hmread⟩ := Prod.mk.inj hm
    have honly : (Service.only m').shape = (Service.only m).shape := congrArg Service.only hmshape
    have hreads : (Service.only m').members.map Member.readings =
        (Service.only m).members.map Member.readings := congrArg (fun r => [r]) hmread
    simp only [Binding.memberDiagnostics, List.map_flatMap, h.ruleDiagnostics_codes honly hreads]
  simp only [Binding.codes, Binding.orderedDiagnostics, Binding.fixDiagnostics, List.map_append,
    List.map_flatMap, h.ruleDiagnostics_codes hshape hread]
  rw [flatMap_congr_of_map (Service.members_alike hshape hread) hone]

end Alike

end Binding

/-- Whether a service is bound depends on its shape. -/
theorem Binding.Alike.isBound_shape {b b' : Binding} (h : b.Alike b') (hshape : s'.shape = s.shape) :
    b'.isBound s' = b.isBound s := by
  have hself : b'.Alike b' := ⟨rfl, rfl, rfl⟩
  rw [← hself.isBound (fun _ => 0) s', ← h.isBound (fun _ => 0) s]
  show b'.isBound s'.shape = b'.isBound s.shape
  rw [hshape]

section

variable {file file' : SourceFile}

/-- What decides which services of a file are bound, and by what name, is in the shape of the module. -/
theorem Binding.resolve_shape {config : Config} {b : Binding} (hshape : file'.module.shape = file.module.shape)
    (hb : Binding.resolve file config = some b) :
    ∃ b', Binding.resolve file' config = some b' ∧ b'.file = file' ∧ b.Alike b' := by
  obtain ⟨hfile, hconfig, -⟩ := Binding.resolve_eq_some hb
  have himports : file'.module.imports.map (Import.map fun _ => 0) =
      file.module.imports.map (Import.map fun _ => 0) := by
    rw [← Module.imports_shape, hshape, Module.imports_shape]
  have hlisteners : file'.module.listeners.map (Listener.map fun _ => 0) =
      file.module.listeners.map (Listener.map fun _ => 0) := by
    rw [← Module.listeners_shape, hshape, Module.listeners_shape]
  exact ⟨_, Binding.resolve_alike himports hb, rfl, hconfig.symm, rfl, hfile ▸ hlisteners⟩

theorem Module.services_alike {m m' : Module} (hshape : m'.shape = m.shape) (hread : m'.readings = m.readings) :
    m'.services.map (fun s => (s.shape, s.members.map Member.readings)) =
      m.services.map fun s => (s.shape, s.members.map Member.readings) := by
  have hservices : m'.services.map Service.shape = m.services.map Service.shape := by
    rw [← Module.services_shape, hshape, Module.services_shape]
  simp only [Module.readings] at hread
  rw [← List.zip_map', ← List.zip_map', hservices, hread]

end

/-- Texts with the same words get the same codes when the types of their parameters are read alike. -/
theorem validate_codes_alike [Similarity] {name name' : String} {text text' : List Char} {tokens tokens' : List Token}
    {file file' : SourceFile} (config : Config) (hparse : SourceFile.parse name text = .ok file)
    (hparse' : SourceFile.parse name' text' = .ok file') (hsize : Text.size text < UInt32.size)
    (hsize' : Text.size text' < UInt32.size) (htok : tokenize text = .ok tokens)
    (htok' : tokenize text' = .ok tokens') (hwords : tokens.map Token.word = tokens'.map Token.word)
    (hread : file.module.readings = file'.module.readings) :
    (validate file config).map (·.rule.code) = (validate file' config).map (·.rule.code) := by
  have hshape : file'.module.shape = file.module.shape := by
    obtain ⟨m, hm, rfl⟩ := SourceFile.parse_eq_ok hparse
    obtain ⟨m', hm', rfl⟩ := SourceFile.parse_eq_ok hparse'
    exact Module.shape_eq_of_words htok htok' hwords hm hm'
  cases hb : Binding.resolve file config with
  | none =>
    -- the second file cannot import the module either: it would be seen in the first
    cases hb' : Binding.resolve file' config with
    | none => rw [validate, validate, hb, hb']
    | some b' =>
      obtain ⟨b, hsome, -⟩ := Binding.resolve_shape hshape.symm hb'
      rw [hb] at hsome
      cases hsome
  | some b =>
    obtain ⟨b', hb', hfile', halike⟩ := Binding.resolve_shape hshape hb
    obtain ⟨hfile, -, -⟩ := Binding.resolve_eq_some hb
    rw [validate_eq hparse hsize hb, validate_eq hparse' hsize' hb', List.map_flatMap, List.map_flatMap]
    unfold Binding.services
    rw [hfile, hfile']
    symm
    refine filter_flatMap_congr (Module.services_alike hshape hread.symm) ?_ ?_
    · intro s' s h
      exact halike.isBound_shape (Prod.mk.inj h).1
    · intro s' s h
      obtain ⟨hs, hr⟩ := Prod.mk.inj h
      exact halike.codes hs hr

/-- Two texts with the same words whose files are related, from what can be computed. -/
theorem exists_same_words (name : String) (text text' : List Char) (p : SourceFile → SourceFile → Prop)
    [∀ file file', Decidable (p file file')]
    (h : ((SourceFile.parse name text).toOption.bind fun file =>
      (SourceFile.parse name text').toOption.bind fun file' => (tokenize text).toOption.bind fun tokens =>
      (tokenize text').toOption.filter fun tokens' =>
        tokens.map Token.word = tokens'.map Token.word ∧ p file file').isSome = true) :
    ∃ file file' tokens tokens', SourceFile.parse name text = .ok file ∧ SourceFile.parse name text' = .ok file' ∧
      tokenize text = .ok tokens ∧ tokenize text' = .ok tokens' ∧
      tokens.map Token.word = tokens'.map Token.word ∧ p file file' := by
  obtain ⟨tokens', h⟩ := Option.isSome_iff_exists.1 h
  obtain ⟨file, hfile, h⟩ := Option.bind_eq_some_iff.1 h
  obtain ⟨file', hfile', h⟩ := Option.bind_eq_some_iff.1 h
  obtain ⟨tokens, htok, h⟩ := Option.bind_eq_some_iff.1 h
  obtain ⟨htok', hsame⟩ := Option.filter_eq_some_iff.1 h
  exact ⟨file, file', tokens, tokens', eq_ok_of_toOption hfile, eq_ok_of_toOption hfile',
    eq_ok_of_toOption htok, eq_ok_of_toOption htok', of_decide_eq_true hsame⟩

/-- Two layouts of a service with an unknown function. The second one has comments, a documentation line and
white space around a qualifier. -/
theorem validate_codes_alike_layout : ∃ text text' file file' tokens tokens',
    text = "import m;service on new m:Listener()\x7bremote function f(m:M p)\x7b\x7d\x7d".toList ∧
    text' = "import m;\r\nservice on new m:Listener()\x7b// ü\n# F\nremote function f( m :\tM p)\x7b\x7d\x7d".toList ∧
    SourceFile.parse "m.bal" text = .ok file ∧ SourceFile.parse "m.bal" text' = .ok file' ∧
    tokenize text = .ok tokens ∧ tokenize text' = .ok tokens' ∧
    tokens.map Token.word = tokens'.map Token.word ∧ file.module.readings = file'.module.readings ∧
    (validate file { module := "m" }).map (·.rule.code) = (validate file' { module := "m" }).map (·.rule.code) := by
  generalize htext : "import m;service on new m:Listener()\x7bremote function f(m:M p)\x7b\x7d\x7d".toList = text
  generalize htext' : "import m;\r\nservice on new m:Listener()\x7b// ü\n# F\nremote function f( m :\tM p)\x7b\x7d\x7d".toList = text'
  -- the kernel is slow to decode a long literal, so it is given the characters
  have hchars : text = _ := htext.symm.trans String.toList_ofList
  have hchars' : text' = _ := htext'.symm.trans String.toList_ofList
  have hsize : Text.size text < UInt32.size ∧ Text.size text' < UInt32.size := by
    rw [hchars, hchars']
    decide +kernel
  obtain ⟨file, file', tokens, tokens', hparse, hparse', htok, htok', hwords, hread⟩ :=
    exists_same_words "m.bal" text text' (fun file file' => file.module.readings = file'.module.readings) <| by
      rw [hchars, hchars']
      decide +kernel
  exact ⟨text, text', file, file', tokens, tokens', rfl, rfl, hparse, hparse', htok, htok', hwords, hread,
    validate_codes_alike _ hparse hparse' hsize.1 hsize.2 htok htok' hwords hread⟩

/-- The codes of a file, without the sorting of diagnostics. -/
def SourceFile.codes? [Similarity] (file : SourceFile) (config : Config) : Option (List String) :=
  (Binding.resolve file config).map fun b => b.services.flatMap b.codes

theorem SourceFile.codes?_eq_some [Similarity] {name : String} {text : List Char} {file : SourceFile} {config : Config}
    {codes : List String} (hparse : SourceFile.parse name text = .ok file) (hsize : Text.size text < UInt32.size)
    (h : file.codes? config = some codes) : (validate file config).map (·.rule.code) = codes := by
  obtain ⟨b, hb, rfl⟩ := Option.map_eq_some_iff.1 h
  rw [validate_eq hparse hsize hb, List.map_flatMap]
  rfl

/-- A comment between the tokens of a type is read as a part of its name: the same words get a code in one
layout and none in the other. -/
theorem validate_codes_comment : ∃ text text' file file' tokens tokens',
    text = "import ballerina/mqtt;service on new mqtt:Listener()".toList ++
      "\x7bremote function onMessage(mqtt:Message m)\x7b\x7d\x7d".toList ∧
    text' = "import ballerina/mqtt;service on new mqtt:Listener()".toList ++
      "\x7bremote function onMessage(mqtt:// of\nMessage m)\x7b\x7d\x7d".toList ∧
    SourceFile.parse "m.bal" text = .ok file ∧ SourceFile.parse "m.bal" text' = .ok file' ∧
    tokenize text = .ok tokens ∧ tokenize text' = .ok tokens' ∧
    tokens.map Token.word = tokens'.map Token.word ∧
    (validate file {}).map (·.rule.code) = [] ∧
    (validate file' {}).map (·.rule.code) = ["INVALID_METHOD_SIGNATURE"] := by
  generalize htext : "import ballerina/mqtt;service on new mqtt:Listener()".toList ++
      "\x7bremote function onMessage(mqtt:Message m)\x7b\x7d\x7d".toList = text
  generalize htext' : "import ballerina/mqtt;service on new mqtt:Listener()".toList ++
      "\x7bremote function onMessage(mqtt:// of\nMessage m)\x7b\x7d\x7d".toList = text'
  have hchars : text = _ ++ _ := htext.symm.trans (congrArg₂ _ String.toList_ofList String.toList_ofList)
  have hchars' : text' = _ ++ _ := htext'.symm.trans (congrArg₂ _ String.toList_ofList String.toList_ofList)
  have hsize : Text.size text < UInt32.size ∧ Text.size text' < UInt32.size := by
    rw [hchars, hchars']
    decide +kernel
  obtain ⟨file, file', tokens, tokens', hparse, hparse', htok, htok', hwords, hcodes, hcodes'⟩ :=
    exists_same_words "m.bal" text text'
      (fun file file' => file.codes? {} = some [] ∧ file'.codes? {} = some ["INVALID_METHOD_SIGNATURE"]) <| by
        rw [hchars, hchars']
        decide +kernel
  exact ⟨text, text', file, file', tokens, tokens', rfl, rfl, hparse, hparse', htok, htok', hwords,
    SourceFile.codes?_eq_some hparse hsize.1 hcodes, SourceFile.codes?_eq_some hparse' hsize.2 hcodes'⟩

end ServiceLint
