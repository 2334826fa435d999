import Mathlib.Data.List.Forall2
import ServiceLint.Proofs.Lint.Ranges

/-!
# What no diagnostics mean

The rules together decide whether a service keeps to the contract (`Binding.Satisfies`). Each rule has
nothing to say exactly when a part of it holds. The rule for signatures compares numbers of parameters and
then types as far as there are parameters, which amounts to a comparison with the first parameters of the
contract because a checked configuration has no required parameter after an optional one
(`MethodSpec.mismatch?_eq_none_iff`).
-/
namespace ServiceLint

/-! ## Signatures -/

/-- The parameters have, one by one, the types of the first parameters of the function, and those that are
left are optional. -/
def MethodSpec.Accepts (spec : MethodSpec) (q : String) (params : List Param) : Prop :=
  ∃ taken left, spec.params = taken ++ left ∧
    List.Forall₂ (fun p t => p.typeName = t.typeName ∧ p.typeQualifier = some q) params taken ∧
    ∀ t ∈ left, t.optional = true

theorem Param.hasType_iff {p : Param} {q expected : String} :
    p.hasType q expected = true ↔ p.typeName = expected ∧ p.typeQualifier = some q := by
  rw [Param.hasType, Bool.and_eq_true, beq_iff_eq, beq_iff_eq]

theorem zip_append_of_length_eq {α β : Type _} {xs : List α} {ys : List β} (h : xs.length = ys.length)
    (zs : List β) : xs.zip (ys ++ zs) = xs.zip ys := by
  have hzip : (xs ++ []).zip (ys ++ zs) = xs.zip ys ++ [].zip zs := List.zip_append h
  rwa [List.append_nil, List.zip_nil_left, List.append_nil] at hzip

namespace MethodSpec

variable {spec : MethodSpec} {q : String} {ps : List Param}

/-- There is no mismatch when there are enough parameters, not too many, and each has its type. -/
theorem mismatch?_eq_none :
    spec.mismatch? q ps = none ↔ spec.minArity ≤ ps.length ∧ ps.length ≤ spec.maxArity ∧
      ∀ p t, (p, t) ∈ ps.zip spec.params → p.typeName = t.typeName ∧ p.typeQualifier = some q := by
  unfold mismatch?
  split
  · next h =>
    simp only [Bool.or_eq_true, decide_eq_true_eq] at h
    simp only [reduceCtorEq, false_iff]
    omega
  · next h =>
    simp only [Bool.or_eq_true, decide_eq_true_eq, not_or, Nat.not_lt] at h
    simp [h, Param.hasType_iff]

/-- When optional parameters come last, only those are left after as many as there must be. -/
theorem optional_of_mem_drop (h : spec.optionalTrail = true) {n : Nat} (hn : spec.minArity ≤ n) {t : ParamSpec}
    (ht : t ∈ spec.params.drop n) : t.optional = true := by
  have hsplit : spec.params.takeWhile (!·.optional) ++ spec.params.dropWhile (!·.optional) = spec.params :=
    List.takeWhile_append_dropWhile
  have hlead : (spec.params.takeWhile (!·.optional)).length ≤ n := by
    have hcount : (spec.params.takeWhile (!·.optional)).countP (!·.optional) =
        (spec.params.takeWhile (!·.optional)).length :=
      List.countP_eq_length.2 fun _ ht => List.mem_takeWhile_imp (p := fun t : ParamSpec => !t.optional) ht
    rw [minArity, ← hsplit, List.countP_append, hcount] at hn
    omega
  rw [← hsplit, List.drop_append, List.drop_of_length_le hlead, List.nil_append] at ht
  exact List.all_eq_true.1 h t (List.mem_of_mem_drop ht)

/-- A function has no mismatch with the parameters that it accepts, and with no others. -/
theorem mismatch?_eq_none_iff (h : spec.optionalTrail = true) :
    spec.mismatch? q ps = none ↔ spec.Accepts q ps := by
  rw [mismatch?_eq_none]
  constructor
  · rintro ⟨hmin, hmax, htypes⟩
    refine ⟨spec.params.take ps.length, spec.params.drop ps.length, (List.take_append_drop ..).symm, ?_,
      fun t => optional_of_mem_drop h hmin⟩
    have hlength : (spec.params.take ps.length).length = ps.length := by
      rw [List.length_take]
      exact Nat.min_eq_left hmax
    refine List.forall₂_iff_zip.2 ⟨hlength.symm, fun {p t} hpt => htypes p t ?_⟩
    rw [← List.take_append_drop ps.length spec.params, zip_append_of_length_eq hlength.symm]
    exact hpt
  · rintro ⟨taken, left, hparams, htypes, hleft⟩
    have hlength := htypes.length_eq
    have hnone : left.countP (!·.optional) = 0 := by simpa [List.countP_eq_zero] using hleft
    have htaken : taken.countP (!·.optional) ≤ taken.length := List.countP_le_length
    refine ⟨?_, ?_, fun p t hpt => ?_⟩
    · rw [minArity, hparams, List.countP_append]
      omega
    · rw [maxArity, hparams, List.length_append]
      omega
    · rw [hparams, zip_append_of_length_eq hlength] at hpt
      exact (List.forall₂_iff_zip.1 htypes).2 hpt

end MethodSpec

/-! ## Checked contracts -/

namespace Contract

/-- There is no issue when every function has a name that no other one has and its optional parameters come
last. -/
theorem firstIssue_eq_none {seen : List String} {ms : List MethodSpec} :
    firstIssue seen ms = none ↔
      (∀ m ∈ ms, Text.isBlank m.name.toList = false ∧ m.name ∉ seen ∧ m.optionalTrail = true) ∧
        (ms.map (·.name)).Nodup := by
  fun_induction firstIssue seen ms with
  | case1 => simp
  | case2 seen m ms hblank => simp [hblank]
  | case3 seen m ms _ hseen => simp [List.contains_iff_mem.1 hseen]
  | case4 seen m ms _ _ htrail =>
    rw [Bool.not_eq_eq_eq_not, Bool.not_true] at htrail
    simp [htrail]
  | case5 seen m ms hblank hseen htrail ih =>
    rw [Bool.not_eq_true] at hblank
    rw [List.contains_iff_mem] at hseen
    rw [Bool.not_eq_true, Bool.not_eq_eq_eq_not, Bool.not_false] at htrail
    rw [ih]
    -- the name moves from the names seen before to those that must differ
    simp only [List.mem_cons, not_or, forall_eq_or_imp, List.map_cons, List.nodup_cons, List.mem_map, hblank,
      hseen, htrail, not_exists, not_and]
    grind

/-- In a contract without issues a function is found by its name. -/
theorem method?_eq_some {c : Contract} (h : c.issue? = none) {spec : MethodSpec} {name : String} :
    c.method? name = some spec ↔ spec ∈ c.methods ∧ spec.name = name := by
  obtain ⟨-, hnodup⟩ := firstIssue_eq_none.1 h
  constructor
  · intro hfind
    exact ⟨List.mem_of_find?_eq_some hfind, by simpa using List.find?_some hfind⟩
  · rintro ⟨hmem, rfl⟩
    have hsome : (c.method? spec.name).isSome = true :=
      List.find?_isSome.2 ⟨spec, hmem, beq_self_eq_true _⟩
    obtain ⟨found, hfound⟩ := Option.isSome_iff_exists.1 hsome
    have hname : found.name = spec.name := by simpa using List.find?_some hfound
    rw [hfound, List.inj_on_of_nodup_map hnodup (List.mem_of_find?_eq_some hfound) hmem hname]

end Contract

theorem Config.contract_issue? {config : Config} (h : config.issue? = none) : config.contract.issue? = none := by
  unfold Config.issue? at h
  split_ifs at h
  simpa using h

/-! ## What each rule asks for -/

theorem Member.kind_eq_remoteMethod {m : Member} : m.kind = .remoteMethod ↔ m.isRemote = true := by
  obtain ⟨span, f | name⟩ := m
  · unfold Member.kind
    split_ifs <;> simp_all
  · simp [Member.kind, Member.isRemote, Member.hasQualifier, Member.method?]

theorem Member.kind_eq_resourceMethod {m : Member} : m.kind = .resourceMethod ↔ m.isResource = true := by
  obtain ⟨span, f | name⟩ := m
  · unfold Member.kind
    split_ifs <;> simp_all [Member.isResource]
  · simp [Member.kind, Member.isResource, Member.hasQualifier, Member.method?]

theorem Service.mem_remoteMethods {s : Service} {f : Method} :
    f ∈ s.remoteMethods ↔ ∃ m ∈ s.members, m.kind = .remoteMethod ∧ m.method? = some f := by
  simp [Service.remoteMethods, Member.kind_eq_remoteMethod, and_assoc]

theorem Member.name?_of_method? {m : Member} {f : Method} (h : m.method? = some f) : m.name? = some f.name := by
  obtain ⟨span, _ | _⟩ := m <;> cases h
  rfl

theorem Member.exists_method? {m : Member} (h : m.kind = .remoteMethod) : ∃ f, m.method? = some f := by
  obtain ⟨span, f | name⟩ := m
  · exact ⟨f, rfl⟩
  · cases h

/-- A service that keeps to the contract of the listener. -/
structure Binding.Satisfies (b : Binding) (s : Service) : Prop where
  nonempty : s.members ≠ []
  required : ∀ spec ∈ b.config.contract.required,
    ∃ m ∈ s.members, m.kind = .remoteMethod ∧ m.name? = some spec.name
  noResource : ∀ m ∈ s.members, m.kind ≠ .resourceMethod
  remote : ∀ m ∈ s.members, m.kind = .remoteMethod → ∃ f spec, m.method? = some f ∧
    spec ∈ b.config.contract.methods ∧ spec.name = f.name ∧ spec.Accepts b.qualifier f.params

namespace Rule

variable {b : Binding} {s : Service}

theorem checkEmpty_eq_nil : checkEmpty b s = [] ↔ s.members ≠ [] := by
  unfold checkEmpty Service.isEmpty
  cases s.members <;> simp

theorem checkMissing_eq_nil : checkMissing b s = [] ↔
    s.members = [] ∨ ∀ spec ∈ b.config.contract.required, ∃ f ∈ s.remoteMethods, f.name = spec.name := by
  have hnone : missingMethods b s = [] ↔
      ∀ spec ∈ b.config.contract.required, ∃ f ∈ s.remoteMethods, f.name = spec.name := by
    simp [missingMethods, List.filter_eq_nil_iff]
  rw [← hnone, ← List.length_eq_zero_iff, checkMissing_length]
  simp [Service.isEmpty, or_iff_not_imp_left]

theorem checkUnknown_eq_nil [Similarity] : checkUnknown b s = [] ↔
    ∀ f ∈ s.remoteMethods, ∃ spec ∈ b.config.contract.methods, spec.name = f.name := by
  simp [checkUnknown, Contract.method?]

theorem checkSignature_eq_nil (h : b.config.contract.issue? = none) : checkSignature b s = [] ↔
    ∀ f ∈ s.remoteMethods, ∀ spec ∈ b.config.contract.methods, spec.name = f.name →
      spec.Accepts b.qualifier f.params := by
  obtain ⟨heach, -⟩ := Contract.firstIssue_eq_none.1 h
  have hfound : ∀ f : Method, signatureFinding? b f = none ↔
      ∀ spec ∈ b.config.contract.methods, spec.name = f.name → spec.Accepts b.qualifier f.params := by
    intro f
    simp only [signatureFinding?, Option.bind_eq_none_iff, Option.map_eq_none_iff, Contract.method?_eq_some h,
      and_imp]
    refine forall₂_congr fun spec hspec => imp_congr_right fun _ => ?_
    exact MethodSpec.mismatch?_eq_none_iff (heach spec hspec).2.2
  simp [checkSignature, hfound]

theorem checkResource_eq_nil : checkResource b s = [] ↔ ∀ m ∈ s.members, m.kind ≠ .resourceMethod := by
  simp [checkResource, Member.kind_eq_resourceMethod]

/-- The rules find nothing exactly when the service keeps to the contract. -/
theorem check_eq_nil_iff [Similarity] (h : b.config.contract.issue? = none) :
    (∀ rule : Rule, rule.check b s = []) ↔ b.Satisfies s := by
  constructor
  · intro hnil
    have hmembers := checkEmpty_eq_nil.1 (hnil .emptyService)
    have hrequired := (checkMissing_eq_nil.1 (hnil .missingRequiredMethod)).resolve_left hmembers
    have hknown := checkUnknown_eq_nil.1 (hnil .unknownRemoteMethod)
    have haccepts := (checkSignature_eq_nil h).1 (hnil .invalidMethodSignature)
    refine ⟨hmembers, fun spec hspec => ?_, checkResource_eq_nil.1 (hnil .resourceMethodNotAllowed),
      fun m hm hkind => ?_⟩
    · obtain ⟨f, hf, hname⟩ := hrequired spec hspec
      obtain ⟨m, hm, hkind, hmethod⟩ := Service.mem_remoteMethods.1 hf
      exact ⟨m, hm, hkind, by rw [Member.name?_of_method? hmethod, hname]⟩
    · obtain ⟨f, hmethod⟩ := Member.exists_method? hkind
      have hf := Service.mem_remoteMethods.2 ⟨m, hm, hkind, hmethod⟩
      obtain ⟨spec, hspec, hname⟩ := hknown f hf
      exact ⟨f, spec, hmethod, hspec, hname, haccepts f hf spec hspec hname⟩
  · rintro ⟨hmembers, hrequired, hresource, hremote⟩ rule
    have hfits : ∀ f ∈ s.remoteMethods, ∃ spec ∈ b.config.contract.methods, spec.name = f.name ∧
        spec.Accepts b.qualifier f.params := by
      intro f hf
      obtain ⟨m, hm, hkind, hmethod⟩ := Service.mem_remoteMethods.1 hf
      obtain ⟨f', spec, hmethod', hspec, hname, haccepts⟩ := hremote m hm hkind
      obtain rfl : f = f' := Option.some.inj (hmethod.symm.trans hmethod')
      exact ⟨spec, hspec, hname, haccepts⟩
    cases rule with
    | emptyService => exact checkEmpty_eq_nil.2 hmembers
    | missingRequiredMethod =>
      refine checkMissing_eq_nil.2 (Or.inr fun spec hspec => ?_)
      obtain ⟨m, hm, hkind, hname⟩ := hrequired spec hspec
      obtain ⟨f, hmethod⟩ := Member.exists_method? hkind
      rw [Member.name?_of_method? hmethod] at hname
      exact ⟨f, Service.mem_remoteMethods.2 ⟨m, hm, hkind, hmethod⟩, Option.some.inj hname⟩
    | unknownRemoteMethod =>
      refine checkUnknown_eq_nil.2 fun f hf => ?_
      obtain ⟨spec, hspec, hname, -⟩ := hfits f hf
      exact ⟨spec, hspec, hname⟩
    | invalidMethodSignature =>
      refine (checkSignature_eq_nil h).2 fun f hf spec hspec hname => ?_
      obtain ⟨spec', hspec', hname', haccepts⟩ := hfits f hf
      -- names are unique, so this is the function that accepts the parameters
      have hfound := (Contract.method?_eq_some h).2 ⟨hspec, hname⟩
      have hfound' := (Contract.method?_eq_some h).2 ⟨hspec', hname'⟩
      obtain rfl : spec = spec' := Option.some.inj (hfound.symm.trans hfound')
      exact haccepts
    | resourceMethodNotAllowed => exact checkResource_eq_nil.2 hresource

end Rule

/-! ## Diagnostics of a service -/

/-- The range of the diagnostic lies in the span. -/
def Diagnostic.Within (d : Diagnostic) (file : SourceFile) (span : Span) : Prop :=
  ∃ range, file.index.span? d.location = some range ∧ span.start ≤ range.start ∧ range.stop ≤ span.stop

section

variable {name : String} {text : List Char} {file : SourceFile} {config : Config} {b : Binding} {s : Service}

theorem Rule.mem_all (rule : Rule) : rule ∈ Rule.all := by
  cases rule <;> decide

/-- What a rule finds in a bound service is reported, unless the rule is off. -/
theorem Binding.exists_mem_validate [Similarity] (hb : Binding.resolve file config = some b) (hs : s ∈ b.services)
    {rule : Rule} (hon : config.level rule.name ≠ .off) {f : Finding} (hf : f ∈ rule.check b s) :
    ∃ d ∈ validate file config, d.location = file.location f.span := by
  obtain ⟨hfile, hconfig, -⟩ := Binding.resolve_eq_some hb
  obtain ⟨severity, hseverity⟩ : ∃ severity, (b.config.level rule.name).severity? = some severity := by
    rw [hconfig]
    cases hlevel : config.level rule.name <;> simp_all [Level.severity?]
  refine ⟨⟨rule, severity, b.file.location f.span, f.message⟩, ?_, by rw [hfile]⟩
  have hvalidate : validate file config = b.diagnostics := by rw [validate, hb]
  rw [hvalidate, Binding.diagnostics, List.mem_mergeSort, List.mem_flatMap]
  refine ⟨s, hs, List.mem_flatMap.2 ⟨rule, rule.mem_all, ?_⟩⟩
  rw [Binding.ruleDiagnostics, hseverity]
  exact List.mem_map_of_mem hf

/-- The location of a finding leads back to its span, which stands in the service. -/
theorem Binding.span?_finding [Similarity] (hparse : SourceFile.parse name text = .ok file)
    (hsize : Text.size text < UInt32.size) (hb : Binding.resolve file config = some b) (hs : s ∈ b.services)
    {rule : Rule} {f : Finding} (hf : f ∈ rule.check b s) :
    file.index.span? (file.location f.span) = some f.span ∧ f.span.Fits text s.span.start s.span.stop := by
  obtain ⟨hspan, hwell⟩ := Binding.service_fits hparse hb hs
  have hfit := Rule.check_fits hf hwell hspan
  obtain ⟨m, -, rfl⟩ := SourceFile.parse_eq_ok hparse
  exact ⟨LineIndex.span?_location hsize hfit name, hfit⟩

/-- A diagnostic lies in a bound service exactly when it reports a finding in that service. -/
theorem Binding.exists_within_iff [Similarity] (hparse : SourceFile.parse name text = .ok file)
    (hsize : Text.size text < UInt32.size) (hon : ∀ rule : Rule, config.level rule.name ≠ .off)
    (hb : Binding.resolve file config = some b) (hs : s ∈ b.services) :
    (∃ d ∈ validate file config, d.Within file s.span) ↔ ∃ rule : Rule, rule.check b s ≠ [] := by
  obtain ⟨hfile, -, -⟩ := Binding.resolve_eq_some hb
  have hmem : ∀ s ∈ b.services, s ∈ file.module.services := fun s hs => hfile ▸ (List.mem_filter.1 hs).1
  constructor
  · rintro ⟨d, hd, range, hrange, hstart, hstop⟩
    obtain ⟨b', s', f, hb', hs', hf, hlocation, -⟩ := mem_validate hd
    obtain rfl : b = b' := Option.some.inj (hb.symm.trans hb')
    obtain ⟨hback, hfit⟩ := Binding.span?_finding hparse hsize hb hs' hf
    rw [hlocation, hfile, hback] at hrange
    obtain rfl : f.span = range := Option.some.inj hrange
    -- the span is not empty, so the service that it was found in is the one it lies in
    have hlo := hfit.lo_le
    have hlt := hfit.lt
    have hhi := hfit.le_hi
    have hsame : s' = s := by
      rcases SourceFile.services_apart hparse (hmem s hs) (hmem s' hs') with h | h | h
      · exact h
      · omega
      · omega
    subst hsame
    exact ⟨d.rule, List.ne_nil_of_mem hf⟩
  · rintro ⟨rule, hfound⟩
    obtain ⟨f, hf⟩ := List.exists_mem_of_ne_nil _ hfound
    obtain ⟨d, hd, hlocation⟩ := Binding.exists_mem_validate hb hs (hon rule) hf
    obtain ⟨hback, hfit⟩ := Binding.span?_finding hparse hsize hb hs hf
    exact ⟨d, hd, f.span, by rw [hlocation, hback], hfit.lo_le, hfit.le_hi⟩

/-- A bound service gets no diagnostic exactly when it keeps to the contract. -/
theorem validate_decides_contract [Similarity] (hparse : SourceFile.parse name text = .ok file)
    (hsize : Text.size text < UInt32.size) (hconfig : config.issue? = none)
    (hon : ∀ rule : Rule, config.level rule.name ≠ .off) (hb : Binding.resolve file config = some b)
    (hs : s ∈ b.services) : (¬ ∃ d ∈ validate file config, d.Within file s.span) ↔ b.Satisfies s := by
  obtain ⟨-, hsame, -⟩ := Binding.resolve_eq_some hb
  have hissue : b.config.contract.issue? = none := hsame ▸ Config.contract_issue? hconfig
  rw [Binding.exists_within_iff hparse hsize hon hb hs, ← Rule.check_eq_nil_iff hissue]
  simp

end

/-- Of two bound services the first one leaves out an optional parameter and the second one is empty. -/
theorem validate_decides_contract_two : ∃ file config b s s', config = { module := "a/m" } ∧
    SourceFile.parse "m.bal" ("import a/m as q;service on new q:Listener()\x7bremote function ".toList ++
      "onMessage(q:Message m)\x7b\x7d\x7dservice on new q:Listener()\x7b\x7d".toList) = .ok file ∧
    Binding.resolve file config = some b ∧ b.services = [s, s'] ∧ b.Satisfies s ∧ ¬ b.Satisfies s' ∧
    (¬ ∃ d ∈ validate file config, d.Within file s.span) ∧ ∃ d ∈ validate file config, d.Within file s'.span := by
  generalize htext : "import a/m as q;service on new q:Listener()\x7bremote function ".toList ++
    "onMessage(q:Message m)\x7b\x7d\x7dservice on new q:Listener()\x7b\x7d".toList = text
  have hchars : text = _ ++ _ := htext.symm.trans (congrArg₂ _ String.toList_ofList String.toList_ofList)
  let config : Config := { module := "a/m" }
  have hcheck : (SourceFile.parse "m.bal" text).toOption.bind (fun file => (Binding.resolve file config).map fun b =>
      b.services.map fun s => Rule.all.all fun rule => (rule.check b s).isEmpty) = some [true, false] := by
    rw [hchars]
    decide +kernel
  have hsize : Text.size text < UInt32.size := by
    rw [hchars]
    decide +kernel
  have hon : ∀ rule : Rule, config.level rule.name ≠ .off := fun _ => by
    simp [config, Config.level, RuleTable.get?, RuleTable.empty]
  have hissue : config.issue? = none := by decide +kernel
  obtain ⟨file, hfile, hresolved⟩ := Option.bind_eq_some_iff.1 hcheck
  obtain ⟨b, hb, hfound⟩ := Option.map_eq_some_iff.1 hresolved
  have hparse := eq_ok_of_toOption hfile
  obtain ⟨-, hconfig, -⟩ := Binding.resolve_eq_some hb
  have hcontract : b.config.contract.issue? = none := by
    rw [hconfig]
    exact Config.contract_issue? hissue
  obtain ⟨s, rest, hservices, hs, hrest⟩ := List.map_eq_cons_iff.1 hfound
  obtain ⟨s', rest', hrest', hs', hnil⟩ := List.map_eq_cons_iff.1 hrest
  obtain rfl := List.map_eq_nil_iff.1 hnil
  subst hrest'
  have hnone : ∀ s : Service, (Rule.all.all fun rule => (rule.check b s).isEmpty) = true ↔ b.Satisfies s := by
    intro s
    rw [← Rule.check_eq_nil_iff hcontract]
    simp [Rule.mem_all]
  have hkeeps : b.Satisfies s := (hnone s).1 hs
  have hbreaks : ¬ b.Satisfies s' := fun h => by simp [(hnone s').2 h] at hs'
  refine ⟨file, config, b, s, s', rfl, hparse, hb, hservices, hkeeps, hbreaks, ?_, ?_⟩
  · exact (validate_decides_contract hparse hsize hissue hon hb (by simp [hservices])).2 hkeeps
  · by_contra hquiet
    exact hbreaks ((validate_decides_contract hparse hsize hissue hon hb (by simp [hservices])).1 hquiet)

end ServiceLint
