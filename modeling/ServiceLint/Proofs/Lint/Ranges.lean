import ServiceLint.Package.Default
import ServiceLint.Proofs.Lint.Order
import ServiceLint.Proofs.Source.Outline

/-!
# The ranges of diagnostics

Every rule reports spans that stand in the service it looks at (`Rule.check_fits`). Such a span is located
without fault and its location leads back to it, and services do not overlap, so a range tells in which
service something was found. Together with the order of diagnostics this makes `validate` what it is however
its rules are listed (`validate_rangesExact`).

`validateBy?` is `validate` with its rules given as a list and with every location checked: it fails where
an end of a span lies inside a character or past the text, and where the ends are not in order.
-/
namespace ServiceLint

/-! ## Checked locations -/

/-- What one rule reports for a bound service, at checked locations. -/
def Binding.ruleDiagnostics? [Similarity] (b : Binding) (s : Service) (rule : Rule) :
    Except LocationError (List Diagnostic) :=
  match (b.config.level rule.name).severity? with
  | none => .ok []
  | some severity => (rule.check b s).mapM fun f => do
    let location ← b.file.index.location? b.file.name f.span
    return ⟨rule, severity, location, f.message⟩

/-- What the given rules report for all bound services, at checked locations, in order. -/
def Binding.diagnosticsBy? [Similarity] (rules : List Rule) (b : Binding) : Except LocationError (List Diagnostic) := do
  let found ← b.services.mapM fun s => rules.mapM (b.ruleDiagnostics? s)
  return found.flatten.flatten.mergeSort Diagnostic.le

/-- The diagnostics of a file by the given rules, at checked locations. -/
def validateBy? [Similarity] (rules : List Rule) (file : SourceFile) (config : Config) :
    Except LocationError (List Diagnostic) :=
  match Binding.resolve file config with
  | none => .ok []
  | some b => b.diagnosticsBy? rules

/-! ## Spans of findings -/

/-- What a rule finds in a service stands in the service. -/
theorem Rule.check_fits [Similarity] {text : List Char} {lo hi : Nat} {rule : Rule} {b : Binding} {s : Service}
    {f : Finding} (hf : f ∈ rule.check b s) (hs : s.WellLaid text) (hspan : s.span.Fits text lo hi) :
    f.span.Fits text s.span.start s.span.stop := by
  by_cases hfix : rule.isFixable = true
  · rw [Rule.check_anchor hfix hf]
    exact Service.anchor_fits hs hspan.self
  · have hmember : rule ∈ Rule.ofMembers := by
      cases rule <;> simp_all [Rule.isFixable, Rule.ofMembers]
    rw [Rule.check_members hmember, List.mem_flatMap] at hf
    obtain ⟨m, hm, hf⟩ := hf
    have hfit := hs.members.fits (List.mem_map_of_mem (f := Member.span) hm)
    -- the member lies between the braces of the service
    have hlo := hs.openBrace.lo_le
    have hopen := hs.openBrace.lt
    have hclose := hs.closeBrace.lt
    have hhi := hs.closeBrace.le_hi
    have hmlo := hfit.lo_le
    have hmhi := hfit.le_hi
    exact (Rule.check_only_fits hmember hf (hs.each m hm) hfit).mono (by omega) (by omega)

section

variable {name : String} {text : List Char} {file : SourceFile} {config : Config} {b : Binding} {s : Service}

/-- What a rule reports for a bound service is located without fault. -/
theorem Binding.ruleDiagnostics?_eq [Similarity] (hparse : SourceFile.parse name text = .ok file)
    (hsize : Text.size text < UInt32.size) (hb : Binding.resolve file config = some b) (hs : s ∈ b.services)
    (rule : Rule) : b.ruleDiagnostics? s rule = .ok (b.ruleDiagnostics s rule) := by
  obtain ⟨hspan, hwell⟩ := Binding.service_fits hparse hb hs
  obtain ⟨hfile, -, -⟩ := Binding.resolve_eq_some hb
  obtain ⟨m, -, rfl⟩ := SourceFile.parse_eq_ok hparse
  unfold ruleDiagnostics? ruleDiagnostics
  cases (b.config.level rule.name).severity? with
  | none => rfl
  | some severity =>
    refine mapM_eq_ok_map fun f hf => ?_
    have hlocation := LineIndex.location?_eq hsize (Rule.check_fits hf hwell hspan) name
    rw [hfile, hlocation]
    rfl

/-- However the rules are listed, no location is at fault and the diagnostics are the same. -/
theorem Binding.diagnosticsBy?_eq [Similarity] {rules : List Rule} (hparse : SourceFile.parse name text = .ok file)
    (hsize : Text.size text < UInt32.size) (hb : Binding.resolve file config = some b)
    (hrules : rules.Perm Rule.all) : b.diagnosticsBy? rules = .ok b.diagnostics := by
  have hfound : (b.services.mapM fun s => rules.mapM (b.ruleDiagnostics? s)) =
      .ok (b.services.map fun s => rules.map (b.ruleDiagnostics s)) :=
    mapM_eq_ok_map fun s hs => mapM_eq_ok_map fun rule _ =>
      Binding.ruleDiagnostics?_eq hparse hsize hb hs rule
  have hperm : (b.services.map fun s => rules.map (b.ruleDiagnostics s)).flatten.flatten.Perm
      (b.services.flatMap b.serviceDiagnostics) := by
    rw [List.flatten_flatten, List.map_map, ← List.flatMap_def]
    refine List.Perm.flatMap_left _ fun s _ => ?_
    rw [Function.comp_apply, ← List.flatMap_def]
    exact hrules.flatMap_right _
  rw [Binding.diagnosticsBy?, hfound, Binding.diagnostics_eq hparse hsize hb,
    ← Binding.mergeSort_eq hparse hsize hb hperm]
  rfl

/-- The services of a file do not overlap. -/
theorem SourceFile.services_apart {s' : Service} (hparse : SourceFile.parse name text = .ok file)
    (hs : s ∈ file.module.services) (hs' : s' ∈ file.module.services) :
    s' = s ∨ s.span.stop ≤ s'.span.start ∨ s'.span.stop ≤ s.span.start := by
  obtain ⟨m, hm, rfl⟩ := SourceFile.parse_eq_ok hparse
  rcases rel_of_pairwise (Module.services_pairwise hm) hs hs' with h | h | h
  · exact Or.inl h.symm
  · exact Or.inr (Or.inl h)
  · exact Or.inr (Or.inr h)

end

/-! ## The diagnostics of a file -/

/-- The ranges of the diagnostics of a file are exact and in order. -/
structure RangesExact [Similarity] (file : SourceFile) (config : Config) : Prop where
  /-- Every location is checked without fault, and the rules may be listed in any order. -/
  checked : ∀ rules, rules.Perm Rule.all → validateBy? rules file config = .ok (validate file config)
  /-- A range leads back to the span that the rule reported for a bound service. The span lies in that
  service and touches no other one, bound or not. -/
  exact : ∀ d ∈ validate file config, ∃ b s f, Binding.resolve file config = some b ∧ s ∈ b.services ∧
    f ∈ d.rule.check b s ∧ d.message = f.message ∧ file.index.span? d.location = some f.span ∧
    s.span.start ≤ f.span.start ∧ f.span.start < f.span.stop ∧ f.span.stop ≤ s.span.stop ∧
    ∀ s' ∈ file.module.services, s' = s ∨ f.span.stop ≤ s'.span.start ∨ s'.span.stop ≤ f.span.start
  /-- Ranges start one after the other. -/
  increasing : (validate file config).Pairwise fun d d' => d.location.start.lt d'.location.start = true

/-- Diagnostic ranges are exact and totally ordered, for every file that was parsed and every
configuration. -/
theorem validate_rangesExact [Similarity] {name : String} {text : List Char} {file : SourceFile} (config : Config)
    (hparse : SourceFile.parse name text = .ok file) (hsize : Text.size text < UInt32.size) :
    RangesExact file config := by
  constructor
  case checked =>
    intro rules hrules
    unfold validateBy? validate
    cases hb : Binding.resolve file config with
    | none => rfl
    | some b => exact Binding.diagnosticsBy?_eq hparse hsize hb hrules
  case exact =>
    intro d hd
    obtain ⟨b, s, f, hb, hs, hf, hlocation, hmessage⟩ := mem_validate hd
    obtain ⟨hspan, hwell⟩ := Binding.service_fits hparse hb hs
    have hfit := Rule.check_fits hf hwell hspan
    have hback : file.index.span? d.location = some f.span := by
      obtain ⟨hfile, -, -⟩ := Binding.resolve_eq_some hb
      obtain ⟨m, -, rfl⟩ := SourceFile.parse_eq_ok hparse
      rw [hlocation, hfile]
      exact LineIndex.span?_location hsize hfit name
    refine ⟨b, s, f, hb, hs, hf, hmessage, hback, hfit.lo_le, hfit.lt, hfit.le_hi, fun s' hs' => ?_⟩
    have hmem : s ∈ file.module.services := by
      obtain ⟨hfile, -, -⟩ := Binding.resolve_eq_some hb
      exact hfile ▸ (List.mem_filter.1 hs).1
    have hlo := hfit.lo_le
    have hhi := hfit.le_hi
    rcases SourceFile.services_apart hparse hmem hs' with h | h | h
    · exact Or.inl h
    · exact Or.inr (Or.inl (by omega))
    · exact Or.inr (Or.inr (by omega))
  case increasing =>
    cases hb : Binding.resolve file config with
    | none =>
      rw [validate, hb]
      exact .nil
    | some b =>
      rw [validate_eq hparse hsize hb]
      exact Binding.ordered_pairwise hparse hsize hb

/-- An unbound service between two bound ones; a function of the last one is unknown, and it has a resource
where the line ends with a carriage return. -/
theorem validate_rangesExact_mixed :
    ∃ file, SourceFile.parse "m.bal" ("import ballerina/mqtt;\r\nservice on new mqtt:Listener(1) \x7b\x7d\r\n".toList ++
        "service on new http:Listener(2) \x7b\x7d // ü\r\nservice on new mqtt:Listener(3) \x7b\r\n".toList ++
        "remote function onOpen() \x7b\x7d resource function get a() \x7b\x7d\r\n\x7d".toList) = .ok file ∧
      (validate file {}).map (·.rule) = [.emptyService, .missingRequiredMethod, .unknownRemoteMethod,
        .resourceMethodNotAllowed] ∧ RangesExact file {} := by
  generalize htext : "import ballerina/mqtt;\r\nservice on new mqtt:Listener(1) \x7b\x7d\r\n".toList ++
    "service on new http:Listener(2) \x7b\x7d // ü\r\nservice on new mqtt:Listener(3) \x7b\r\n".toList ++
    "remote function onOpen() \x7b\x7d resource function get a() \x7b\x7d\r\n\x7d".toList = text
  -- sorting is left out of what is computed
  have hcheck : (SourceFile.parse "m.bal" text).toOption.map (fun file =>
      (Binding.resolve file {}).map fun b => (b.services.flatMap b.orderedDiagnostics).map (·.rule)) =
      some (some [.emptyService, .missingRequiredMethod, .unknownRemoteMethod, .resourceMethodNotAllowed]) := by
    rw [← htext]
    decide +kernel
  have hsize : Text.size text < UInt32.size := by
    rw [← htext]
    decide +kernel
  obtain ⟨file, hfile, hresolved⟩ := Option.map_eq_some_iff.1 hcheck
  obtain ⟨b, hb, hrules⟩ := Option.map_eq_some_iff.1 hresolved
  have hparse := eq_ok_of_toOption hfile
  refine ⟨file, hparse, ?_, validate_rangesExact {} hparse hsize⟩
  rw [validate_eq hparse hsize hb]
  exact hrules

end ServiceLint
