import ServiceLint.Package.Default
import ServiceLint.Proofs.Lint.Order

/-!
# Configured levels

Rules find the same under every table of levels (`Rule.check_withRules`). The table decides afterwards what becomes of
a finding, by the name of its rule and nothing else: `Diagnostic.configured?`. So the diagnostics of a file are those
of the configuration without levels, filtered and relabelled (`validate_configured`).
-/
namespace ServiceLint

/-- The diagnostic as the table of levels wants it: nothing when its rule is off, a warning when its rule is to warn,
and an error in all other cases. -/
def Diagnostic.configured? (rules : RuleTable) (d : Diagnostic) : Option Diagnostic :=
  match rules.get? d.rule.name with
  | some .off => none
  | some .warn => some { d with severity := .warning }
  | some .error | none => some { d with severity := .error }

def Config.withRules (c : Config) (rules : RuleTable) : Config := { c with rules }

def Binding.withRules (b : Binding) (rules : RuleTable) : Binding := { b with config := b.config.withRules rules }

theorem Diagnostic.configured?_congr {rules rules' : RuleTable} {d : Diagnostic}
    (h : rules'.get? d.rule.name = rules.get? d.rule.name) : d.configured? rules' = d.configured? rules := by
  rw [Diagnostic.configured?, Diagnostic.configured?, h]

theorem Rule.check_withRules [Similarity] (rule : Rule) (b : Binding) (rules : RuleTable) (s : Service) :
    rule.check (b.withRules rules) s = rule.check b s := by
  cases rule <;> rfl

namespace Binding

theorem resolve_withRules (file : SourceFile) (config : Config) (rules : RuleTable) :
    resolve file (config.withRules rules) = (resolve file config).map (·.withRules rules) := by
  rw [resolve, resolve, Option.map_map]
  rfl

@[simp]
theorem withRules_services (b : Binding) (rules : RuleTable) : (b.withRules rules).services = b.services := rfl

/-- What a rule reports is what it reports without levels, as its level wants it. -/
theorem ruleDiagnostics_configured [Similarity] (b : Binding) (s : Service) (rule : Rule) :
    b.ruleDiagnostics s rule =
      ((b.withRules .empty).ruleDiagnostics s rule).filterMap (Diagnostic.configured? b.config.rules) := by
  -- without levels every rule reports errors
  have hplain : (b.withRules .empty).ruleDiagnostics s rule = (rule.check b s).map fun f =>
      ⟨rule, .error, b.file.location f.span, f.message⟩ := by
    rw [← rule.check_withRules b .empty s]
    rfl
  rw [hplain, List.filterMap_map, ruleDiagnostics, Config.level]
  simp only [Function.comp_def, Diagnostic.configured?]
  rcases b.config.rules.get? rule.name with _ | _ | _ | _ <;> simp [Level.severity?]

theorem orderedDiagnostics_configured [Similarity] (b : Binding) (s : Service) :
    b.orderedDiagnostics s =
      ((b.withRules .empty).orderedDiagnostics s).filterMap (Diagnostic.configured? b.config.rules) := by
  have hmember : ∀ m : Member, b.memberDiagnostics m =
      ((b.withRules .empty).memberDiagnostics m).filterMap (Diagnostic.configured? b.config.rules) := by
    intro m
    rw [memberDiagnostics, memberDiagnostics, List.filterMap_flatMap]
    exact List.flatMap_congr fun rule _ => b.ruleDiagnostics_configured (.only m) rule
  rw [orderedDiagnostics, orderedDiagnostics, fixDiagnostics, fixDiagnostics, List.filterMap_append,
    List.filterMap_append, List.filterMap_flatMap, ← b.ruleDiagnostics_configured, ← b.ruleDiagnostics_configured]
  exact congrArg _ (List.flatMap_congr fun m _ => hmember m)

end Binding

section

variable {name : String} {text : List Char} {file : SourceFile} {config : Config}

theorem validate_eq_filterMap [Similarity] (hparse : SourceFile.parse name text = .ok file)
    (hsize : Text.size text < UInt32.size) (config : Config) :
    validate file config =
      (validate file (config.withRules .empty)).filterMap (Diagnostic.configured? config.rules) := by
  have hresolve := Binding.resolve_withRules file config .empty
  cases hb : Binding.resolve file config with
  | none =>
    rw [hb] at hresolve
    rw [validate, validate, hb, hresolve]
    rfl
  | some b =>
    rw [hb] at hresolve
    obtain ⟨-, hconfig, -⟩ := Binding.resolve_eq_some hb
    rw [validate_eq hparse hsize hb, validate_eq hparse hsize hresolve, List.filterMap_flatMap,
      Binding.withRules_services, ← hconfig]
    exact List.flatMap_congr fun s _ => b.orderedDiagnostics_configured s

/-- The levels of a configuration filter and relabel diagnostics and do nothing else, and only the levels of rules
count. -/
theorem validate_configured [Similarity] (hparse : SourceFile.parse name text = .ok file)
    (hsize : Text.size text < UInt32.size) (config : Config) :
    validate file config =
        (validate file (config.withRules .empty)).filterMap (Diagnostic.configured? config.rules) ∧
      ∀ rules : RuleTable, (∀ rule : Rule, rules.get? rule.name = config.rules.get? rule.name) →
        validate file (config.withRules rules) = validate file config := by
  refine ⟨validate_eq_filterMap hparse hsize config, fun rules hrules => ?_⟩
  rw [validate_eq_filterMap hparse hsize config, validate_eq_filterMap hparse hsize (config.withRules rules)]
  exact List.filterMap_congr fun d _ => Diagnostic.configured?_congr (hrules d.rule)

end

/-- An empty service and one with an unknown function. The one rule is off, the other is to warn, and a name that no
rule has is off too. -/
theorem validate_configured_mixed : ∃ text file config,
    text = "import m;service on new m:Listener()\x7b\x7d".toList ++
      "service on new m:Listener()\x7bremote function f()\x7b\x7d\x7d".toList ∧
    SourceFile.parse "m.bal" text = .ok file ∧ Text.size text < UInt32.size ∧
    config.rules.entries = [("empty_service", .off), ("other", .off), ("unknown_remote_method", .warn)] ∧
    (validate file (config.withRules .empty)).map (fun d => (d.rule, d.severity)) =
      [(.emptyService, .error), (.missingRequiredMethod, .error), (.unknownRemoteMethod, .error)] ∧
    validate file config =
      (validate file (config.withRules .empty)).filterMap (Diagnostic.configured? config.rules) ∧
    (validate file config).map (fun d => (d.rule, d.severity)) =
      [(.missingRequiredMethod, .error), (.unknownRemoteMethod, .warning)] ∧
    validate file (config.withRules (.ofList [("empty_service", .off), ("unknown_remote_method", .warn)])) =
      validate file config := by
  generalize htext : "import m;service on new m:Listener()\x7b\x7d".toList ++
      "service on new m:Listener()\x7bremote function f()\x7b\x7d\x7d".toList = text
  have hchars : text = _ ++ _ := htext.symm.trans (congrArg₂ _ String.toList_ofList String.toList_ofList)
  let config : Config := { module := "m", rules := .ofList [("empty_service", .off), ("other", .off),
    ("unknown_remote_method", .warn)] }
  let said : Binding → List (Rule × Severity) := fun b =>
    (b.services.flatMap b.orderedDiagnostics).map fun d => (d.rule, d.severity)
  -- sorting is left out of what is computed
  have hcheck : ((SourceFile.parse "m.bal" text).toOption.bind fun file =>
      (Binding.resolve file (config.withRules .empty)).bind fun plain =>
        (Binding.resolve file config).map fun b => (said plain, said b)) =
      some ([(.emptyService, .error), (.missingRequiredMethod, .error), (.unknownRemoteMethod, .error)],
        [(.missingRequiredMethod, .error), (.unknownRemoteMethod, .warning)]) := by
    rw [hchars]
    decide +kernel
  have hsize : Text.size text < UInt32.size := by
    rw [hchars]
    decide +kernel
  have hrules : ∀ rule : Rule, (RuleTable.ofList [("empty_service", .off), ("unknown_remote_method", .warn)]).get?
      rule.name = config.rules.get? rule.name := by
    intro rule
    cases rule <;> decide +kernel
  obtain ⟨file, hfile, hcheck⟩ := Option.bind_eq_some_iff.1 hcheck
  obtain ⟨plain, hplain, hcheck⟩ := Option.bind_eq_some_iff.1 hcheck
  obtain ⟨b, hb, hsaid⟩ := Option.map_eq_some_iff.1 hcheck
  have hparse := eq_ok_of_toOption hfile
  obtain ⟨hfilter, hsame⟩ := validate_configured hparse hsize config
  refine ⟨text, file, config, rfl, hparse, hsize, by decide +kernel, ?_, hfilter, ?_, hsame _ hrules⟩
  · rw [validate_eq hparse hsize hplain]
    exact (Prod.mk.inj hsaid).1
  · rw [validate_eq hparse hsize hb]
    exact (Prod.mk.inj hsaid).2

end ServiceLint
