import ServiceLint.Proofs.Action.Handler
import ServiceLint.Proofs.Lint.Keys
import ServiceLint.Proofs.Text.Trim

/-!
# What a handler settles

Under the built-in contract no rule has anything to say about a handler (`check_only_handler`), and a
service with a handler neither is empty nor misses a function. What is said about a service without its
handler and what is said with it therefore differ by what is said about the service as a whole
(`Binding.keys_push_handler`).
-/
namespace ServiceLint

/-! ## The types of a handler's parameters -/

/-- A parameter of a handler has the type of the module that it is meant to have. -/
theorem handlerParam_hasType {q type : String} (name : String) (hq : IsNameText q.toList)
    (htype : IsIdentifier type.toList) : (handlerParam q type name).hasType q type = true := by
  have htypeName : IsNameText type.toList := Or.inl htype
  have htext : (handlerParam q type name).typeText.toList = q.toList ++ ':' :: type.toList := by
    simp [handlerParam]
  have hcolon : ':' ∉ q.toList ∧ ':' ∉ type.toList :=
    ⟨hq.notMem (by decide) (by decide), htypeName.notMem (by decide) (by decide)⟩
  have hand : '&' ∉ q.toList ++ ':' :: type.toList := by
    simp only [List.mem_append, List.mem_cons, not_or]
    exact ⟨hq.notMem (by decide) (by decide), by decide, htypeName.notMem (by decide) (by decide)⟩
  have hblank : ∀ c ∈ q.toList ++ ':' :: type.toList, Text.isWhiteSpace c = false := by
    intro c hc
    simp only [List.mem_append, List.mem_cons] at hc
    rcases hc with hc | rfl | hc
    · exact hq.not_whiteSpace c hc
    · decide
    · exact htypeName.not_whiteSpace c hc
  have hlast : Param.lastMember (handlerParam q type name).typeText.toList =
      q.toList ++ ':' :: type.toList := by
    rw [Param.lastMember, htext, Text.afterLast_of_notMem hand, Text.trim_of_forall hblank]
  -- the type does not end with the mark of an optional type
  have hoptional : Text.dropEndWhile (· == '?') (q.toList ++ ':' :: type.toList) =
      q.toList ++ ':' :: type.toList := by
    obtain ⟨front, c, hc⟩ := (List.eq_nil_or_concat' type.toList).resolve_left (by
      rintro hnil
      rw [hnil] at htype
      exact htype)
    have hquestion : '?' ∉ type.toList := htypeName.notMem (by decide) (by decide)
    have hmark : c ≠ '?' := by
      rintro rfl
      exact hquestion (by rw [hc]; simp)
    rw [hc, ← List.cons_append, ← List.append_assoc]
    exact Text.dropEndWhile_concat (by simpa using hmark) _
  have hname : (handlerParam q type name).typeName = type := by
    rw [Param.typeName, hlast, hoptional, Text.afterLast_append hcolon.2,
      Text.trim_of_forall htypeName.not_whiteSpace, String.ofList_toList]
  have hqualifier : (handlerParam q type name).typeQualifier = some q := by
    rw [Param.typeQualifier, hlast, Text.beforeFirst?_append hcolon.1, Option.map_some,
      Text.trim_of_forall hq.not_whiteSpace, String.ofList_toList]
  rw [Param.hasType, hname, hqualifier]
  simp

/-! ## Rules -/

theorem signatureFinding?_handler {b : Binding} (hcontract : b.config.contract = Contract.builtin)
    (hq : IsNameText b.qualifier.toList) {m : Method} (hname : m.name = "onMessage") {kind : TemplateKind}
    (hparams : m.params = handlerParams b.qualifier kind) : Rule.signatureFinding? b m = none := by
  have hspec : b.config.contract.method? m.name =
      some ⟨"onMessage", [⟨"Message", false⟩, ⟨"Caller", true⟩]⟩ := by
    rw [hcontract, hname]
    rfl
  have hmessage : (handlerParam b.qualifier "Message" "message").hasType b.qualifier "Message" = true :=
    handlerParam_hasType _ hq (handlerWords_isIdentifier _ (by simp [handlerWords]))
  have hcaller : (handlerParam b.qualifier "Caller" "caller").hasType b.qualifier "Caller" = true :=
    handlerParam_hasType _ hq (handlerWords_isIdentifier _ (by simp [handlerWords]))
  rw [Rule.signatureFinding?, hspec, hparams]
  cases kind <;>
    simp [MethodSpec.mismatch?, MethodSpec.minArity, MethodSpec.maxArity, handlerParams, hmessage, hcaller]

theorem handler_remoteMethods (q : String) (kind : TemplateKind) :
    ∃ m : Method, (Service.only (handler q kind)).remoteMethods = [m] ∧ m.name = "onMessage" ∧
      m.params = handlerParams q kind :=
  ⟨_, rfl, rfl, rfl⟩

/-- No rule that looks at members finds anything in a handler. -/
theorem check_only_handler [Similarity] {b : Binding} (hcontract : b.config.contract = Contract.builtin)
    (hq : IsNameText b.qualifier.toList) (kind : TemplateKind) {rule : Rule} (hrule : rule ∈ Rule.ofMembers) :
    rule.check b (.only (handler b.qualifier kind)) = [] := by
  obtain ⟨m, hremotes, hname, hparams⟩ := handler_remoteMethods b.qualifier kind
  simp only [Rule.ofMembers, List.mem_cons, List.not_mem_nil, or_false] at hrule
  rcases hrule with rfl | rfl | rfl
  · have hknown : (b.config.contract.method? m.name).isNone = false := by
      rw [hcontract, hname]
      rfl
    simp [Rule.check, Rule.checkUnknown, hremotes, hknown]
  · simp [Rule.check, Rule.checkSignature, hremotes, signatureFinding?_handler hcontract hq hname hparams]
  · rfl

/-- A service with a handler is not empty and misses no function. -/
theorem check_push_handler [Similarity] {b : Binding} (hcontract : b.config.contract = Contract.builtin) (s : Service)
    (kind : TemplateKind) {rule : Rule} (hrule : rule.isFixable = true) :
    rule.check b (s.push (handler b.qualifier kind)) = [] := by
  cases rule with
  | emptyService => simp [Rule.check, Rule.checkEmpty, Service.isEmpty, Service.push]
  | missingRequiredMethod =>
    obtain ⟨m, hremotes, hname, -⟩ := handler_remoteMethods b.qualifier kind
    have hmem : m ∈ (s.push (handler b.qualifier kind)).remoteMethods := by
      rw [Service.remoteMethods_only]
      exact List.mem_flatMap.2 ⟨handler b.qualifier kind, by simp [Service.push], by simp [hremotes]⟩
    have hmissing : Rule.missingMethods b (s.push (handler b.qualifier kind)) = [] := by
      rw [Rule.missingMethods, hcontract, List.filter_eq_nil_iff]
      intro name hrequired
      obtain rfl : name = "onMessage" := by simpa [Contract.builtin] using hrequired
      rw [Bool.not_eq_true, Bool.not_eq_false', List.any_eq_true]
      exact ⟨m, hmem, by simp [hname]⟩
    simp only [Rule.check, Rule.checkMissing, hmissing]
    cases (s.push (handler b.qualifier kind)).lastMember? <;> rfl
  | unknownRemoteMethod => cases hrule
  | invalidMethodSignature => cases hrule
  | resourceMethodNotAllowed => cases hrule

namespace Binding

/-- With a handler there is nothing left to say about a service but what is said about its members. -/
theorem keys_push_handler [Similarity] {b : Binding} (hcontract : b.config.contract = Contract.builtin)
    (hq : IsNameText b.qualifier.toList) (kind : TemplateKind) (s : Service) :
    b.keys (s.push (handler b.qualifier kind)) = b.memberKeys s := by
  have hrule : ∀ (s : Service) (rule : Rule), rule.check b s = [] → b.ruleDiagnostics s rule = [] := by
    intro s rule h
    unfold ruleDiagnostics
    rw [h]
    split <;> rfl
  have hfix : b.fixDiagnostics (s.push (handler b.qualifier kind)) = [] := by
    rw [fixDiagnostics, hrule _ _ (check_push_handler hcontract s kind rfl),
      hrule _ _ (check_push_handler hcontract s kind rfl)]
    rfl
  have hhandler : b.memberDiagnostics (handler b.qualifier kind) = [] := by
    rw [memberDiagnostics, List.flatMap_eq_nil_iff]
    exact fun rule h => hrule _ _ (check_only_handler hcontract hq kind h)
  rw [keys, orderedDiagnostics, hfix, memberKeys, Service.push, List.flatMap_append, List.flatMap_singleton,
    hhandler, List.append_nil, List.nil_append]

end Binding

end ServiceLint
