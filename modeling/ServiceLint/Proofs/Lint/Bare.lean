import ServiceLint.Lint.Diagnostic
import ServiceLint.Proofs.Source.Move

/-!
# What rules look at

Which services are bound and what rules say about them depends on the trees without their spans: moving a
module changes where things are found and nothing else (`Rule.check_map`, `Binding.isBound_map`).

Three rules look at one member at a time (`Rule.check_members`); the other two look at the service as a
whole.
-/
namespace ServiceLint

/-! ## Moved services -/

section

variable (g : Nat → Nat)

@[simp]
theorem Member.map_method? (m : Member) : (m.map g).method? = m.method?.map (Method.map g) := by
  obtain ⟨_, _ | _⟩ := m <;> rfl

theorem Member.map_hasQualifier (m : Member) (q : String) : (m.map g).hasQualifier q = m.hasQualifier q := by
  obtain ⟨_, _ | _⟩ := m <;> rfl

@[simp]
theorem Member.map_isRemote (m : Member) : (m.map g).isRemote = m.isRemote := m.map_hasQualifier g _

@[simp]
theorem Member.map_isResource (m : Member) : (m.map g).isResource = m.isResource := by
  rw [Member.isResource, Member.isResource, Member.map_isRemote, Member.map_hasQualifier]

theorem Service.map_remoteMethods (s : Service) :
    (s.map g).remoteMethods = s.remoteMethods.map (Method.map g) := by
  simp [Service.remoteMethods, Service.map, List.filter_map, List.filterMap_map, List.map_filterMap,
    Function.comp_def]

theorem Service.map_isEmpty (s : Service) : (s.map g).isEmpty = s.isEmpty := by
  simp [Service.isEmpty, Service.map]

theorem Service.map_lastMember? (s : Service) : (s.map g).lastMember? = s.lastMember?.map (Member.map g) := by
  simp [Service.lastMember?, Service.map]

theorem Param.map_hasType (p : Param) (q expected : String) :
    (p.map g).hasType q expected = p.hasType q expected :=
  rfl

theorem MethodSpec.mismatch?_map (spec : MethodSpec) (q : String) (ps : List Param) :
    (spec.mismatch? q (ps.map (Param.map g))).map (Mismatch.describe q) =
      (spec.mismatch? q ps).map (Mismatch.describe q) := by
  unfold MethodSpec.mismatch?
  rw [List.length_map]
  split
  · rfl
  · rw [List.zip_map_left, List.find?_map]
    simp only [Function.comp_def, Prod.map, Param.map_hasType, Option.map_map, id]
    rfl

theorem Rule.signatureFinding?_map (b : Binding) (m : Method) :
    (Rule.signatureFinding? b (m.map g)).map (·.message) = (Rule.signatureFinding? b m).map (·.message) := by
  have hname : (m.map g).name = m.name := rfl
  have hparams : (m.map g).params = m.params.map (Param.map g) := rfl
  unfold Rule.signatureFinding?
  rw [hname, hparams]
  cases b.config.contract.method? m.name with
  | none => rfl
  | some spec =>
    -- the message depends on the mismatch by its wording only
    have hwords := spec.mismatch?_map g b.qualifier m.params
    rw [Option.bind_some, Option.bind_some]
    cases hmoved : spec.mismatch? b.qualifier (m.params.map (Param.map g)) with
    | none =>
      rw [hmoved, Option.map_none, eq_comm, Option.map_eq_none_iff] at hwords
      rw [hwords]
      rfl
    | some x =>
      rw [hmoved, Option.map_some, eq_comm, Option.map_eq_some_iff] at hwords
      obtain ⟨y, hy, hsame⟩ := hwords
      rw [hy, Option.map_some, Option.map_some, Option.map_some, Option.map_some, hsame]

/-- A moved service gives the same messages. -/
theorem Rule.check_map [Similarity] (rule : Rule) (b : Binding) (s : Service) :
    (rule.check b (s.map g)).map (·.message) = (rule.check b s).map (·.message) := by
  cases rule with
  | emptyService =>
    simp only [Rule.check, Rule.checkEmpty, Service.map_isEmpty]
    split <;> rfl
  | missingRequiredMethod =>
    have hmissing : Rule.missingMethods b (s.map g) = Rule.missingMethods b s := by
      simp [Rule.missingMethods, Service.map_remoteMethods, Method.map, Function.comp_def]
    simp only [Rule.check, Rule.checkMissing, Service.map_lastMember?, hmissing]
    cases s.lastMember? with
    | none => rfl
    | some last => cases Rule.missingMethods b s <;> rfl
  | unknownRemoteMethod =>
    simp [Rule.check, Rule.checkUnknown, Service.map_remoteMethods, List.filter_map, Function.comp_def,
      Method.map]
  | invalidMethodSignature =>
    simp only [Rule.check, Rule.checkSignature, Service.map_remoteMethods, List.filterMap_map,
      List.map_filterMap, Function.comp_apply, Rule.signatureFinding?_map]
  | resourceMethodNotAllowed =>
    simp [Rule.check, Rule.checkResource, Service.map, List.filter_map, Function.comp_def]

end

theorem Rule.checkMissing_length (b : Binding) (s : Service) :
    (Rule.checkMissing b s).length =
      if s.isEmpty || (Rule.missingMethods b s).isEmpty then 0 else 1 := by
  unfold Rule.checkMissing Service.isEmpty Service.lastMember?
  rcases List.eq_nil_or_concat s.members with hms | ⟨front, last, hms⟩
  · simp [hms]
  · cases hmissing : Rule.missingMethods b s <;> simp [hms]

/-! ## Bound services -/

/-- A file with alike imports calls the module by the same name. -/
theorem Binding.resolve_alike {file file' : SourceFile} {config : Config} {b : Binding}
    (h : file'.module.imports.map (Import.map fun _ => 0) = file.module.imports.map (Import.map fun _ => 0))
    (hb : Binding.resolve file config = some b) :
    Binding.resolve file' config = some ⟨file', config, b.qualifier⟩ := by
  have hfind : ∀ imports : List Import,
      (imports.find? (·.qualifiedName == config.module)).map (·.localName) =
        ((imports.map (Import.map fun _ => 0)).find? (·.qualifiedName == config.module)).map (·.localName) := by
    intro imports
    rw [List.find?_map, Option.map_map]
    rfl
  have hname : (file'.module.imports.find? (·.qualifiedName == config.module)).map (·.localName) =
      some b.qualifier := by
    rw [hfind, h, ← hfind]
    obtain ⟨i, hi, rfl⟩ := Option.map_eq_some_iff.1 hb
    rw [hi]
    rfl
  obtain ⟨i, hi, hq⟩ := Option.map_eq_some_iff.1 hname
  rw [Binding.resolve, hi, Option.map_some, hq]

/-- Bindings that see the same listeners under the same name. -/
structure Binding.Alike (b b' : Binding) : Prop where
  config : b'.config = b.config
  qualifier : b'.qualifier = b.qualifier
  listeners : b'.file.module.listeners.map (Listener.map fun _ => 0) =
    b.file.module.listeners.map (Listener.map fun _ => 0)

theorem Module.listener?_alike {m m' : Module}
    (h : m'.listeners.map (Listener.map fun _ => 0) = m.listeners.map (Listener.map fun _ => 0))
    (name : String) : ((m'.listener? name).bind (·.type)) = (m.listener? name).bind (·.type) := by
  have hfind : ∀ ls : List Listener, ((ls.find? (·.name == name)).bind (·.type)) =
      ((ls.map (Listener.map fun _ => 0)).find? (·.name == name)).bind (·.type) := by
    intro ls
    rw [List.find?_map, Option.bind_map]
    rfl
  rw [Module.listener?, Module.listener?, hfind, hfind m.listeners, h]

/-- Whether a service is bound does not depend on spans. -/
theorem Binding.Alike.isBound {b b' : Binding} (h : b.Alike b') (g : Nat → Nat) (s : Service) :
    b'.isBound (s.map g) = b.isBound s := by
  have hpoint : ∀ a : AttachPoint, b'.isListenerAt (a.map g) = b.isListenerAt a := by
    intro a
    have hlistener : b'.isListener = b.isListener := by
      funext t
      rw [Binding.isListener, Binding.isListener, h.config, h.qualifier]
    cases a with
    | listener name span =>
      simp only [AttachPoint.map, Binding.isListenerAt, hlistener, Module.listener?_alike h.listeners]
    | new type span => simp only [AttachPoint.map, Binding.isListenerAt, hlistener]
    | other span => rfl
  simp [Binding.isBound, Service.map, List.any_map, Function.comp_def, hpoint]

theorem Binding.Alike.check [Similarity] {b b' : Binding} (h : b.Alike b') (rule : Rule) (s : Service) :
    rule.check b' s = rule.check b s := by
  obtain ⟨file, config, q⟩ := b
  obtain ⟨file', config', q'⟩ := b'
  obtain ⟨rfl, rfl, -⟩ := h
  cases rule <;> rfl

/-! ## One member at a time -/

/-- A service with one member and nothing else. -/
def Service.only (m : Member) : Service := ⟨⟨0, 0⟩, none, [], ⟨0, 0⟩, ⟨0, 0⟩, [m]⟩

/-- The rules that look at one member at a time. -/
def Rule.ofMembers : List Rule := [.unknownRemoteMethod, .invalidMethodSignature, .resourceMethodNotAllowed]

theorem Service.remoteMethods_only (s : Service) :
    s.remoteMethods = s.members.flatMap fun m => (Service.only m).remoteMethods := by
  unfold Service.remoteMethods
  induction s.members with
  | nil => rfl
  | cons m ms ih =>
    rw [List.flatMap_cons, ← ih, Service.only, ← List.filterMap_append, ← List.filter_append]
    rfl

theorem Service.only_remoteMethods (m : Member) :
    (Service.only m).remoteMethods = if m.isRemote then m.method?.toList else [] := by
  cases hr : m.isRemote <;> cases hf : m.method? <;> simp [Service.remoteMethods, Service.only, hr, hf]

/-- Such a rule finds in a service what it finds in each member. -/
theorem Rule.check_members [Similarity] {rule : Rule} (h : rule ∈ Rule.ofMembers) (b : Binding) (s : Service) :
    rule.check b s = s.members.flatMap fun m => rule.check b (.only m) := by
  simp only [Rule.ofMembers, List.mem_cons, List.not_mem_nil, or_false] at h
  rcases h with rfl | rfl | rfl
  · simp only [Rule.check, Rule.checkUnknown]
    rw [Service.remoteMethods_only, List.filter_flatMap, List.map_flatMap]
  · simp only [Rule.check, Rule.checkSignature]
    rw [Service.remoteMethods_only, List.filterMap_flatMap]
  · simp only [Rule.check, Rule.checkResource]
    induction s.members with
    | nil => rfl
    | cons m ms ih =>
      rw [List.flatMap_cons, ← ih, Service.only, ← List.map_append, ← List.filter_append]
      rfl

end ServiceLint
