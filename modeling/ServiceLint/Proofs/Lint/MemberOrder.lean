import Mathlib.Data.List.Forall2
import ServiceLint.Proofs.Lint.Contract
import ServiceLint.Proofs.Lint.Keys

/-!
# The order of members

No rule depends on the order of the members of a service: reordered members give the same messages in some order
(`Rule.check_perm`). With what does not depend on spans, files that differ in spans and in the order of members get the
same reports, service by service (`validate_reordered`).
-/
namespace ServiceLint

/-! ## Reordered members -/

/-- The services differ in spans and in the order of their members only. -/
structure Service.Reorders (s s' : Service) : Prop where
  type : s'.typeDesc = s.typeDesc
  attachPoints : s'.attachPoints.map (AttachPoint.map fun _ => 0) = s.attachPoints.map (AttachPoint.map fun _ => 0)
  members : (s'.members.map Member.bare).Perm (s.members.map Member.bare)

/-- The declarations differ in spans and, if they are services, in the order of members only. -/
inductive Decl.Reorders : Decl → Decl → Prop
  | importDecl {d d' : Import} (h : (d'.map fun _ => 0) = d.map fun _ => 0) :
      Reorders (.importDecl d) (.importDecl d')
  | listenerDecl {d d' : Listener} (h : (d'.map fun _ => 0) = d.map fun _ => 0) :
      Reorders (.listenerDecl d) (.listenerDecl d')
  | serviceDecl {s s' : Service} (h : s.Reorders s') : Reorders (.serviceDecl s) (.serviceDecl s')

/-- The modules differ in spans and in the order of the members of their services only. -/
def Module.Reorders (m m' : Module) : Prop := List.Forall₂ Decl.Reorders m.decls m'.decls

instance (s s' : Service) : Decidable (s.Reorders s') :=
  decidable_of_iff (s'.typeDesc = s.typeDesc ∧
      s'.attachPoints.map (AttachPoint.map fun _ => 0) = s.attachPoints.map (AttachPoint.map fun _ => 0) ∧
      (s'.members.map Member.bare).Perm (s.members.map Member.bare))
    ⟨fun ⟨htype, hattach, hmembers⟩ => ⟨htype, hattach, hmembers⟩, fun h => ⟨h.type, h.attachPoints, h.members⟩⟩

instance Decl.decidableReorders : (d d' : Decl) → Decidable (d.Reorders d')
  | .importDecl d, .importDecl d' =>
    decidable_of_iff ((d'.map fun _ => 0) = d.map fun _ => 0) ⟨.importDecl, fun | .importDecl h => h⟩
  | .listenerDecl d, .listenerDecl d' =>
    decidable_of_iff ((d'.map fun _ => 0) = d.map fun _ => 0) ⟨.listenerDecl, fun | .listenerDecl h => h⟩
  | .serviceDecl s, .serviceDecl s' => decidable_of_iff (s.Reorders s') ⟨.serviceDecl, fun | .serviceDecl h => h⟩
  | .importDecl _, .listenerDecl _ | .importDecl _, .serviceDecl _ | .listenerDecl _, .importDecl _
  | .listenerDecl _, .serviceDecl _ | .serviceDecl _, .importDecl _ | .serviceDecl _, .listenerDecl _ => isFalse nofun

instance (m m' : Module) : Decidable (m.Reorders m') :=
  decidable_of_iff (m.decls.length = m'.decls.length ∧ ∀ p ∈ m.decls.zip m'.decls, p.1.Reorders p.2)
    (by simp [Module.Reorders, List.forall₂_iff_zip])

namespace Module.Reorders

variable {m m' : Module}

/-- What is selected from the declarations is alike where it is alike for each declaration. -/
theorem filterMap_map {α : Type _} {sel : Decl → Option α} {f : α → α} (h : m.Reorders m')
    (hsel : ∀ d d' : Decl, d.Reorders d' → (sel d').map f = (sel d).map f) :
    (m'.decls.filterMap sel).map f = (m.decls.filterMap sel).map f := by
  rw [List.map_filterMap, List.map_filterMap]
  unfold Module.Reorders at h
  generalize m.decls = ds, m'.decls = ds' at h
  induction h with
  | nil => rfl
  | cons hd _ ih => rw [List.filterMap_cons, List.filterMap_cons, hsel _ _ hd, ih]

theorem imports (h : m.Reorders m') :
    m'.imports.map (Import.map fun _ => 0) = m.imports.map (Import.map fun _ => 0) :=
  h.filterMap_map fun d d' hd => by cases hd <;> simp_all

theorem listeners (h : m.Reorders m') :
    m'.listeners.map (Listener.map fun _ => 0) = m.listeners.map (Listener.map fun _ => 0) :=
  h.filterMap_map fun d d' hd => by cases hd <;> simp_all

theorem services (h : m.Reorders m') : List.Forall₂ Service.Reorders m.services m'.services := by
  unfold Module.services
  unfold Module.Reorders at h
  generalize m.decls = ds, m'.decls = ds' at h
  induction h with
  | nil => exact .nil
  | cons hd _ ih =>
    cases hd with
    | importDecl => exact ih
    | listenerDecl => exact ih
    | serviceDecl hs => exact .cons hs ih

end Module.Reorders

/-! ## What rules say -/

theorem Service.remoteMethods_perm {s s' : Service} (h : s'.members.Perm s.members) :
    s'.remoteMethods.Perm s.remoteMethods :=
  (h.filter _).filterMap _

theorem Rule.missingMethods_perm (b : Binding) {s s' : Service} (h : s'.members.Perm s.members) :
    missingMethods b s' = missingMethods b s := by
  refine List.filter_congr fun name _ => ?_
  rw [(Service.remoteMethods_perm h).any_eq]

/-- Reordered members give the same messages in some order. -/
theorem Rule.check_perm [Similarity] (rule : Rule) (b : Binding) {s s' : Service} (h : s'.members.Perm s.members) :
    ((rule.check b s').map (·.message)).Perm ((rule.check b s).map (·.message)) := by
  by_cases hrule : rule ∈ Rule.ofMembers
  · rw [Rule.check_members hrule, Rule.check_members hrule b s]
    exact (h.flatMap_right _).map _
  · -- the service as a whole is empty or misses functions in either order
    refine List.Perm.of_eq ?_
    cases rule with
    | emptyService =>
      have hempty : s'.isEmpty = s.isEmpty := h.isEmpty_eq
      cases hs : s.isEmpty <;> simp [Rule.check, Rule.checkEmpty, hempty, hs]
    | missingRequiredMethod =>
      have hlast : s'.lastMember? = none ↔ s.lastMember? = none := by
        rw [Service.lastMember?, Service.lastMember?, List.getLast?_eq_none_iff, List.getLast?_eq_none_iff,
          ← List.length_eq_zero_iff, ← List.length_eq_zero_iff, h.length_eq]
      simp only [Rule.check, Rule.checkMissing, missingMethods_perm b h]
      cases hl : s.lastMember? <;> cases hl' : s'.lastMember? <;> simp [hl, hl'] at hlast
      · rfl
      · cases missingMethods b s <;> rfl
    | unknownRemoteMethod => exact absurd (by decide) hrule
    | invalidMethodSignature => exact absurd (by decide) hrule
    | resourceMethodNotAllowed => exact absurd (by decide) hrule

namespace Binding.Alike

variable {b b' : Binding} {s s' : Service}

theorem isBound_reorders (h : b.Alike b') (hs : s.Reorders s') : b'.isBound s' = b.isBound s := by
  have hself : b'.Alike b' := ⟨rfl, rfl, rfl⟩
  rw [← hself.isBound (fun _ => 0) s', ← h.isBound (fun _ => 0) s]
  exact congrArg (List.any · b'.isListenerAt) hs.attachPoints

theorem serviceDiagnostics_reorders [Similarity] (h : b.Alike b') (hs : s.Reorders s') :
    ((b'.serviceDiagnostics s').map Diagnostic.key).Perm ((b.serviceDiagnostics s).map Diagnostic.key) := by
  rw [Binding.serviceDiagnostics, Binding.serviceDiagnostics, List.map_flatMap, List.map_flatMap]
  refine List.Perm.flatMap_left _ fun rule _ => ?_
  have hmembers : s'.bare.members.Perm s.bare.members := hs.members
  have hmessages := rule.check_perm b hmembers
  rw [Binding.ruleDiagnostics_map_key, Binding.ruleDiagnostics_map_key, h.config, h.check]
  rw [Service.bare, Service.bare, Rule.check_map, Rule.check_map] at hmessages
  exact hmessages.filterMap _

end Binding.Alike

/-! ## What is reported for a service -/

/-- What `validate` reports for a service of the file: nothing when the service is not bound. -/
def SourceFile.reports [Similarity] (file : SourceFile) (config : Config) (s : Service) : List Diagnostic :=
  match Binding.resolve file config with
  | none => []
  | some b => if b.isBound s then b.serviceDiagnostics s else []

instance (d : Diagnostic) (file : SourceFile) (span : Span) : Decidable (d.Within file span) :=
  decidable_of_iff ((file.index.span? d.location).any fun range => span.start ≤ range.start ∧ range.stop ≤ span.stop)
    (by simp [Diagnostic.Within, Option.any_eq_true])

section

variable {name name' : String} {text text' : List Char} {file file' : SourceFile} {config : Config} {s : Service}

/-- What is reported for the services of a file is what `validate` says about it. -/
theorem validate_perm_reports [Similarity] (file : SourceFile) (config : Config) :
    (validate file config).Perm (file.module.services.flatMap (file.reports config)) := by
  unfold validate SourceFile.reports
  cases hb : Binding.resolve file config with
  | none => simp
  | some b =>
    obtain ⟨hfile, -, -⟩ := Binding.resolve_eq_some hb
    refine (List.mergeSort_perm _ _).trans (List.Perm.of_eq ?_)
    rw [Binding.services, hfile]
    induction file.module.services with
    | nil => rfl
    | cons s rest ih => cases hbound : b.isBound s <;> simp [hbound, ih]

/-- The ranges of what is reported for a service lead back into it. -/
theorem SourceFile.span?_reports [Similarity] (hparse : SourceFile.parse name text = .ok file)
    (hsize : Text.size text < UInt32.size) (hs : s ∈ file.module.services) {d : Diagnostic}
    (hd : d ∈ file.reports config s) :
    ∃ range, file.index.span? d.location = some range ∧ range.Fits text s.span.start s.span.stop := by
  unfold SourceFile.reports at hd
  cases hb : Binding.resolve file config with
  | none => simp [hb] at hd
  | some b =>
    obtain ⟨hfile, -, -⟩ := Binding.resolve_eq_some hb
    rw [hb] at hd
    cases hbound : b.isBound s with
    | false => simp [hbound] at hd
    | true =>
      have hreported : d ∈ b.serviceDiagnostics s := by simpa [hbound] using hd
      obtain ⟨rule, -, hrule⟩ := List.mem_flatMap.1 hreported
      obtain ⟨-, f, hf, hlocation, -⟩ := Binding.mem_ruleDiagnostics hrule
      have hmem : s ∈ b.services := List.mem_filter.2 ⟨hfile ▸ hs, hbound⟩
      obtain ⟨hback, hfit⟩ := Binding.span?_finding hparse hsize hb hmem hf
      exact ⟨f.span, by rw [hlocation, hfile, hback], hfit⟩

/-- Nothing that is reported for a service lies in one before or after it. -/
theorem SourceFile.reports_apart [Similarity] (config : Config) (hparse : SourceFile.parse name text = .ok file)
    (hsize : Text.size text < UInt32.size) {s' : Service} (hs' : s' ∈ file.module.services)
    (happart : s'.span.stop ≤ s.span.start ∨ s.span.stop ≤ s'.span.start) :
    (file.reports config s').filter (fun d => d.Within file s.span) = [] := by
  rw [List.filter_eq_nil_iff]
  intro d hd hwithin
  obtain ⟨range, hrange, hfit⟩ := SourceFile.span?_reports hparse hsize hs' hd
  obtain ⟨range', hrange', hstart, hstop⟩ := of_decide_eq_true hwithin
  obtain rfl : range = range' := Option.some.inj (hrange.symm.trans hrange')
  have hlo := hfit.lo_le
  have hlt := hfit.lt
  have hhi := hfit.le_hi
  omega

/-- What `validate` reports in the span of a service is what is reported for that service. -/
theorem validate_within [Similarity] (config : Config) (hparse : SourceFile.parse name text = .ok file)
    (hsize : Text.size text < UInt32.size) (hs : s ∈ file.module.services) :
    ((validate file config).filter fun d => d.Within file s.span).Perm (file.reports config s) := by
  refine ((validate_perm_reports file config).filter _).trans (List.Perm.of_eq ?_)
  have hself : (file.reports config s).filter (fun d => d.Within file s.span) = file.reports config s := by
    rw [List.filter_eq_self]
    intro d hd
    obtain ⟨range, hrange, hfit⟩ := SourceFile.span?_reports hparse hsize hs hd
    exact decide_eq_true ⟨range, hrange, hfit.lo_le, hfit.le_hi⟩
  obtain ⟨before, after, hsplit⟩ := List.append_of_mem hs
  have hpair : (before ++ s :: after).Pairwise fun s s' => s.span.stop ≤ s'.span.start := by
    obtain ⟨m, hm, rfl⟩ := SourceFile.parse_eq_ok hparse
    exact hsplit ▸ Module.services_pairwise hm
  obtain ⟨-, hafter, hbefore⟩ := List.pairwise_append.1 hpair
  have hnone : ∀ s' ∈ before, (file.reports config s').filter (fun d => d.Within file s.span) = [] := fun s' hs' =>
    SourceFile.reports_apart config hparse hsize (by simp [hsplit, hs'])
      (Or.inl (hbefore s' hs' s List.mem_cons_self))
  have hnone' : ∀ s' ∈ after, (file.reports config s').filter (fun d => d.Within file s.span) = [] := fun s' hs' =>
    SourceFile.reports_apart config hparse hsize (by simp [hsplit, hs'])
      (Or.inr ((List.pairwise_cons.1 hafter).1 s' hs'))
  rw [List.filter_flatMap, hsplit, List.flatMap_append, List.flatMap_cons, hself, List.flatMap_eq_nil_iff.2 hnone,
    List.flatMap_eq_nil_iff.2 hnone', List.append_nil, List.nil_append]

/-- Services that differ in spans and in the order of members get reports that say the same. -/
theorem SourceFile.reports_reorders [Similarity] (config : Config) (h : file.module.Reorders file'.module) :
    List.Forall₂ (fun s s' =>
      ((file.reports config s).map Diagnostic.key).Perm ((file'.reports config s').map Diagnostic.key))
      file.module.services file'.module.services := by
  unfold SourceFile.reports
  obtain ⟨hb, hb'⟩ | ⟨b, b', hb, hb', -, -, halike⟩ := Binding.resolve_cases config h.imports h.listeners
  · rw [hb, hb']
    exact h.services.imp fun _ _ _ => .refl _
  · rw [hb, hb']
    refine h.services.imp fun s s' hs => ?_
    simp only [halike.isBound_reorders hs]
    split
    · exact (halike.serviceDiagnostics_reorders hs).symm
    · exact .refl _

/-- The order of members does not matter. Files whose modules differ in spans and in the order of members get reports
service by service, and the reports for a service say the same in some order. In files of ordinary size they are what
`validate` reports in the span of the service. -/
theorem validate_reordered [Similarity] (config : Config) (hparse : SourceFile.parse name text = .ok file)
    (hparse' : SourceFile.parse name' text' = .ok file') (h : file.module.Reorders file'.module) :
    (validate file config).Perm (file.module.services.flatMap (file.reports config)) ∧
      (validate file' config).Perm (file'.module.services.flatMap (file'.reports config)) ∧
      List.Forall₂ (fun s s' =>
        ((file.reports config s).map Diagnostic.key).Perm ((file'.reports config s').map Diagnostic.key))
        file.module.services file'.module.services ∧
      (Text.size text < UInt32.size → Text.size text' < UInt32.size → List.Forall₂ (fun s s' =>
        (((validate file config).filter fun d => d.Within file s.span).map Diagnostic.key).Perm
          (((validate file' config).filter fun d => d.Within file' s'.span).map Diagnostic.key))
        file.module.services file'.module.services) := by
  have hreports := SourceFile.reports_reorders config h
  refine ⟨validate_perm_reports file config, validate_perm_reports file' config, hreports, fun hsize hsize' => ?_⟩
  rw [List.forall₂_iff_get] at hreports ⊢
  obtain ⟨hlength, hreports⟩ := hreports
  refine ⟨hlength, fun i hi hi' => ?_⟩
  have hone := (validate_within config hparse hsize (List.get_mem _ ⟨i, hi⟩)).map Diagnostic.key
  have hone' := (validate_within config hparse' hsize' (List.get_mem _ ⟨i, hi'⟩)).map Diagnostic.key
  exact hone.trans ((hreports i hi hi').trans hone'.symm)

end

/-- A field, a function given twice, a required function with the wrong signature and a resource, in two orders. -/
theorem validate_reordered_mixed : ∃ text text' file file',
    text = "import m;service on new m:Listener()\x7bint a;remote function f()\x7b\x7dremote function ".toList ++
      "onMessage()\x7b\x7dremote function f()\x7b\x7dresource function get b()\x7b\x7d\x7dservice on l\x7b\x7d".toList ∧
    text' = "import m; service on new m:Listener()\x7bremote function f()\x7b\x7d int a; resource function ".toList ++
      "get b()\x7b\x7dremote function f()\x7b\x7d remote function onMessage()\x7b\x7d\x7d service on l\x7b\x7d".toList ∧
    SourceFile.parse "m.bal" text = .ok file ∧ SourceFile.parse "n.bal" text' = .ok file' ∧
    file.module.Reorders file'.module ∧
    (validate file { module := "m" }).map (·.rule) =
      [.unknownRemoteMethod, .invalidMethodSignature, .unknownRemoteMethod, .resourceMethodNotAllowed] ∧
    (validate file' { module := "m" }).map (·.rule) =
      [.unknownRemoteMethod, .resourceMethodNotAllowed, .unknownRemoteMethod, .invalidMethodSignature] ∧
    Text.size text < UInt32.size ∧ Text.size text' < UInt32.size ∧ List.Forall₂ (fun s s' =>
      (((validate file { module := "m" }).filter fun d => d.Within file s.span).map Diagnostic.key).Perm
        (((validate file' { module := "m" }).filter fun d => d.Within file' s'.span).map Diagnostic.key))
      file.module.services file'.module.services := by
  generalize htext :
    "import m;service on new m:Listener()\x7bint a;remote function f()\x7b\x7dremote function ".toList ++
      "onMessage()\x7b\x7dremote function f()\x7b\x7dresource function get b()\x7b\x7d\x7dservice on l\x7b\x7d".toList =
    text
  generalize htext' :
    "import m; service on new m:Listener()\x7bremote function f()\x7b\x7d int a; resource function ".toList ++
      "get b()\x7b\x7dremote function f()\x7b\x7d remote function onMessage()\x7b\x7d\x7d service on l\x7b\x7d".toList =
    text'
  have hchars : text = _ ++ _ := htext.symm.trans (congrArg₂ _ String.toList_ofList String.toList_ofList)
  have hchars' : text' = _ ++ _ := htext'.symm.trans (congrArg₂ _ String.toList_ofList String.toList_ofList)
  let config : Config := { module := "m" }
  let said : Binding → List Rule := fun b => (b.services.flatMap b.orderedDiagnostics).map (·.rule)
  -- sorting is left out of what is computed
  have hcheck : ((SourceFile.parse "m.bal" text).toOption.bind fun file =>
      (SourceFile.parse "n.bal" text').toOption.bind fun file' => (Binding.resolve file config).bind fun b =>
        (Binding.resolve file' config).map fun b' =>
          (said b, said b', decide (file.module.Reorders file'.module))) =
      some ([.unknownRemoteMethod, .invalidMethodSignature, .unknownRemoteMethod, .resourceMethodNotAllowed],
        [.unknownRemoteMethod, .resourceMethodNotAllowed, .unknownRemoteMethod, .invalidMethodSignature], true) := by
    rw [hchars, hchars']
    decide +kernel
  have hsize : Text.size text < UInt32.size := by
    rw [hchars]
    decide +kernel
  have hsize' : Text.size text' < UInt32.size := by
    rw [hchars']
    decide +kernel
  obtain ⟨file, hfile, hcheck⟩ := Option.bind_eq_some_iff.1 hcheck
  obtain ⟨file', hfile', hcheck⟩ := Option.bind_eq_some_iff.1 hcheck
  obtain ⟨b, hb, hcheck⟩ := Option.bind_eq_some_iff.1 hcheck
  obtain ⟨b', hb', hcheck⟩ := Option.map_eq_some_iff.1 hcheck
  obtain ⟨hsaid, hrest⟩ := Prod.mk.inj hcheck
  obtain ⟨hsaid', hreorders⟩ := Prod.mk.inj hrest
  have hparse := eq_ok_of_toOption hfile
  have hparse' := eq_ok_of_toOption hfile'
  have hreorders := of_decide_eq_true hreorders
  obtain ⟨-, -, -, hkeys⟩ := validate_reordered config hparse hparse' hreorders
  refine ⟨text, text', file, file', rfl, rfl, hparse, hparse', hreorders, ?_, ?_, hsize, hsize', hkeys hsize hsize'⟩
  · rw [validate_eq hparse hsize hb]
    exact hsaid
  · rw [validate_eq hparse' hsize' hb']
    exact hsaid'

end ServiceLint
