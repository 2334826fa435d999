import ServiceLint.Proofs.Lint.Order

/-!
# What is said, without places

A diagnostic says something (`Diagnostic.key`) about a place. Services that differ in spans only get diagnostics that
say the same (`Binding.Alike.keys`), and so do files whose modules differ in spans only (`validate_keys_bare`).
-/
namespace ServiceLint

/-- What a diagnostic says, without its place. -/
def Diagnostic.key (d : Diagnostic) : String × Severity × String := (d.rule.code, d.severity, d.message)

namespace Binding

/-- What is said about a service in the order of the source, without places. -/
def keys [Similarity] (b : Binding) (s : Service) : List (String × Severity × String) :=
  (b.orderedDiagnostics s).map Diagnostic.key

/-- What is said about the members of a service, without places. -/
def memberKeys [Similarity] (b : Binding) (s : Service) : List (String × Severity × String) :=
  (s.members.flatMap b.memberDiagnostics).map Diagnostic.key

/-- What a rule says about a service is made of its messages, its code and its level. -/
theorem ruleDiagnostics_map_key [Similarity] (b : Binding) (s : Service) (rule : Rule) :
    (b.ruleDiagnostics s rule).map Diagnostic.key = ((rule.check b s).map (·.message)).filterMap fun message =>
      (b.config.level rule.name).severity?.map fun severity => (rule.code, severity, message) := by
  unfold ruleDiagnostics
  split
  · next hoff => simp [hoff]
  · next severity hon =>
    simp only [hon, Option.map_some, List.map_map, List.filterMap_map, List.filterMap_eq_map', Function.comp_def]
    rfl

theorem ruleDiagnostics_key [Similarity] {b b' : Binding} {s s' : Service} {rule : Rule}
    (hconfig : b'.config = b.config)
    (hmessages : (rule.check b' s').map (·.message) = (rule.check b s).map (·.message)) :
    (b'.ruleDiagnostics s' rule).map Diagnostic.key = (b.ruleDiagnostics s rule).map Diagnostic.key := by
  rw [ruleDiagnostics_map_key, ruleDiagnostics_map_key, hconfig, hmessages]

namespace Alike

variable {b b' : Binding}

theorem ruleDiagnostics_key [Similarity] (h : b.Alike b') {s s' : Service} (hbare : s'.bare = s.bare) (rule : Rule) :
    (b'.ruleDiagnostics s' rule).map Diagnostic.key = (b.ruleDiagnostics s rule).map Diagnostic.key := by
  refine Binding.ruleDiagnostics_key h.config ?_
  rw [h.check, ← rule.check_map (fun _ => 0) b s', ← rule.check_map (fun _ => 0) b s]
  exact congrArg _ (congrArg _ hbare)

theorem memberKeys [Similarity] (h : b.Alike b') {s s' : Service} (hbare : s'.bare = s.bare) :
    b'.memberKeys s' = b.memberKeys s := by
  have hmembers : s'.members.map Member.bare = s.members.map Member.bare := congrArg Service.members hbare
  have hone : ∀ m' m : Member, m'.bare = m.bare →
      (b'.memberDiagnostics m').map Diagnostic.key = (b.memberDiagnostics m).map Diagnostic.key := by
    intro m' m hm
    have honly : (Service.only m').bare = (Service.only m).bare := congrArg Service.only hm
    simp only [Binding.memberDiagnostics, List.map_flatMap, h.ruleDiagnostics_key honly]
  have := filter_flatMap_congr hmembers (p := fun _ => true) (q := fun _ => true) (fun _ _ _ => rfl) hone
  simpa only [Binding.memberKeys, List.map_flatMap, List.filter_true] using this

theorem keys [Similarity] (h : b.Alike b') {s s' : Service} (hbare : s'.bare = s.bare) : b'.keys s' = b.keys s := by
  have hmembers := h.memberKeys hbare
  simp only [Binding.memberKeys] at hmembers
  simp only [Binding.keys, Binding.orderedDiagnostics, Binding.fixDiagnostics, List.map_append, hmembers,
    h.ruleDiagnostics_key hbare]

end Alike

end Binding

theorem Binding.Alike.isBound_bare {b b' : Binding} {s s' : Service} (h : b.Alike b') (hbare : s'.bare = s.bare) :
    b'.isBound s' = b.isBound s := by
  have hself : b'.Alike b' := ⟨rfl, rfl, rfl⟩
  rw [← hself.isBound (fun _ => 0) s', ← h.isBound (fun _ => 0) s]
  exact congrArg b'.isBound hbare

/-! ## Files that differ in spans only -/

/-- What is selected from declarations that are alike is alike. -/
theorem filterMap_alike {α : Type _} {sel : Decl → Option α} {F G : Decl → Decl} {f g : α → α} {ds ds' : List Decl}
    (h : ds'.map F = ds.map G) (hf : ∀ d, sel (F d) = (sel d).map f) (hg : ∀ d, sel (G d) = (sel d).map g) :
    (ds'.filterMap sel).map f = (ds.filterMap sel).map g := by
  have hF : (ds'.map F).filterMap sel = (ds'.filterMap sel).map f := by
    rw [List.filterMap_map, List.map_filterMap]
    exact List.filterMap_congr fun d _ => hf d
  have hG : (ds.map G).filterMap sel = (ds.filterMap sel).map g := by
    rw [List.filterMap_map, List.map_filterMap]
    exact List.filterMap_congr fun d _ => hg d
  rw [← hF, h, hG]

/-- Under which name a file knows the configured module, and which of its services are bound. -/
def SourceFile.bound? (file : SourceFile) (config : Config) : Option (String × List Bool) :=
  (Binding.resolve file config).map fun b => (b.qualifier, file.module.services.map b.isBound)

section

variable {name : String} {text text' : List Char} {file file' : SourceFile} {config : Config}

/-- Files with the same imports and listeners import the configured module alike. -/
theorem Binding.resolve_cases (config : Config)
    (himports : file'.module.imports.map (Import.map fun _ => 0) =
      file.module.imports.map (Import.map fun _ => 0))
    (hlisteners : file'.module.listeners.map (Listener.map fun _ => 0) =
      file.module.listeners.map (Listener.map fun _ => 0)) :
    Binding.resolve file config = none ∧ Binding.resolve file' config = none ∨
      ∃ b b', Binding.resolve file config = some b ∧ Binding.resolve file' config = some b' ∧
        b.file = file ∧ b'.file = file' ∧ b.Alike b' := by
  cases hb : Binding.resolve file config with
  | some b =>
    obtain ⟨hfile, hconfig, -⟩ := Binding.resolve_eq_some hb
    exact Or.inr ⟨b, _, rfl, Binding.resolve_alike himports hb, hfile, rfl, hconfig.symm, rfl, hfile ▸ hlisteners⟩
  | none =>
    cases hb' : Binding.resolve file' config with
    | none => exact Or.inl ⟨rfl, rfl⟩
    | some b' =>
      rw [Binding.resolve_alike himports.symm hb'] at hb
      cases hb

/-- Files that differ in spans only import the configured module alike. -/
theorem Binding.resolve_bare (config : Config)
    (h : file'.module.decls.map Decl.bare = file.module.decls.map Decl.bare) :
    Binding.resolve file config = none ∧ Binding.resolve file' config = none ∨
      ∃ b b', Binding.resolve file config = some b ∧ Binding.resolve file' config = some b' ∧
        b.file = file ∧ b'.file = file' ∧ b.Alike b' :=
  Binding.resolve_cases config
    (filterMap_alike h (by rintro (_ | _ | _) <;> rfl) (by rintro (_ | _ | _) <;> rfl))
    (filterMap_alike h (by rintro (_ | _ | _) <;> rfl) (by rintro (_ | _ | _) <;> rfl))

theorem services_bare (h : file'.module.decls.map Decl.bare = file.module.decls.map Decl.bare) :
    file'.module.services.map Service.bare = file.module.services.map Service.bare :=
  filterMap_alike h (by rintro (_ | _ | _) <;> rfl) (by rintro (_ | _ | _) <;> rfl)

theorem SourceFile.bound?_bare (config : Config)
    (h : file'.module.decls.map Decl.bare = file.module.decls.map Decl.bare) :
    file'.bound? config = file.bound? config := by
  obtain ⟨hb, hb'⟩ | ⟨b, b', hb, hb', -, -, halike⟩ := Binding.resolve_bare config h
  · rw [SourceFile.bound?, SourceFile.bound?, hb, hb']
    rfl
  · have hflags := flatMap_congr_of_map (services_bare h) (F := fun s => [b'.isBound s]) (G := fun s => [b.isBound s])
      fun s' s hbare => by rw [halike.isBound_bare hbare]
    rw [← List.map_eq_flatMap, ← List.map_eq_flatMap] at hflags
    rw [SourceFile.bound?, SourceFile.bound?, hb, hb', Option.map_some, Option.map_some, halike.qualifier, hflags]

/-- Diagnostics say the same about files that differ in spans only. -/
theorem validate_keys_bare [Similarity] (config : Config) (hparse : SourceFile.parse name text = .ok file)
    (hparse' : SourceFile.parse name text' = .ok file') (hsize : Text.size text < UInt32.size)
    (hsize' : Text.size text' < UInt32.size)
    (h : file'.module.decls.map Decl.bare = file.module.decls.map Decl.bare) :
    (validate file' config).map Diagnostic.key = (validate file config).map Diagnostic.key := by
  obtain ⟨hb, hb'⟩ | ⟨b, b', hb, hb', hfile, hfile', halike⟩ := Binding.resolve_bare config h
  · rw [validate, validate, hb, hb']
  · rw [validate_eq hparse hsize hb, validate_eq hparse' hsize' hb', List.map_flatMap, List.map_flatMap]
    unfold Binding.services
    rw [hfile, hfile']
    exact filter_flatMap_congr (services_bare h) (fun s' s => halike.isBound_bare) fun s' s => halike.keys

end

end ServiceLint
