import ServiceLint.Package.Default
import ServiceLint.Proofs.Lint.Findings
import ServiceLint.Proofs.Wire.RoundTrip

/-!
# Carrying out actions

What it takes for an action to be carried out (`execute_store_eq_ok_iff`) and for an edit to apply
(`TextEdit.apply_eq`). Actions that are offered for the diagnostics of a file meet both.
-/
namespace ServiceLint

/-! ## Edits -/

/-- A single edit applies wherever its location stands in the text. -/
theorem TextEdit.apply_eq {text : List Char} {e : TextEdit} {s : Span}
    (hs : (LineIndex.ofText text).span? e.location = some s) (hle : s.start ≤ s.stop) :
    TextEdit.apply text e = .ok (splice text s e.newText.toList) := by
  have hplace : [e].mapM (place (LineIndex.ofText text)) = .ok [⟨s, e⟩] := by
    simp [place, hs, hle, bind, Except.bind, pure, Except.pure]
  simp [TextEdit.apply, applyAll, hplace, bind, Except.bind, firstOverlap?, applyPlaced, pure, Except.pure]

/-! ## Actions -/

def TemplateKind.template : TemplateKind → Template
  | .withCaller => .builtinWithCaller
  | .withoutCaller => .builtinWithoutCaller

theorem TemplateStore.builtin_get? (kind : TemplateKind) :
    TemplateStore.builtin.get? kind.name = some kind.template := by
  cases kind <;> rfl

/-- Where a handler for a bound service goes that starts in the column. -/
def Binding.place (b : Binding) (column : Nat) : Placement :=
  ⟨b.qualifier, column + b.config.indent.toNat, b.config.indent.toNat, b.file.lineEnding⟩

/-- What an action puts in place of the anchor of a bound service that starts in the given column. -/
def Binding.replacement (b : Binding) (s : Service) (column : Nat) (kind : TemplateKind) : List Char :=
  let place : Placement :=
    ⟨b.qualifier, column + b.config.indent.toNat, b.config.indent.toNat, b.file.lineEnding⟩
  s.withTemplate b.file column (place.render kind.template.body.toList)

namespace CodeAction

variable {a : CodeAction} {file : SourceFile} {config : Config}

theorem spanIn_eq_ok_iff {l : Location} {s : Span} :
    a.spanIn file = .ok (l, s) ↔
      a.location = .ok l ∧ l.file = file.name ∧ file.index.span? l = some s := by
  constructor
  · intro h
    cases ha : a.location with
    | error e => simp [spanIn, ha, Except.mapError, bind, Except.bind] at h
    | ok l' =>
      by_cases hf : l'.file = file.name
      · cases hs : file.index.span? l' with
        | none => simp [spanIn, ha, Except.mapError, bind, Except.bind, hf, hs, throw, throwThe,
            MonadExceptOf.throw] at h
        | some s' =>
          have heval : a.spanIn file = .ok (l', s') := by
            simp [spanIn, ha, Except.mapError, bind, Except.bind, hf, hs, pure, Except.pure]
          cases heval.symm.trans h
          exact ⟨rfl, hf, hs⟩
      · simp [spanIn, ha, Except.mapError, bind, Except.bind, hf, throw, throwThe, MonadExceptOf.throw] at h
  · rintro ⟨ha, hf, hs⟩
    simp [spanIn, ha, Except.mapError, bind, Except.bind, hf, hs, pure, Except.pure]

/-- The target of an action is a bound service that is anchored at its span. -/
theorem target?_eq_some {s : Span} {b : Binding} {service : Service}
    (h : target? file config s = some (b, service)) :
    Binding.resolve file config = some b ∧ service ∈ b.services ∧ service.anchor = s := by
  obtain ⟨b', hb, h⟩ := Option.bind_eq_some_iff.1 h
  obtain ⟨service', hs, h⟩ := Option.map_eq_some_iff.1 h
  cases h
  exact ⟨hb, List.mem_of_find?_eq_some hs, by simpa using List.find?_some hs⟩

/-- There is a target at the anchor of every bound service. -/
theorem exists_target {b : Binding} {s : Service} (hb : Binding.resolve file config = some b)
    (hs : s ∈ b.services) : ∃ service, target? file config s.anchor = some (b, service) := by
  obtain ⟨service, hfind⟩ : ∃ service, b.services.find? (·.anchor == s.anchor) = some service := by
    rw [← Option.isSome_iff_exists, List.find?_isSome]
    exact ⟨s, hs, by simp⟩
  exact ⟨service, by simp [target?, hb, hfind]⟩

/-- An action is carried out when its template is at hand, it belongs to the module and its location is the
anchor of a bound service. -/
theorem execute_store_eq_ok_iff {store : TemplateStore} {edit : TextEdit} :
    a.execute file config store = .ok edit ↔ ∃ template,
      store.get? a.provider.template.name = some template ∧ a.provider.module = config.module ∧
      ∃ l s b service, a.spanIn file = .ok (l, s) ∧ target? file config s = some (b, service) ∧
        edit = ⟨l, String.ofList (service.withTemplate b.file l.start.character.toNat
          ((b.place l.start.character.toNat).render template.body.toList))⟩ := by
  constructor
  · intro h
    cases hget : store.get? a.provider.template.name with
    | none => simp [execute, hget, throw, throwThe, MonadExceptOf.throw] at h
    | some template =>
      by_cases hm : a.provider.module = config.module
      · cases hspan : a.spanIn file with
        | error e => simp [execute, hget, hm, hspan, bind, Except.bind] at h
        | ok p =>
          obtain ⟨l, s⟩ := p
          cases ht : target? file config s with
          | none => simp [execute, hget, hm, hspan, ht, bind, Except.bind, throw, throwThe,
              MonadExceptOf.throw] at h
          | some q =>
            obtain ⟨b, service⟩ := q
            obtain ⟨hb, -, -⟩ := target?_eq_some ht
            obtain ⟨rfl, rfl, -⟩ := Binding.resolve_eq_some hb
            refine ⟨template, rfl, hm, l, s, b, service, rfl, ht, ?_⟩
            simp [execute, hget, hm, hspan, ht, bind, Except.bind, pure, Except.pure] at h
            rw [← h]
            rfl
      · simp [execute, hget, hm, throw, throwThe, MonadExceptOf.throw, bind, Except.bind] at h
  · rintro ⟨template, hget, hm, l, s, b, service, hspan, ht, rfl⟩
    obtain ⟨hb, -, -⟩ := target?_eq_some ht
    obtain ⟨rfl, rfl, -⟩ := Binding.resolve_eq_some hb
    simp [execute, hget, hm, hspan, ht, bind, Except.bind, pure, Except.pure, Binding.place]

/-- An action for a built-in template is carried out when it belongs to the module and its location is the
anchor of a bound service. -/
theorem execute_eq_ok_iff {edit : TextEdit} :
    a.execute file config TemplateStore.builtin = .ok edit ↔
      a.provider.module = config.module ∧ ∃ l s b service, a.spanIn file = .ok (l, s) ∧
        target? file config s = some (b, service) ∧
        edit = ⟨l, String.ofList (b.replacement service l.start.character.toNat a.provider.template)⟩ := by
  rw [execute_store_eq_ok_iff]
  constructor
  · rintro ⟨template, hget, h⟩
    obtain rfl := Option.some.inj ((TemplateStore.builtin_get? _).symm.trans hget)
    exact h
  · intro h
    exact ⟨_, TemplateStore.builtin_get? _, h⟩

end CodeAction

/-! ## Offered actions -/

/-- An action that is offered for a diagnostic carries its location. -/
theorem CodeAction.mem_forDiagnostic {d : Diagnostic} {module : String} {a : CodeAction}
    (h : a ∈ CodeAction.forDiagnostic d module) :
    d.rule.isFixable = true ∧ a.provider.module = module ∧
      a.arguments = [Argument.ofLocation d.location] := by
  unfold CodeAction.forDiagnostic at h
  split at h
  · next hfix =>
    obtain ⟨kind, _, rfl⟩ := List.mem_map.1 h
    exact ⟨hfix, rfl, rfl⟩
  · cases h

/-- The location that an offered action carries is read back. -/
theorem CodeAction.location_of_arguments {a : CodeAction} {l : Location}
    (h : a.arguments = [Argument.ofLocation l]) (hle : l.start.le l.stop = true) : a.location = .ok l := by
  have harg : a.argument? Argument.locationKey = some l.toJson := by
    simp [CodeAction.argument?, h, Argument.ofLocation]
  simp [CodeAction.location, harg, Location.ofJson?_toJson, hle]

/-- An action for the anchor of a bound service is carried out there. -/
theorem CodeAction.execute_at_anchor {name : String} {text : List Char} {file : SourceFile} {config : Config}
    {b : Binding} {s : Service} {a : CodeAction} {l : Location}
    (hparse : SourceFile.parse name text = .ok file) (hsize : Text.size text < UInt32.size)
    (hb : Binding.resolve file config = some b) (hs : s ∈ b.services) (hl : l = b.file.location s.anchor)
    (hmodule : a.provider.module = config.module) (hargs : a.arguments = [Argument.ofLocation l]) :
    (LineIndex.ofText text).span? l = some s.anchor ∧
      ∃ service ∈ b.services, service.anchor = s.anchor ∧ a.execute file config TemplateStore.builtin =
        .ok ⟨l, String.ofList (b.replacement service l.start.character.toNat a.provider.template)⟩ := by
  have hback : (LineIndex.ofText text).span? l = some s.anchor := by
    rw [hl]
    exact Binding.span?_anchor hparse hsize hb hs
  obtain ⟨hspan, hwell⟩ := Binding.service_fits hparse hb hs
  have hanchor := Service.anchor_fits hwell hspan
  obtain ⟨hfile, -, -⟩ := Binding.resolve_eq_some hb
  obtain ⟨m, -, rfl⟩ := SourceFile.parse_eq_ok hparse
  rw [hfile] at hl
  have hlocation : a.location = .ok l := by
    refine CodeAction.location_of_arguments hargs ?_
    rw [hl]
    exact LineIndex.location_le hsize hanchor name
  have hname : l.file = name := by rw [hl]; rfl
  obtain ⟨service, ht⟩ := CodeAction.exists_target hb hs
  obtain ⟨-, hservice, hsame⟩ := CodeAction.target?_eq_some ht
  exact ⟨hback, service, hservice, hsame, CodeAction.execute_eq_ok_iff.2 ⟨hmodule, l, s.anchor, b, service,
    CodeAction.spanIn_eq_ok_iff.2 ⟨hlocation, hname, hback⟩, ht, rfl⟩⟩

/-- Every action that is offered for a diagnostic of a file is carried out at the place of the diagnostic,
and the edit applies. -/
theorem CodeAction.offered_executes [Similarity] {name : String} {text : List Char} {file : SourceFile}
    {config : Config} {d : Diagnostic} {a : CodeAction} (hparse : SourceFile.parse name text = .ok file)
    (hsize : Text.size text < UInt32.size) (hd : d ∈ validate file config)
    (ha : a ∈ CodeAction.forDiagnostic d config.module) :
    ∃ edit, a.execute file config TemplateStore.builtin = .ok edit ∧ edit.location = d.location ∧
      ∃ text', TextEdit.apply file.text edit = .ok text' := by
  obtain ⟨b, s, f, hb, hs, hf, hloc, -⟩ := mem_validate hd
  obtain ⟨hfix, hmodule, hargs⟩ := CodeAction.mem_forDiagnostic ha
  rw [Rule.check_anchor hfix hf] at hloc
  obtain ⟨hback, service, -, -, hexec⟩ := CodeAction.execute_at_anchor hparse hsize hb hs hloc hmodule hargs
  obtain ⟨hspan, hwell⟩ := Binding.service_fits hparse hb hs
  have hanchor := Service.anchor_fits hwell hspan
  obtain ⟨m, -, rfl⟩ := SourceFile.parse_eq_ok hparse
  exact ⟨_, hexec, rfl, _, TextEdit.apply_eq hback (Nat.le_of_lt hanchor.lt)⟩

/-- An empty service after a multi-byte comment, on a line that ends with a carriage return. -/
theorem CodeAction.offered_executes_mqtt :
    ∃ file d a edit, SourceFile.parse "m.bal" ("import ballerina/mqtt; // über\r\n".toList ++
        "service on new mqtt:Listener(1) \x7b\r\n\x7d\r\n".toList) = .ok file ∧
      d ∈ validate file {} ∧ a ∈ CodeAction.forDiagnostic d ({} : Config).module ∧
      a.execute file {} TemplateStore.builtin = .ok edit ∧ edit.location = d.location ∧
      ∃ text', TextEdit.apply file.text edit = .ok text' := by
  generalize htext : "import ballerina/mqtt; // über\r\n".toList ++
    "service on new mqtt:Listener(1) \x7b\r\n\x7d\r\n".toList = text
  have hcheck : (SourceFile.parse "m.bal" text).toOption.map (fun f => (validate f {}).map (·.rule)) =
      some [.emptyService] := by
    rw [← htext]
    decide +kernel
  have hsize : Text.size text < UInt32.size := by
    rw [← htext]
    decide +kernel
  cases hparse : SourceFile.parse "m.bal" text with
  | error e =>
    rw [hparse] at hcheck
    cases hcheck
  | ok file =>
    rw [hparse] at hcheck
    obtain ⟨d, hd, hrule⟩ := List.map_eq_singleton_iff.1 (Option.some.inj hcheck)
    have hmem : d ∈ validate file {} := by simp [hd]
    let a : CodeAction := ⟨TemplateKind.withCaller.title, ⟨({} : Config).module, .withCaller⟩,
      [Argument.ofLocation d.location]⟩
    have ha : a ∈ CodeAction.forDiagnostic d ({} : Config).module := by
      simp [CodeAction.forDiagnostic, hrule, Rule.isFixable, TemplateKind.all, a]
    obtain ⟨edit, hedit⟩ := CodeAction.offered_executes hparse hsize hmem ha
    exact ⟨file, d, a, edit, rfl, hmem, ha, hedit⟩

end ServiceLint
