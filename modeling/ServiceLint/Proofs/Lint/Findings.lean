import ServiceLint.Action.Execute
import ServiceLint.Proofs.Source.Parse.Places
import ServiceLint.Proofs.Source.Positions

/-!
# Where rules find something

A diagnostic comes from a finding of its rule in a bound service (`mem_validate`). Findings that a
template settles are reported for the service as a whole: at its anchor (`check_anchor`), which stands in
the text like the service itself (`Service.anchor_fits`).
-/
namespace ServiceLint

theorem Service.anchor_start (s : Service) : s.anchor.start = s.span.start := by
  unfold Service.anchor
  split <;> rfl

/-- The anchor of a service stands in the service. -/
theorem Service.anchor_fits {text : List Char} {lo hi : Nat} {s : Service} (h : s.WellLaid text)
    (hspan : s.span.Fits text lo hi) : s.anchor.Fits text lo hi := by
  unfold Service.anchor
  split
  · exact hspan
  · next last hlast =>
    have hmem : last ∈ s.members := List.mem_of_getLast? hlast
    have hfit := h.members.fits (List.mem_map_of_mem hmem)
    have h₁ := hfit.lo_le
    have h₂ := hfit.lt
    have h₃ := hfit.le_hi
    have h₄ := h.openBrace.lo_le
    have h₅ := h.openBrace.lt
    have h₆ := h.closeBrace.lt
    have h₇ := h.closeBrace.le_hi
    have h₈ := hspan.le_hi
    exact ⟨hspan.lo_le, by show s.span.start < last.span.stop; omega,
      by show last.span.stop ≤ hi; omega, hspan.start, hfit.stop⟩

theorem Service.anchor_stop_le {text : List Char} {lo hi : Nat} {s : Service} (h : s.WellLaid text)
    (hspan : s.span.Fits text lo hi) : s.anchor.stop ≤ s.span.stop :=
  (Service.anchor_fits h hspan.self).le_hi

/-- What a template settles is reported at the anchor of the service. -/
theorem Rule.check_anchor [Similarity] {rule : Rule} {b : Binding} {s : Service} {f : Finding}
    (hrule : rule.isFixable = true) (hf : f ∈ rule.check b s) : f.span = s.anchor := by
  cases rule with
  | emptyService =>
    simp only [Rule.check, Rule.checkEmpty] at hf
    split at hf
    · cases hf
    · next hempty =>
      obtain rfl := List.mem_singleton.1 hf
      have hnil : s.members = [] := by simpa [Service.isEmpty] using hempty
      simp [Service.anchor, Service.lastMember?, hnil]
  | missingRequiredMethod =>
    simp only [Rule.check, Rule.checkMissing] at hf
    split at hf
    · cases hf
    · cases hf
    · next last missing hlast _ =>
      obtain rfl := List.mem_singleton.1 hf
      simp [Service.anchor, hlast]
  | unknownRemoteMethod => cases hrule
  | invalidMethodSignature => cases hrule
  | resourceMethodNotAllowed => cases hrule

theorem Binding.mem_ruleDiagnostics [Similarity] {b : Binding} {s : Service} {rule : Rule} {d : Diagnostic}
    (h : d ∈ b.ruleDiagnostics s rule) :
    d.rule = rule ∧ ∃ f ∈ rule.check b s, d.location = b.file.location f.span ∧ d.message = f.message := by
  unfold Binding.ruleDiagnostics at h
  split at h
  · cases h
  · obtain ⟨f, hf, rfl⟩ := List.mem_map.1 h
    exact ⟨rfl, f, hf, rfl, rfl⟩

/-- A diagnostic reports a finding of its rule in a bound service. -/
theorem mem_validate [Similarity] {file : SourceFile} {config : Config} {d : Diagnostic}
    (h : d ∈ validate file config) :
    ∃ b s f, Binding.resolve file config = some b ∧ s ∈ b.services ∧ f ∈ d.rule.check b s ∧
      d.location = b.file.location f.span ∧ d.message = f.message := by
  unfold validate at h
  split at h
  · cases h
  · next b hb =>
    rw [Binding.diagnostics, List.mem_mergeSort, List.mem_flatMap] at h
    obtain ⟨s, hs, hd⟩ := h
    rw [Binding.serviceDiagnostics, List.mem_flatMap] at hd
    obtain ⟨rule, _, hd⟩ := hd
    obtain ⟨rfl, f, hf, hrest⟩ := Binding.mem_ruleDiagnostics hd
    exact ⟨b, s, f, hb, hs, hf, hrest⟩

/-- A binding is made of the file, the configuration and the name of an import of the file. -/
theorem Binding.resolve_eq_some {file : SourceFile} {config : Config} {b : Binding}
    (h : Binding.resolve file config = some b) :
    b.file = file ∧ b.config = config ∧ ∃ i ∈ file.module.imports, b.qualifier = i.localName := by
  obtain ⟨i, hi, rfl⟩ := Option.map_eq_some_iff.1 h
  exact ⟨rfl, rfl, i, List.mem_of_find?_eq_some hi, rfl⟩

theorem Binding.mem_decls {b : Binding} {s : Service} (h : s ∈ b.services) :
    .serviceDecl s ∈ b.file.module.decls :=
  Module.mem_services.1 (List.mem_filter.1 h).1

/-- Every bound service of a parsed file stands in its text. -/
theorem Binding.service_fits {name : String} {text : List Char} {file : SourceFile} {config : Config}
    {b : Binding} {s : Service} (hparse : SourceFile.parse name text = .ok file)
    (hb : Binding.resolve file config = some b) (hs : s ∈ b.services) :
    s.span.Fits text 0 (Text.size text) ∧ s.WellLaid text := by
  obtain ⟨m, hm, rfl⟩ := SourceFile.parse_eq_ok hparse
  obtain ⟨horder, hwell⟩ := Module.parse_laid hm
  obtain ⟨hfile, -, -⟩ := Binding.resolve_eq_some hb
  have hmem := Binding.mem_decls hs
  rw [hfile] at hmem
  exact ⟨horder.fits (List.mem_map_of_mem (f := Decl.span) hmem), hwell _ hmem⟩

/-- The location of the anchor of a bound service leads back to the anchor. -/
theorem Binding.span?_anchor {name : String} {text : List Char} {file : SourceFile} {config : Config}
    {b : Binding} {s : Service} (hparse : SourceFile.parse name text = .ok file)
    (hsize : Text.size text < UInt32.size) (hb : Binding.resolve file config = some b) (hs : s ∈ b.services) :
    (LineIndex.ofText text).span? (b.file.location s.anchor) = some s.anchor := by
  obtain ⟨hspan, hwell⟩ := Binding.service_fits hparse hb hs
  obtain ⟨hfile, -, -⟩ := Binding.resolve_eq_some hb
  obtain ⟨m, -, rfl⟩ := SourceFile.parse_eq_ok hparse
  rw [hfile]
  exact LineIndex.span?_location hsize (Service.anchor_fits hwell hspan) name

end ServiceLint
