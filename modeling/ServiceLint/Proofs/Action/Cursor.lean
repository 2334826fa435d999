import ServiceLint.Proofs.Action.Fixes
import ServiceLint.Proofs.Lint.Contract

/-!
# Actions at a position

At a position, two actions are offered for each fixable diagnostic whose range the position touches
(`CodeAction.atPosition_cursor`). Ranges count with both ends, so a position between two adjacent services touches
both. It touches no third one: a fixable diagnostic is said about a bound service as a whole, there is one for each
service at most, and its range is not empty, ends with the service at the latest and starts with it.
-/
namespace ServiceLint

/-! ## Ranges one after the other -/

theorem Position.le_iff {p q : Position} : p.le q = true ↔ p.line.toNat < q.line.toNat ∨
    p.line.toNat = q.line.toNat ∧ p.character.toNat ≤ q.character.toNat := by
  rw [Position.le, Bool.not_eq_eq_eq_not, Bool.not_true, ← Bool.not_eq_true, Position.lt_iff]
  omega

theorem Position.lt_of_lt_of_le {p q r : Position} (h : p.lt q = true) (h' : q.le r = true) : p.lt r = true := by
  rw [Position.lt_iff] at *
  rw [Position.le_iff] at h'
  omega

theorem Position.not_lt_of_le {p q : Position} (h : p.le q = true) : ¬ q.lt p = true := by
  rw [Position.le_iff] at h
  rw [Position.lt_iff]
  omega

theorem Position.le_trans {p q r : Position} (h : p.le q = true) (h' : q.le r = true) : p.le r = true := by
  rw [Position.le_iff] at *
  omega

theorem Location.touches_iff {l : Location} {p : Position} :
    l.touches p = true ↔ l.start.le p = true ∧ p.le l.stop = true := by
  rw [Location.touches, Bool.and_eq_true]

/-- The ranges are not empty, and each of them starts where an earlier one ends or later. -/
structure InSuccession (ds : List Diagnostic) : Prop where
  extent : ∀ d ∈ ds, d.location.start.lt d.location.stop = true
  apart : ds.Pairwise fun d d' => d.location.stop.le d'.location.start = true

namespace InSuccession

variable {ds : List Diagnostic} {p : Position}

theorem sublist {ds' : List Diagnostic} (h : InSuccession ds) (hsub : ds'.Sublist ds) : InSuccession ds' :=
  ⟨fun d hd => h.extent d (hsub.subset hd), h.apart.sublist hsub⟩

/-- No position touches three ranges: the one in the middle would have to be empty. -/
theorem length_le_two (h : InSuccession ds) (htouch : ∀ d ∈ ds, d.location.touches p = true) : ds.length ≤ 2 := by
  rcases ds with _ | ⟨d₁, _ | ⟨d₂, _ | ⟨d₃, ds⟩⟩⟩
  · simp
  · simp
  · simp
  · exfalso
    obtain ⟨hfirst, hrest⟩ := List.pairwise_cons.1 h.apart
    have hstop := (Location.touches_iff.1 (htouch d₁ (by simp))).2
    have hstart := (Location.touches_iff.1 (htouch d₃ (by simp))).1
    have hbefore := Position.le_trans hstop (hfirst d₂ (by simp))
    have hafter := Position.le_trans ((List.pairwise_cons.1 hrest).1 d₃ (by simp)) hstart
    exact Position.not_lt_of_le hbefore (Position.lt_of_lt_of_le (h.extent d₂ (by simp)) hafter)

/-- A position that lies inside a range touches no other one. -/
theorem eq_singleton (h : InSuccession ds) (htouch : ∀ d ∈ ds, d.location.touches p = true) {d : Diagnostic}
    (hd : d ∈ ds) (hstart : d.location.start.lt p = true) (hstop : p.lt d.location.stop = true) : ds = [d] := by
  obtain ⟨before, after, rfl⟩ := List.append_of_mem hd
  obtain ⟨-, hlater, hearlier⟩ := List.pairwise_append.1 h.apart
  have hbefore : before = [] := List.eq_nil_iff_forall_not_mem.2 fun x hx => by
    have hx' := (Location.touches_iff.1 (htouch x (by simp [hx]))).2
    exact Position.not_lt_of_le (Position.le_trans hx' (hearlier x hx d (by simp))) hstart
  have hafter : after = [] := List.eq_nil_iff_forall_not_mem.2 fun x hx => by
    have hx' := (Location.touches_iff.1 (htouch x (by simp [hx]))).1
    exact Position.not_lt_of_le (Position.le_trans ((List.pairwise_cons.1 hlater).1 x hx) hx') hstop
  rw [hbefore, hafter, List.nil_append]

end InSuccession

/-! ## Fixable diagnostics -/

/-- The fixable diagnostics of a file, in the order of the source. -/
def fixables [Similarity] (file : SourceFile) (config : Config) : List Diagnostic :=
  (validate file config).filter (·.rule.isFixable)

section

variable {name : String} {text : List Char} {file : SourceFile} {config : Config} {b : Binding}

/-- The fixable diagnostics are what is said about the bound services as a whole. -/
theorem fixables_eq [Similarity] (hparse : SourceFile.parse name text = .ok file) (hsize : Text.size text < UInt32.size)
    (hb : Binding.resolve file config = some b) : fixables file config = b.services.flatMap b.fixDiagnostics := by
  rw [fixables, validate_eq hparse hsize hb, List.filter_flatMap]
  refine List.flatMap_congr fun s _ => ?_
  have hfix : (b.fixDiagnostics s).filter (·.rule.isFixable) = b.fixDiagnostics s :=
    List.filter_eq_self.2 fun d hd => (Binding.mem_fixDiagnostics hd).1
  have hmembers : (s.members.flatMap b.memberDiagnostics).filter (·.rule.isFixable) = [] := by
    refine List.filter_eq_nil_iff.2 fun d hd => ?_
    obtain ⟨m, -, hd⟩ := List.mem_flatMap.1 hd
    simp [Binding.not_isFixable_of_mem_memberDiagnostics hd]
  rw [Binding.orderedDiagnostics, List.filter_append, hfix, hmembers, List.append_nil]

theorem fixables_of_none [Similarity] (hb : Binding.resolve file config = none) : fixables file config = [] := by
  rw [fixables, validate, hb]
  rfl

/-- The fixable diagnostics of a file stand one after the other. -/
theorem fixables_inSuccession [Similarity] (hparse : SourceFile.parse name text = .ok file)
    (hsize : Text.size text < UInt32.size) : InSuccession (fixables file config) := by
  cases hb : Binding.resolve file config with
  | none =>
    rw [fixables_of_none hb]
    exact ⟨by simp, .nil⟩
  | some b =>
    rw [fixables_eq hparse hsize hb]
    have hfits : ∀ s ∈ b.services, ∀ d ∈ b.fixDiagnostics s, s.anchor.Fits text s.span.start s.span.stop ∧
        d.location = (LineIndex.ofText text).location name s.anchor := by
      intro s hs d hd
      obtain ⟨hspan, hwell⟩ := Binding.service_fits hparse hb hs
      obtain ⟨hfile, -, -⟩ := Binding.resolve_eq_some hb
      obtain ⟨m, -, rfl⟩ := SourceFile.parse_eq_ok hparse
      refine ⟨Service.anchor_fits hwell hspan.self, ?_⟩
      rw [(Binding.mem_fixDiagnostics hd).2, hfile]
      rfl
    constructor
    · intro d hd
      obtain ⟨s, hs, hd⟩ := List.mem_flatMap.1 hd
      obtain ⟨hfit, hloc⟩ := hfits s hs d hd
      rw [hloc]
      exact LineIndex.position_lt_of_lt hsize hfit.start.isBoundary hfit.stop.isBoundary hfit.lt
    · refine List.pairwise_flatMap.2 ⟨fun s _ => pairwise_of_length_le_one (b.fixDiagnostics_length_le s), ?_⟩
      refine (Binding.services_pairwise hparse hb).imp_of_mem ?_
      intro s s' hs hs' hle d hd d' hd'
      obtain ⟨hfit, hloc⟩ := hfits s hs d hd
      obtain ⟨hfit', hloc'⟩ := hfits s' hs' d' hd'
      rw [hloc, hloc']
      have hstop := hfit.le_hi
      have hstart := hfit'.lo_le
      exact LineIndex.position_le_of_le hsize hfit.stop.isBoundary hfit'.start.isBoundary (by omega)

/-- A fixable diagnostic lies in a bound service exactly when it is said about that service. -/
theorem Binding.within_iff [Similarity] (hparse : SourceFile.parse name text = .ok file)
    (hsize : Text.size text < UInt32.size) (hb : Binding.resolve file config = some b) {s t : Service}
    (hs : s ∈ b.services) (ht : t ∈ b.services) {d : Diagnostic} (hd : d ∈ b.fixDiagnostics t) : d.Within file s.span ↔ t = s := by
  have hback := Binding.span?_anchor hparse hsize hb ht
  rw [← (Binding.mem_fixDiagnostics hd).2] at hback
  obtain ⟨hspan, hwell⟩ := Binding.service_fits hparse hb ht
  have hanchor := (Service.anchor_fits hwell hspan).lt
  have hstop := Service.anchor_stop_le hwell hspan
  have hstart := t.anchor_start
  have hindex : file.index = LineIndex.ofText text := by
    obtain ⟨m, -, rfl⟩ := SourceFile.parse_eq_ok hparse
    rfl
  rw [← hindex] at hback
  constructor
  · rintro ⟨range, hrange, hlo, hhi⟩
    obtain rfl : range = t.anchor := Option.some.inj (hrange.symm.trans hback)
    obtain ⟨hfile, -, -⟩ := Binding.resolve_eq_some hb
    have hmem : ∀ s ∈ b.services, s ∈ file.module.services := fun s hs => hfile ▸ (List.mem_filter.1 hs).1
    rcases SourceFile.services_apart hparse (hmem s hs) (hmem t ht) with h | h | h
    · exact h
    · omega
    · omega
  · rintro rfl
    exact ⟨t.anchor, hback, by omega, hstop⟩

/-- No two fixable diagnostics lie in one bound service. -/
theorem fixables_onePerService [Similarity] (hparse : SourceFile.parse name text = .ok file)
    (hsize : Text.size text < UInt32.size) (hb : Binding.resolve file config = some b) {s : Service}
    (hs : s ∈ b.services) :
    (fixables file config).Pairwise fun d d' => ¬ (d.Within file s.span ∧ d'.Within file s.span) := by
  rw [fixables_eq hparse hsize hb]
  refine List.pairwise_flatMap.2 ⟨fun t _ => pairwise_of_length_le_one (b.fixDiagnostics_length_le t), ?_⟩
  refine (Binding.services_pairwise hparse hb).imp_of_mem ?_
  rintro t t' ht ht' hle d hd d' hd' ⟨hin, hin'⟩
  obtain rfl := (Binding.within_iff hparse hsize hb hs ht hd).1 hin
  obtain rfl := (Binding.within_iff hparse hsize hb ht ht' hd').1 hin'
  have := (Binding.service_fits hparse hb ht).1.lt
  omega

/-- Each fixable diagnostic lies in a bound service. -/
theorem fixables_within [Similarity] (hparse : SourceFile.parse name text = .ok file)
    (hsize : Text.size text < UInt32.size) {d : Diagnostic} (hd : d ∈ fixables file config) :
    ∃ b s, Binding.resolve file config = some b ∧ s ∈ b.services ∧ d.Within file s.span := by
  cases hb : Binding.resolve file config with
  | none =>
    rw [fixables_of_none hb] at hd
    cases hd
  | some b =>
    rw [fixables_eq hparse hsize hb] at hd
    obtain ⟨s, hs, hd⟩ := List.mem_flatMap.1 hd
    exact ⟨b, s, rfl, hs, (Binding.within_iff hparse hsize hb hs hs hd).2 rfl⟩

end

/-! ## Actions -/

namespace CodeAction

/-- The actions for a fixable diagnostic: the handler with a caller, then the one without. -/
def pair (d : Diagnostic) (module : String) : List CodeAction :=
  [⟨TemplateKind.withCaller.title, ⟨module, .withCaller⟩, [Argument.ofLocation d.location]⟩,
    ⟨TemplateKind.withoutCaller.title, ⟨module, .withoutCaller⟩, [Argument.ofLocation d.location]⟩]

theorem length_flatMap_pair (ds : List Diagnostic) (module : String) :
    (ds.flatMap (pair · module)).length = 2 * ds.length := by
  induction ds with
  | nil => rfl
  | cons d ds ih =>
    rw [List.flatMap_cons, List.length_append, ih, List.length_cons, pair]
    simp only [List.length_cons, List.length_nil]
    omega

theorem flatMap_forDiagnostic (ds : List Diagnostic) (module : String) :
    ds.flatMap (forDiagnostic · module) = (ds.filter (·.rule.isFixable)).flatMap (pair · module) := by
  induction ds with
  | nil => rfl
  | cons d ds ih =>
    rw [List.flatMap_cons, ih, List.filter_cons, forDiagnostic]
    split
    · rfl
    · rfl

/-- The actions at a position are the pairs for the fixable diagnostics that it touches. -/
theorem atPosition_eq [Similarity] (file : SourceFile) (config : Config) (p : Position) :
    atPosition file config p =
      ((fixables file config).filter (·.location.touches p)).flatMap (pair · config.module) := by
  rw [atPosition, flatMap_forDiagnostic, fixables, List.filter_comm]

/-- What is offered at a position of a file. -/
structure AtCursor [Similarity] (file : SourceFile) (config : Config) (p : Position) : Prop where
  /-- Two actions for each fixable diagnostic that the position touches, in the order of the source. -/
  pairs : atPosition file config p =
    ((fixables file config).filter (·.location.touches p)).flatMap (pair · config.module)
  /-- The ranges of fixable diagnostics have at most an end in common. -/
  apart : InSuccession (fixables file config)
  within : ∀ d ∈ fixables file config,
    ∃ b s, Binding.resolve file config = some b ∧ s ∈ b.services ∧ d.Within file s.span
  onePerService : ∀ b s, Binding.resolve file config = some b → s ∈ b.services →
    (fixables file config).Pairwise fun d d' => ¬ (d.Within file s.span ∧ d'.Within file s.span)
  count : (atPosition file config p).length = 0 ∨ (atPosition file config p).length = 2 ∨
    (atPosition file config p).length = 4
  /-- Strictly inside the range of a fixable diagnostic these are the two actions for it. -/
  inside : ∀ d ∈ fixables file config, d.location.start.lt p = true → p.lt d.location.stop = true →
    atPosition file config p = pair d config.module ∧ (atPosition file config p).length = 2

/-- What is offered at a position, for every position and every configuration. -/
theorem atPosition_cursor [Similarity] {name : String} {text : List Char} {file : SourceFile} (config : Config)
    (p : Position) (hparse : SourceFile.parse name text = .ok file) (hsize : Text.size text < UInt32.size) :
    AtCursor file config p := by
  have happart : InSuccession (fixables file config) := fixables_inSuccession hparse hsize
  have htouched := happart.sublist (List.filter_sublist (p := fun d : Diagnostic => d.location.touches p))
  have htouch : ∀ d ∈ (fixables file config).filter (·.location.touches p), d.location.touches p = true :=
    fun d hd => (List.mem_filter.1 hd).2
  refine ⟨atPosition_eq file config p, happart, fun d hd => fixables_within hparse hsize hd,
    fun b s hb hs => fixables_onePerService hparse hsize hb hs, ?_, fun d hd hstart hstop => ?_⟩
  · have htwo := htouched.length_le_two htouch
    rw [atPosition_eq, length_flatMap_pair]
    omega
  · have hin : d.location.touches p = true :=
      Location.touches_iff.2 ⟨Position.le_of_lt hstart, Position.le_of_lt hstop⟩
    have honly := htouched.eq_singleton htouch (List.mem_filter.2 ⟨hd, hin⟩) hstart hstop
    have hpair : atPosition file config p = pair d config.module := by
      rw [atPosition_eq, honly, List.flatMap_cons, List.flatMap_nil, List.append_nil]
    exact ⟨hpair, by rw [hpair]; rfl⟩

/-- Two empty services next to each other: a cursor between them touches both, one in the first touches that one, and
none is touched from a line that the text does not have. -/
theorem atPosition_cursor_adjacent : ∃ text file d,
    text = "import a/m;service on new m:Listener()\x7b\x7dservice on new m:Listener()\x7b\x7d".toList ∧
    SourceFile.parse "m.bal" text = .ok file ∧ Text.size text < UInt32.size ∧
    AtCursor file { module := "a/m" } ⟨0, 40⟩ ∧ (atPosition file { module := "a/m" } ⟨0, 40⟩).length = 4 ∧
    d ∈ fixables file { module := "a/m" } ∧ d.location.start.lt ⟨0, 20⟩ = true ∧
    (⟨0, 20⟩ : Position).lt d.location.stop = true ∧ atPosition file { module := "a/m" } ⟨0, 20⟩ = pair d "a/m" ∧
    atPosition file { module := "a/m" } ⟨5, 0⟩ = [] := by
  generalize htext :
    "import a/m;service on new m:Listener()\x7b\x7dservice on new m:Listener()\x7b\x7d".toList = text
  have hchars : text = _ := htext.symm.trans String.toList_ofList
  let config : Config := { module := "a/m" }
  -- sorting is left out of what is computed
  have hcheck : ((SourceFile.parse "m.bal" text).toOption.bind fun file => (Binding.resolve file config).bind fun b =>
      (b.services.flatMap b.fixDiagnostics).head?.map fun d => decide (
        ((b.services.flatMap b.fixDiagnostics).filter (·.location.touches ⟨0, 40⟩)).length = 2 ∧
        ((b.services.flatMap b.fixDiagnostics).filter (·.location.touches ⟨5, 0⟩)).length = 0 ∧
        d.location.start.lt ⟨0, 20⟩ = true ∧ (⟨0, 20⟩ : Position).lt d.location.stop = true)) = some true := by
    rw [hchars]
    decide +kernel
  have hsize : Text.size text < UInt32.size := by
    rw [hchars]
    decide +kernel
  obtain ⟨file, hfile, hcheck⟩ := Option.bind_eq_some_iff.1 hcheck
  obtain ⟨b, hb, hcheck⟩ := Option.bind_eq_some_iff.1 hcheck
  obtain ⟨d, hd, hcheck⟩ := Option.map_eq_some_iff.1 hcheck
  obtain ⟨hboth, hnone, hstart, hstop⟩ := of_decide_eq_true hcheck
  have hparse := eq_ok_of_toOption hfile
  rw [← fixables_eq hparse hsize hb] at hd hboth hnone
  have hmem := List.mem_of_mem_head? hd
  have hbetween := atPosition_cursor config ⟨0, 40⟩ hparse hsize
  obtain ⟨hpair, -⟩ := (atPosition_cursor config ⟨0, 20⟩ hparse hsize).inside d hmem hstart hstop
  refine ⟨text, file, d, rfl, hparse, hsize, hbetween, ?_, hmem, hstart, hstop, hpair, ?_⟩
  · rw [hbetween.pairs, length_flatMap_pair, hboth]
  · rw [(atPosition_cursor config ⟨5, 0⟩ hparse hsize).pairs, List.length_eq_zero_iff.1 hnone, List.flatMap_nil]

end CodeAction

end ServiceLint
