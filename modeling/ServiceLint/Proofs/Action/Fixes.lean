import Mathlib.Data.List.Nodup
import ServiceLint.Proofs.Action.Edits
import ServiceLint.Proofs.Action.Settled
import ServiceLint.Proofs.Action.Several

/-!
# Fixing what is found

Actions for some of the diagnostics of a file, one for each, are carried out on the file and their edits
applied together, in any order. The new text is parsed, and what is said about it is what was said before
without the diagnostics that were fixed (`validate_fixed`).

Each fixable diagnostic belongs to one bound service (`Binding.eq_of_mem_fixDiagnostics`), so the edits are
those of `Module.parse_applyPlaced` once they are sorted.
-/
namespace ServiceLint

/-! ## The edited file -/

section

variable {add : Service → Option (PlacedEdit × Member)} {ds ds' : List Decl}

theorem Module.imports_edited (h : ds'.map Decl.bare = ds.map (Decl.withAdded add)) :
    (Module.mk ds').imports.map (Import.map fun _ => 0) = (Module.mk ds).imports.map (Import.map fun _ => 0) :=
  filterMap_alike h (by rintro (_ | _ | _) <;> rfl) (by rintro (_ | _ | _) <;> rfl)

theorem Module.listeners_edited (h : ds'.map Decl.bare = ds.map (Decl.withAdded add)) :
    (Module.mk ds').listeners.map (Listener.map fun _ => 0) =
      (Module.mk ds).listeners.map (Listener.map fun _ => 0) :=
  filterMap_alike h (by rintro (_ | _ | _) <;> rfl) (by rintro (_ | _ | _) <;> rfl)

theorem Module.services_edited (h : ds'.map Decl.bare = ds.map (Decl.withAdded add)) :
    (Module.mk ds').services.map Service.bare = (Module.mk ds).services.map (Service.withAdded add) :=
  filterMap_alike h (by rintro (_ | _ | _) <;> rfl) (by rintro (_ | _ | _) <;> rfl)

end

theorem Service.push_bare (s : Service) (m : Member) : (s.push m).bare = s.bare.push m.bare := by
  simp [Service.bare, Service.push, Service.map, Member.bare]

theorem handler_bare (q : String) (kind : TemplateKind) : (handler q kind).bare = handler q kind := by
  cases kind <;> rfl

/-- What is said about bound services to some of which handlers are added. -/
theorem Binding.Alike.keys_edited [Similarity] {b b' : Binding} {add : Service → Option (PlacedEdit × Member)}
    (h : b.Alike b') (hcontract : b.config.contract = Contract.builtin)
    (hq : IsNameText b.qualifier.toList)
    (hservices : b'.file.module.services.map Service.bare = b.file.module.services.map (Service.withAdded add))
    (hadd : ∀ s e new, add s = some (e, new) → ∃ kind, new = handler b.qualifier kind) :
    b'.services.flatMap b'.keys =
      b.services.flatMap fun s => if (add s).isSome then b.memberKeys s else b.keys s := by
  have hself : b'.Alike b' := ⟨rfl, rfl, rfl⟩
  refine filter_flatMap_congr hservices ?_ ?_
  · intro s' s hs
    rw [← hself.isBound (fun _ => 0) s', ← h.isBound (fun _ => 0) s]
    show b'.isBound s'.bare = b'.isBound s.bare
    rw [hs, Service.withAdded]
    split <;> rfl
  · intro s' s hs
    cases hadded : add s with
    | none =>
      rw [Service.withAdded, hadded] at hs
      simp [h.keys hs]
    | some p =>
      obtain ⟨kind, hnew⟩ := hadd s p.1 p.2 hadded
      rw [Service.withAdded, hadded] at hs
      have hbare : s'.bare = (s.push (handler b.qualifier kind)).bare := by
        rw [Service.push_bare, handler_bare, hs, ← hnew]
      simp [h.keys hbare, b.keys_push_handler hcontract hq kind s]

/-! ## Diagnostics and their services -/

section

variable {name : String} {text : List Char} {file : SourceFile} {config : Config} {b : Binding}

theorem Binding.not_isFixable_of_mem_memberDiagnostics [Similarity] {m : Member} {d : Diagnostic}
    (h : d ∈ b.memberDiagnostics m) : d.rule.isFixable = false := by
  obtain ⟨rule, hrule, hd⟩ := List.mem_flatMap.1 h
  obtain ⟨rfl, -⟩ := Binding.mem_ruleDiagnostics hd
  simp only [Rule.ofMembers, List.mem_cons, List.not_mem_nil, or_false] at hrule
  rcases hrule with hrule | hrule | hrule <;> rw [hrule] <;> rfl

/-- Bound services that start at the same place are the same. -/
theorem Binding.eq_of_start_eq (hparse : SourceFile.parse name text = .ok file)
    (hb : Binding.resolve file config = some b) {s s' : Service} (hs : s ∈ b.services)
    (hs' : s' ∈ b.services) (hstart : s.span.start = s'.span.start) : s = s' := by
  have hdistinct : b.services.Pairwise fun s s' => s.span.start = s'.span.start → s = s' := by
    refine (Binding.services_pairwise hparse hb).imp_of_mem ?_
    intro s s' hs _ hle heq
    have := (Binding.service_fits hparse hb hs).1.lt
    omega
  have hflip : b.services.Pairwise (flip fun s s' => s.span.start = s'.span.start → s = s') :=
    hdistinct.imp fun h heq => (h heq.symm).symm
  exact hdistinct.forall_of_forall_of_flip (fun _ _ _ => rfl) hflip hs hs' hstart

/-- What is said about a bound service as a whole is said about no other one. -/
theorem Binding.eq_of_mem_fixDiagnostics [Similarity] (hparse : SourceFile.parse name text = .ok file)
    (hsize : Text.size text < UInt32.size) (hb : Binding.resolve file config = some b) {s s' : Service}
    (hs : s ∈ b.services) (hs' : s' ∈ b.services) {d : Diagnostic} (hd : d ∈ b.fixDiagnostics s)
    (hd' : d ∈ b.fixDiagnostics s') : s = s' := by
  have hback := Binding.span?_anchor hparse hsize hb hs
  have hback' := Binding.span?_anchor hparse hsize hb hs'
  rw [← (Binding.mem_fixDiagnostics hd).2] at hback
  rw [← (Binding.mem_fixDiagnostics hd').2] at hback'
  have hanchor : s.anchor = s'.anchor := Option.some.inj (hback.symm.trans hback')
  refine Binding.eq_of_start_eq hparse hb hs hs' ?_
  rw [← s.anchor_start, ← s'.anchor_start, hanchor]

/-- A fixable diagnostic of a file is said about a bound service as a whole. -/
theorem Binding.exists_service [Similarity] (hparse : SourceFile.parse name text = .ok file)
    (hsize : Text.size text < UInt32.size) (hb : Binding.resolve file config = some b) {d : Diagnostic}
    (hd : d ∈ validate file config) (hfix : d.rule.isFixable = true) :
    ∃ s ∈ b.services, d ∈ b.fixDiagnostics s := by
  rw [validate_eq hparse hsize hb, List.mem_flatMap] at hd
  obtain ⟨s, hs, hd⟩ := hd
  rcases List.mem_append.1 hd with hd | hd
  · exact ⟨s, hs, hd⟩
  · obtain ⟨m, -, hd⟩ := List.mem_flatMap.1 hd
    rw [Binding.not_isFixable_of_mem_memberDiagnostics hd] at hfix
    cases hfix

def Binding.fixEdit (b : Binding) (s : Service) (kind : TemplateKind) : TextEdit :=
  let l := b.file.location s.anchor
  ⟨l, String.ofList (b.replacement s l.start.character.toNat kind)⟩

/-- An action that is offered for a diagnostic edits the service that the diagnostic is about. -/
theorem Binding.execute_eq_fixEdit [Similarity] (hparse : SourceFile.parse name text = .ok file)
    (hsize : Text.size text < UInt32.size) (hb : Binding.resolve file config = some b) {s : Service}
    (hs : s ∈ b.services) {d : Diagnostic} (hd : d ∈ b.fixDiagnostics s) {a : CodeAction}
    (ha : a ∈ CodeAction.forDiagnostic d config.module) :
    a.execute file config TemplateStore.builtin = .ok (b.fixEdit s a.provider.template) := by
  obtain ⟨-, hmodule, hargs⟩ := CodeAction.mem_forDiagnostic ha
  have hloc := (Binding.mem_fixDiagnostics hd).2
  obtain ⟨-, service, hservice, hsame, hexec⟩ :=
    CodeAction.execute_at_anchor hparse hsize hb hs hloc hmodule hargs
  obtain rfl : service = s := Binding.eq_of_start_eq hparse hb hservice hs (by
    rw [← service.anchor_start, ← s.anchor_start, hsame])
  rw [hexec, hloc]
  rfl

theorem Binding.place_fixEdit (hparse : SourceFile.parse name text = .ok file)
    (hsize : Text.size text < UInt32.size) (hb : Binding.resolve file config = some b) {s : Service}
    (hs : s ∈ b.services) (kind : TemplateKind) :
    (b.fixEdit s kind).place (LineIndex.ofText text) = .ok ⟨s.anchor, b.fixEdit s kind⟩ := by
  obtain ⟨hspan, hwell⟩ := Binding.service_fits hparse hb hs
  have hanchor := Service.anchor_fits hwell hspan
  have hback : (LineIndex.ofText text).span? (b.fixEdit s kind).location = some s.anchor :=
    Binding.span?_anchor hparse hsize hb hs
  rw [TextEdit.place, hback]
  exact if_pos (Nat.le_of_lt hanchor.lt)

/-- The edit of an action for a bound service adds a handler to it. -/
theorem Binding.adds_fixEdit (hparse : SourceFile.parse name text = .ok file)
    (hb : Binding.resolve file config = some b) (s : Service) (kind : TemplateKind) :
    (PlacedEdit.mk s.anchor (b.fixEdit s kind)).Adds text s (handler b.qualifier kind) := by
  have hq := Binding.qualifier_isNameText hparse hb
  obtain ⟨quoting, hreads⟩ := ReadsName.of_isNameText hq
  have htext : b.file.text = text := by
    obtain ⟨hfile, -, -⟩ := Binding.resolve_eq_some hb
    obtain ⟨m, -, rfl⟩ := SourceFile.parse_eq_ok hparse
    rw [hfile]
  have hending : IsLineEnding b.file.lineEnding := b.file.isLineEnding
  let column := (b.file.location s.anchor).start.character.toNat
  refine ⟨rfl, b.file.lineEnding, column, handlerPieces (b.place column) quoting kind, hending,
    readsMember_handler (p := b.place column) kind hreads hending, ?_⟩
  rw [Binding.fixEdit, String.toList_ofList, b.replacement_eq hq, htext]

end

/-! ## Chosen fixes -/

/-- A diagnostic of a bound service as a whole, with an action that is offered for it. -/
structure Fix [Similarity] (b : Binding) where
  service : Service
  diagnostic : Diagnostic
  action : CodeAction
  bound : service ∈ b.services
  found : diagnostic ∈ b.fixDiagnostics service
  offered : action ∈ CodeAction.forDiagnostic diagnostic b.config.module

namespace Fix

variable [Similarity] {b : Binding}

def kind (f : Fix b) : TemplateKind := f.action.provider.template

def placed (f : Fix b) : PlacedEdit := ⟨f.service.anchor, b.fixEdit f.service f.kind⟩

/-- The fix that is chosen for a service. -/
def forService? (fixes : List (Fix b)) (s : Service) : Option (Fix b) := fixes.find? (·.service == s)

/-- What the chosen fixes do to a service. -/
def added (fixes : List (Fix b)) (s : Service) : Option (PlacedEdit × Member) :=
  (forService? fixes s).map fun f => (f.placed, handler b.qualifier f.kind)

theorem service_nodup {fixes : List (Fix b)} (h : (fixes.map Fix.diagnostic).Nodup) :
    (fixes.map Fix.service).Nodup := by
  rw [List.Nodup, List.pairwise_map] at *
  refine h.imp ?_
  intro f g hne hsame
  have hg := g.found
  rw [← hsame] at hg
  exact hne (Binding.fixDiagnostics_unique f.found hg)

theorem forService?_eq_some {fixes : List (Fix b)} {s : Service} {f : Fix b}
    (h : forService? fixes s = some f) : f ∈ fixes ∧ f.service = s :=
  ⟨List.mem_of_find?_eq_some h, by simpa using List.find?_some h⟩

theorem forService?_service {fixes : List (Fix b)} (h : (fixes.map Fix.service).Nodup) {f : Fix b}
    (hf : f ∈ fixes) : forService? fixes f.service = some f := by
  obtain ⟨g, hg⟩ : ∃ g, forService? fixes f.service = some g := by
    rw [← Option.isSome_iff_exists, forService?, List.find?_isSome]
    exact ⟨f, hf, by simp⟩
  obtain ⟨hmem, hsame⟩ := forService?_eq_some hg
  rw [hg, List.inj_on_of_nodup_map h hmem hf hsame]

section

variable {name : String} {text : List Char} {file : SourceFile} {config : Config} {fixes : List (Fix b)}

/-- The chosen fixes in the order of the source go to different places. -/
theorem pairwise_forService? (hparse : SourceFile.parse name text = .ok file)
    (hb : Binding.resolve file config = some b) :
    (file.module.services.filterMap (forService? fixes)).Pairwise fun f g =>
      f.placed.span.start < g.placed.span.start ∧ f.placed.span.stop ≤ g.placed.span.start := by
  obtain ⟨m, hm, hfile⟩ := SourceFile.parse_eq_ok hparse
  have hservices := Module.services_pairwise hm
  rw [hfile]
  refine List.pairwise_filterMap.2 (hservices.imp ?_)
  intro s s' hle f hf g hg
  obtain ⟨-, rfl⟩ := forService?_eq_some hf
  obtain ⟨-, rfl⟩ := forService?_eq_some hg
  obtain ⟨hspan, hwell⟩ := Binding.service_fits hparse hb f.bound
  have hlt := hspan.lt
  have hstop := Service.anchor_stop_le hwell hspan
  simp only [placed, Service.anchor_start]
  omega

/-- The chosen fixes in the order of the source are the chosen fixes. -/
theorem perm_forService? (hparse : SourceFile.parse name text = .ok file)
    (hb : Binding.resolve file config = some b) (hnodup : (fixes.map Fix.service).Nodup) :
    fixes.Perm (file.module.services.filterMap (forService? fixes)) := by
  have hordered : (file.module.services.filterMap (forService? fixes)).Nodup := by
    refine (pairwise_forService? hparse hb).imp ?_
    rintro f g ⟨hlt, -⟩ rfl
    exact Nat.lt_irrefl _ hlt
  rw [List.perm_ext_iff_of_nodup hnodup.of_map hordered]
  intro f
  rw [List.mem_filterMap]
  constructor
  · intro hf
    obtain ⟨hfile, -, -⟩ := Binding.resolve_eq_some hb
    have hmem := (List.mem_filter.1 f.bound).1
    rw [hfile] at hmem
    exact ⟨f.service, hmem, forService?_service hnodup hf⟩
  · rintro ⟨s, -, hf⟩
    exact (forService?_eq_some hf).1

/-- The edits of the chosen fixes apply, and give a module with the handlers added. -/
theorem applyAll_placed (hparse : SourceFile.parse name text = .ok file)
    (hsize : Text.size text < UInt32.size) (hb : Binding.resolve file config = some b)
    (hnodup : (fixes.map Fix.service).Nodup) :
    ∃ text' m', TextEdit.applyAll text (fixes.map fun f => f.placed.edit) = .ok text' ∧
      Module.parse text' = .ok m' ∧
      m'.decls.map Decl.bare = file.module.decls.map (Decl.withAdded (added fixes)) := by
  have hplaced : (fixes.map fun f => f.placed.edit).mapM (TextEdit.place (LineIndex.ofText text)) =
      .ok (fixes.map Fix.placed) := by
    rw [List.mapM_map]
    exact mapM_eq_ok_map fun f _ => Binding.place_fixEdit hparse hsize hb f.bound f.kind
  have hedits : addedEdits (added fixes) file.module.decls =
      (file.module.services.filterMap (forService? fixes)).map Fix.placed := by
    rw [addedEdits, List.map_filterMap]
    refine List.filterMap_congr fun s _ => ?_
    rw [added, Option.map_map]
    rfl
  have hadds : ∀ s e new, added fixes s = some (e, new) → e.Adds text s new := by
    intro s e new h
    obtain ⟨f, hf, hpair⟩ := Option.map_eq_some_iff.1 h
    obtain ⟨rfl, rfl⟩ := Prod.mk.inj hpair
    obtain ⟨-, rfl⟩ := forService?_eq_some hf
    exact Binding.adds_fixEdit hparse hb f.service f.kind
  obtain ⟨m, hm, hfile⟩ := SourceFile.parse_eq_ok hparse
  have hdecls : Module.parse text = .ok ⟨file.module.decls⟩ := by rw [hm, hfile]
  obtain ⟨ds', hparse', hbare⟩ := Module.parse_applyPlaced hadds hdecls
  refine ⟨_, ⟨ds'⟩, TextEdit.applyAll_eq hplaced ?_ ?_, hparse', hbare⟩
  · rw [hedits]
    exact (perm_forService? hparse hb hnodup).map Fix.placed
  · rw [hedits, List.pairwise_map]
    exact pairwise_forService? hparse hb

/-- Without the diagnostics that are fixed, there is only what is said about the members of a service that is
fixed, and everything that is said about another one. -/
theorem keys_filter (hparse : SourceFile.parse name text = .ok file) (hsize : Text.size text < UInt32.size)
    (hb : Binding.resolve file config = some b) {s : Service} (hs : s ∈ b.services) :
    ((b.orderedDiagnostics s).filter fun d => d ∉ fixes.map Fix.diagnostic).map Diagnostic.key =
      if (added fixes s).isSome then b.memberKeys s else b.keys s := by
  have hmembers : (s.members.flatMap b.memberDiagnostics).filter (fun d => d ∉ fixes.map Fix.diagnostic) =
      s.members.flatMap b.memberDiagnostics := by
    refine List.filter_eq_self.2 fun d hd => ?_
    rw [decide_eq_true_eq]
    intro hfixed
    obtain ⟨f, -, rfl⟩ := List.mem_map.1 hfixed
    obtain ⟨m, -, hm⟩ := List.mem_flatMap.1 hd
    have hfix := (Binding.mem_fixDiagnostics f.found).1
    rw [Binding.not_isFixable_of_mem_memberDiagnostics hm] at hfix
    cases hfix
  rw [Binding.orderedDiagnostics, List.filter_append, hmembers]
  cases hadded : forService? fixes s with
  | none =>
    have hkeep : (b.fixDiagnostics s).filter (fun d => d ∉ fixes.map Fix.diagnostic) = b.fixDiagnostics s := by
      refine List.filter_eq_self.2 fun d hd => ?_
      rw [decide_eq_true_eq]
      intro hfixed
      obtain ⟨f, hf, rfl⟩ := List.mem_map.1 hfixed
      have hsame := Binding.eq_of_mem_fixDiagnostics hparse hsize hb f.bound hs f.found hd
      exact List.find?_eq_none.1 hadded f hf (by simp [hsame])
    rw [hkeep]
    simp [added, hadded, Binding.keys, Binding.orderedDiagnostics]
  | some f =>
    obtain ⟨hf, rfl⟩ := forService?_eq_some hadded
    have hdrop : (b.fixDiagnostics f.service).filter (fun d => d ∉ fixes.map Fix.diagnostic) = [] := by
      refine List.filter_eq_nil_iff.2 fun d hd => ?_
      rw [decide_eq_true_eq, Classical.not_not]
      obtain rfl := Binding.fixDiagnostics_unique f.found hd
      exact List.mem_map_of_mem hf
    rw [hdrop]
    simp [added, hadded, Binding.memberKeys]

/-- What is said about the file after the chosen fixes are made. -/
theorem validate_applyAll (hparse : SourceFile.parse name text = .ok file)
    (hsize : Text.size text < UInt32.size) (hb : Binding.resolve file config = some b)
    (hcontract : config.contract = Contract.builtin) (hnodup : (fixes.map Fix.diagnostic).Nodup) :
    ∃ text' file', TextEdit.applyAll text (fixes.map fun f => f.placed.edit) = .ok text' ∧
      SourceFile.parse name text' = .ok file' ∧
      (Text.size text' < UInt32.size → (validate file' config).map Diagnostic.key =
        ((validate file config).filter fun d => d ∉ fixes.map Fix.diagnostic).map Diagnostic.key) := by
  obtain ⟨text', m', happly, hparse', hbare⟩ := applyAll_placed hparse hsize hb (service_nodup hnodup)
  refine ⟨text', _, happly, SourceFile.parse_of_module name hparse', fun hsize' => ?_⟩
  obtain ⟨hfile, hconfig, -⟩ := Binding.resolve_eq_some hb
  let file' : SourceFile := ⟨name, text', m', LineIndex.ofText text'⟩
  have hresolve : Binding.resolve file' config = some ⟨file', config, b.qualifier⟩ :=
    Binding.resolve_alike (Module.imports_edited hbare) hb
  have halike : b.Alike ⟨file', config, b.qualifier⟩ :=
    ⟨hconfig.symm, rfl, by rw [hfile]; exact Module.listeners_edited hbare⟩
  have hadded : ∀ s e new, added fixes s = some (e, new) → ∃ kind, new = handler b.qualifier kind := by
    intro s e new h
    obtain ⟨f, -, hpair⟩ := Option.map_eq_some_iff.1 h
    exact ⟨f.kind, (Prod.mk.inj hpair).2.symm⟩
  have hafter : (validate file' config).map Diagnostic.key =
      b.services.flatMap fun s => if (added fixes s).isSome then b.memberKeys s else b.keys s := by
    rw [validate_eq (SourceFile.parse_of_module name hparse') hsize' hresolve, List.map_flatMap]
    refine halike.keys_edited (hconfig ▸ hcontract) (Binding.qualifier_isNameText hparse hb) ?_ hadded
    rw [hfile]
    exact Module.services_edited hbare
  have hbefore : ((validate file config).filter fun d => d ∉ fixes.map Fix.diagnostic).map Diagnostic.key =
      b.services.flatMap fun s => if (added fixes s).isSome then b.memberKeys s else b.keys s := by
    rw [validate_eq hparse hsize hb, List.filter_flatMap, List.map_flatMap]
    exact List.flatMap_congr fun s hs => keys_filter hparse hsize hb hs
  rw [hafter, hbefore]

/-- Actions that are offered for diagnostics of a file are fixes. -/
theorem exists_of_picks (hparse : SourceFile.parse name text = .ok file)
    (hsize : Text.size text < UInt32.size) (hb : Binding.resolve file config = some b)
    {picks : List (Diagnostic × CodeAction)}
    (h : ∀ p ∈ picks, p.1 ∈ validate file config ∧ p.2 ∈ CodeAction.forDiagnostic p.1 config.module) :
    ∃ fixes : List (Fix b), picks = fixes.map fun f => (f.diagnostic, f.action) := by
  induction picks with
  | nil => exact ⟨[], rfl⟩
  | cons p picks ih =>
    obtain ⟨fixes, hfixes⟩ := ih fun q hq => h q (List.mem_cons_of_mem _ hq)
    obtain ⟨hd, ha⟩ := h p List.mem_cons_self
    have hfixable := (CodeAction.mem_forDiagnostic ha).1
    obtain ⟨s, hs, hfound⟩ := Binding.exists_service hparse hsize hb hd hfixable
    obtain ⟨-, hconfig, -⟩ := Binding.resolve_eq_some hb
    refine ⟨⟨s, p.1, p.2, hs, hfound, hconfig ▸ ha⟩ :: fixes, ?_⟩
    rw [hfixes]
    rfl

end

end Fix

/-! ## The fixed file -/

/-- Actions for some of the diagnostics of a file, one for each and in any order, are carried out and their
edits applied. What is said about the new file is what was said about the old one, without those. -/
theorem validate_fixed [Similarity] {name : String} {text : List Char} {file : SourceFile} {config : Config}
    (hparse : SourceFile.parse name text = .ok file) (hsize : Text.size text < UInt32.size)
    (hcontract : config.contract = Contract.builtin) {picks : List (Diagnostic × CodeAction)}
    (hpicks : ∀ p ∈ picks, p.1 ∈ validate file config ∧ p.2 ∈ CodeAction.forDiagnostic p.1 config.module)
    (hnodup : (picks.map Prod.fst).Nodup) :
    ∃ edits text' file',
      picks.mapM (fun p => p.2.execute file config TemplateStore.builtin) = .ok edits ∧
      TextEdit.applyAll file.text edits = .ok text' ∧ SourceFile.parse name text' = .ok file' ∧
      (Text.size text' < UInt32.size → (validate file' config).map Diagnostic.key =
        ((validate file config).filter fun d => d ∉ picks.map Prod.fst).map Diagnostic.key) := by
  have htext : file.text = text := by
    obtain ⟨m, -, rfl⟩ := SourceFile.parse_eq_ok hparse
    rfl
  rw [htext]
  cases hb : Binding.resolve file config with
  | none =>
    -- nothing is said about a file that does not import the module, so nothing is fixed
    have hnone : validate file config = [] := by rw [validate, hb]
    obtain rfl : picks = [] := by
      refine List.eq_nil_iff_forall_not_mem.2 fun p hp => ?_
      have hmem := (hpicks p hp).1
      rw [hnone] at hmem
      cases hmem
    refine ⟨[], text, file, rfl, ?_, hparse, fun _ => by simp [hnone]⟩
    exact TextEdit.applyAll_eq rfl (List.Perm.refl _) List.Pairwise.nil
  | some b =>
    obtain ⟨fixes, rfl⟩ := Fix.exists_of_picks hparse hsize hb hpicks
    have hdiagnostics :
        (fixes.map fun f => (f.diagnostic, f.action)).map Prod.fst = fixes.map Fix.diagnostic := by
      rw [List.map_map]
      rfl
    rw [hdiagnostics] at hnodup ⊢
    obtain ⟨text', file', happly, hparse', hvalidate⟩ :=
      Fix.validate_applyAll hparse hsize hb hcontract hnodup
    refine ⟨_, text', file', ?_, happly, hparse', hvalidate⟩
    rw [List.mapM_map]
    obtain ⟨-, hconfig, -⟩ := Binding.resolve_eq_some hb
    refine mapM_eq_ok_map fun f _ => ?_
    exact Binding.execute_eq_fixEdit hparse hsize hb f.bound f.found (hconfig ▸ f.offered)

/-- Two services on one line, of which the first one is fixed. What is said about the second one stays. -/
theorem validate_fixed_first :
    ∃ (file : SourceFile) (picks : List (Diagnostic × CodeAction)) (edits : List TextEdit)
      (text' : List Char) (file' : SourceFile), SourceFile.parse "m.bal" ("import ballerina/mqtt;\n".toList ++
      "service on new mqtt:Listener(1) \x7b // later\n".toList ++
      "\x7d service on new mqtt:Listener(2) \x7b remote function onOpen() \x7b\x7d \x7d".toList) = .ok file ∧
      (picks.map fun p => p.1.rule) = [.emptyService] ∧
      picks.mapM (fun p => p.2.execute file {} TemplateStore.builtin) = .ok edits ∧
      TextEdit.applyAll file.text edits = .ok text' ∧ SourceFile.parse "m.bal" text' = .ok file' ∧
      (validate file' {}).map Diagnostic.key = [("MISSING_REQUIRED_METHOD", .error,
          "Service is missing required remote function 'onMessage'"), ("UNKNOWN_REMOTE_METHOD", .error,
          "Remote function 'onOpen' is not part of the 'mqtt:Listener' contract")] := by
  generalize htext : "import ballerina/mqtt;\n".toList ++
    "service on new mqtt:Listener(1) \x7b // later\n".toList ++
    "\x7d service on new mqtt:Listener(2) \x7b remote function onOpen() \x7b\x7d \x7d".toList = text
  -- sorting is left out of what is computed
  let said : SourceFile → List Diagnostic := fun file =>
    (Binding.resolve file {}).elim [] fun b => b.services.flatMap b.orderedDiagnostics
  let picks : SourceFile → List (Diagnostic × CodeAction) := fun file =>
    ((said file).take 1).flatMap fun d =>
      ((CodeAction.forDiagnostic d ({} : Config).module).drop 1).map fun a => (d, a)
  let edits : SourceFile → Except ActionError (List TextEdit) := fun file =>
    (picks file).mapM fun p => p.2.execute file {} TemplateStore.builtin
  let remaining : List (String × Severity × String) := [("MISSING_REQUIRED_METHOD", .error,
    "Service is missing required remote function 'onMessage'"), ("UNKNOWN_REMOTE_METHOD", .error,
    "Remote function 'onOpen' is not part of the 'mqtt:Listener' contract")]
  have hcheck : (SourceFile.parse "m.bal" text).toOption.map (fun file => decide (
      Text.size text < UInt32.size ∧ ((picks file).map Prod.fst).Nodup ∧
      ((picks file).map fun p => p.1.rule) = [.emptyService] ∧
      ((said file).filter fun d => d ∉ (picks file).map Prod.fst).map Diagnostic.key = remaining ∧
      ((edits file).toOption.bind fun edits => (TextEdit.applyAll file.text edits).toOption.map
        fun text' => decide (Text.size text' < UInt32.size)) = some true)) = some true := by
    rw [← htext]
    decide +kernel
  cases hparse : SourceFile.parse "m.bal" text with
  | error e =>
    rw [hparse] at hcheck
    cases hcheck
  | ok file =>
    rw [hparse] at hcheck
    obtain ⟨hsize, hnodup, hrules, hleft, hsize'⟩ := of_decide_eq_true (Option.some.inj hcheck)
    have hsaid : validate file {} = said file := by
      cases hb : Binding.resolve file {} with
      | none => simp [validate, said, hb]
      | some b => simp [validate_eq hparse hsize hb, said, hb]
    have hpicks : ∀ p ∈ picks file, p.1 ∈ validate file {} ∧
        p.2 ∈ CodeAction.forDiagnostic p.1 ({} : Config).module := by
      intro p hp
      obtain ⟨d, hd, hp⟩ := List.mem_flatMap.1 hp
      obtain ⟨a, ha, rfl⟩ := List.mem_map.1 hp
      rw [hsaid]
      exact ⟨List.mem_of_mem_take hd, List.mem_of_mem_drop ha⟩
    obtain ⟨made, text', file', hedits, happly, hparse', hkeys⟩ :=
      validate_fixed hparse hsize rfl hpicks hnodup
    have hshort : Text.size text' < UInt32.size := by simpa [edits, hedits, happly, Except.toOption] using hsize'
    rw [hsaid] at hkeys
    exact ⟨file, picks file, made, text', file', rfl, hrules, hedits, happly, hparse',
      (hkeys hshort).trans hleft⟩

end ServiceLint
