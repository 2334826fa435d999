import Mathlib.Data.List.Perm.Basic
import ServiceLint.Proofs.Lint.Bare
import ServiceLint.Proofs.Lint.Findings

/-!
# The order of diagnostics

Diagnostics are sorted by place. In a file that was parsed this is the order of the source
(`Binding.diagnostics_eq`): service by service, first what is said about the service as a whole and then
what is said about each member. No two diagnostics stand at the same place, so the sorted list is the
only one in that order.
-/
namespace ServiceLint

/-! ## Lists -/

/-- A step that succeeds for every element succeeds for the list. -/
theorem mapM_eq_ok_map {α β ε : Type} {f : α → Except ε β} {g : α → β} {l : List α}
    (h : ∀ x ∈ l, f x = .ok (g x)) : l.mapM f = .ok (l.map g) := by
  induction l with
  | nil => rfl
  | cons x l ih =>
    rw [List.mapM_cons, h x List.mem_cons_self, ih fun y hy => h y (List.mem_cons_of_mem _ hy)]
    rfl

/-- Two lists that are alike element by element give the same. -/
theorem filter_flatMap_congr {α β γ δ : Type _} {xs : List α} {ys : List β} {f : α → γ} {g : β → γ}
    (h : xs.map f = ys.map g) {p : α → Bool} {q : β → Bool} (hpq : ∀ x y, f x = g y → p x = q y)
    {F : α → List δ} {G : β → List δ} (hFG : ∀ x y, f x = g y → F x = G y) :
    (xs.filter p).flatMap F = (ys.filter q).flatMap G := by
  induction xs generalizing ys with
  | nil =>
    obtain rfl : ys = [] := by simpa using h.symm
    rfl
  | cons x xs ih =>
    cases ys with
    | nil => simp at h
    | cons y ys =>
      obtain ⟨hxy, hrest⟩ := List.cons.inj h
      have hp := hpq x y hxy
      by_cases hq : q y = true
      · rw [List.filter_cons_of_pos (hp.trans hq), List.filter_cons_of_pos hq, List.flatMap_cons,
          List.flatMap_cons, hFG x y hxy, ih hrest]
      · rw [List.filter_cons_of_neg (by rw [hp]; exact hq), List.filter_cons_of_neg hq, ih hrest]

theorem flatMap_congr_of_map {α β γ δ : Type _} {xs : List α} {ys : List β} {f : α → γ} {g : β → γ}
    (h : xs.map f = ys.map g) {F : α → List δ} {G : β → List δ} (hFG : ∀ x y, f x = g y → F x = G y) :
    xs.flatMap F = ys.flatMap G := by
  have := filter_flatMap_congr h (p := fun _ => true) (q := fun _ => true) (fun _ _ _ => rfl) hFG
  rwa [List.filter_true, List.filter_true] at this

/-- A list that is sorted without ties is what sorting any of its permutations gives. -/
theorem mergeSort_eq_of_perm {α : Type _} {le : α → α → Bool}
    (trans : ∀ a b c, le a b = true → le b c = true → le a c = true)
    (total : ∀ a b, (le a b || le b a) = true) {l sorted : List α} (hperm : l.Perm sorted)
    (hsorted : sorted.Pairwise fun a b => le a b = true ∧ le b a = false) : l.mergeSort le = sorted := by
  have hp : (l.mergeSort le).Perm sorted := (List.mergeSort_perm l le).trans hperm
  refine List.Perm.eq_of_pairwise ?_ (List.pairwise_mergeSort trans total l)
    (hsorted.imp fun h => h.1) hp
  -- two elements that may change places are the same
  have hties : sorted.Pairwise fun a b => le a b = true → le b a = true → a = b := by
    refine hsorted.imp fun h _ hba => ?_
    rw [h.2] at hba
    cases hba
  have hflip : sorted.Pairwise (flip fun a b => le a b = true → le b a = true → a = b) :=
    hties.imp fun h hba hab => (h hab hba).symm
  intro a b ha hb hab hba
  exact hties.forall_of_forall_of_flip (fun _ _ _ _ => rfl) hflip (hp.subset ha) hb hab hba

theorem Position.lt_iff {p q : Position} : p.lt q = true ↔ p.line.toNat < q.line.toNat ∨
    p.line.toNat = q.line.toNat ∧ p.character.toNat < q.character.toNat := by
  simp [Position.lt, UInt32.lt_iff_toNat_lt, ← UInt32.toNat_inj]

theorem Diagnostic.le_iff {a b : Diagnostic} : a.le b = true ↔
    a.location.start.lt b.location.start = true ∨
      a.location.start = b.location.start ∧ a.rule.rank ≤ b.rule.rank := by
  simp [Diagnostic.le]

theorem Position.lt_trichotomy (p q : Position) : p.lt q = true ∨ p = q ∨ q.lt p = true := by
  rw [Position.lt_iff, Position.lt_iff]
  obtain ⟨pl, pc⟩ := p
  obtain ⟨ql, qc⟩ := q
  simp only [Position.mk.injEq, ← UInt32.toNat_inj]
  omega

theorem Position.lt_trans {p q r : Position} (h : p.lt q = true) (h' : q.lt r = true) : p.lt r = true := by
  rw [Position.lt_iff] at *
  omega

theorem Diagnostic.le_trans (a b c : Diagnostic) (hab : a.le b = true) (hbc : b.le c = true) :
    a.le c = true := by
  rw [Diagnostic.le_iff] at *
  rcases hab with hab | ⟨hab, hrank⟩
  · rcases hbc with hbc | ⟨hbc, -⟩
    · exact Or.inl (Position.lt_trans hab hbc)
    · exact Or.inl (hbc ▸ hab)
  · rcases hbc with hbc | ⟨hbc, hrank'⟩
    · exact Or.inl (hab ▸ hbc)
    · exact Or.inr ⟨hab.trans hbc, Nat.le_trans hrank hrank'⟩

theorem Diagnostic.le_total (a b : Diagnostic) : (a.le b || b.le a) = true := by
  rw [Bool.or_eq_true, Diagnostic.le_iff, Diagnostic.le_iff]
  rcases Position.lt_trichotomy a.location.start b.location.start with h | h | h
  · exact Or.inl (Or.inl h)
  · rcases Nat.le_total a.rule.rank b.rule.rank with hrank | hrank
    · exact Or.inl (Or.inr ⟨h, hrank⟩)
    · exact Or.inr (Or.inr ⟨h.symm, hrank⟩)
  · exact Or.inr (Or.inl h)

/-! ## Diagnostics in the order of the source -/

namespace Binding

/-- What is said about a service as a whole. -/
def fixDiagnostics [Similarity] (b : Binding) (s : Service) : List Diagnostic :=
  b.ruleDiagnostics s .emptyService ++ b.ruleDiagnostics s .missingRequiredMethod

/-- What is said about a member. -/
def memberDiagnostics [Similarity] (b : Binding) (m : Member) : List Diagnostic :=
  Rule.ofMembers.flatMap (b.ruleDiagnostics (.only m))

/-- What is said about a service, in the order of the source. -/
def orderedDiagnostics [Similarity] (b : Binding) (s : Service) : List Diagnostic :=
  b.fixDiagnostics s ++ s.members.flatMap b.memberDiagnostics

theorem ruleDiagnostics_members [Similarity] {rule : Rule} (h : rule ∈ Rule.ofMembers) (b : Binding) (s : Service) :
    b.ruleDiagnostics s rule = s.members.flatMap fun m => b.ruleDiagnostics (.only m) rule := by
  unfold ruleDiagnostics
  split
  · simp
  · rw [Rule.check_members h, List.map_flatMap]

theorem serviceDiagnostics_perm [Similarity] (b : Binding) (s : Service) :
    (b.serviceDiagnostics s).Perm (b.orderedDiagnostics s) := by
  have hsplit : b.serviceDiagnostics s =
      b.fixDiagnostics s ++ Rule.ofMembers.flatMap (b.ruleDiagnostics s) := by
    simp [serviceDiagnostics, fixDiagnostics, Rule.all, Rule.ofMembers]
  rw [hsplit]
  refine List.Perm.append_left _ ?_
  have hrules : ∀ rules : List Rule, rules ⊆ Rule.ofMembers →
      (rules.flatMap (b.ruleDiagnostics s)).Perm
        (s.members.flatMap fun m => rules.flatMap (b.ruleDiagnostics (.only m))) := by
    intro rules hsub
    induction rules with
    | nil => simp
    | cons rule rules ih =>
      simp only [List.flatMap_cons]
      rw [ruleDiagnostics_members (hsub List.mem_cons_self)]
      exact (List.Perm.append_left _ (ih fun r hr => hsub (List.mem_cons_of_mem _ hr))).trans
        (List.flatMap_append_perm _ _ _)
  exact hrules _ fun r hr => hr

end Binding

/-! ## Places -/

/-- The diagnostic starts at a clean cut of the text, from `lo` on and before `hi`. -/
def Diagnostic.StartsIn (text : List Char) (lo hi : Nat) (d : Diagnostic) : Prop :=
  ∃ n, d.location.start = (LineIndex.ofText text).position n ∧ CleanCut text n ∧ lo ≤ n ∧ n < hi

theorem Diagnostic.StartsIn.lt {text : List Char} {lo mid hi : Nat} {d d' : Diagnostic}
    (hsize : Text.size text < UInt32.size) (h : d.StartsIn text lo mid) (h' : d'.StartsIn text mid hi) :
    d.location.start.lt d'.location.start = true := by
  obtain ⟨i, hd, hi, -, hlt⟩ := h
  obtain ⟨j, hd', hj, hle, -⟩ := h'
  rw [hd, hd']
  exact LineIndex.position_lt_of_lt hsize hi.isBoundary hj.isBoundary (Nat.lt_of_lt_of_le hlt hle)

theorem Diagnostic.StartsIn.mono {text : List Char} {lo hi lo' hi' : Nat} {d : Diagnostic}
    (h : d.StartsIn text lo hi) (hlo : lo' ≤ lo) (hhi : hi ≤ hi') : d.StartsIn text lo' hi' := by
  obtain ⟨n, hd, hn, hle, hlt⟩ := h
  exact ⟨n, hd, hn, Nat.le_trans hlo hle, Nat.lt_of_lt_of_le hlt hhi⟩

theorem Service.mem_remoteMethods_only {m : Member} {f : Method} (h : f ∈ (Service.only m).remoteMethods) :
    m.isRemote = true ∧ m.method? = some f := by
  obtain ⟨m', hm', hf⟩ := List.mem_filterMap.1 h
  obtain ⟨hmem, hremote⟩ := List.mem_filter.1 hm'
  obtain rfl := List.mem_singleton.1 hmem
  exact ⟨hremote, hf⟩

/-- What is found in a member stands in it. -/
theorem Rule.check_only_fits [Similarity] {text : List Char} {lo hi : Nat} {rule : Rule} {b : Binding} {m : Member}
    {f : Finding} (hrule : rule ∈ Rule.ofMembers) (hf : f ∈ rule.check b (.only m))
    (hm : m.WellLaid text) (hspan : m.span.Fits text lo hi) :
    f.span.Fits text m.span.start m.span.stop := by
  have hmethod : ∀ method ∈ (Service.only m).remoteMethods,
      method.Laid text m.span.start m.span.stop :=
    fun method h => hm method (Service.mem_remoteMethods_only h).2
  simp only [Rule.ofMembers, List.mem_cons, List.not_mem_nil, or_false] at hrule
  rcases hrule with rfl | rfl | rfl
  · obtain ⟨method, hmem, rfl⟩ := List.mem_map.1 hf
    have hlaid := hmethod method (List.mem_filter.1 hmem).1
    exact hlaid.name.mono (Nat.le_refl _) (Nat.le_of_lt (Nat.lt_of_lt_of_le hlaid.list.lt hlaid.list.le_hi))
  · obtain ⟨method, hmem, hfound⟩ := List.mem_filterMap.1 hf
    obtain ⟨spec, -, hspec⟩ := Option.bind_eq_some_iff.1 hfound
    obtain ⟨mismatch, -, rfl⟩ := Option.map_eq_some_iff.1 hspec
    exact (hmethod method hmem).list
  · obtain ⟨m', hmem, rfl⟩ := List.mem_map.1 hf
    obtain rfl := List.mem_singleton.1 (List.mem_filter.1 hmem).1
    exact hspan.self

/-- At most one of the rules for members finds something in a member, once. -/
theorem Rule.check_only_length [Similarity] (b : Binding) (m : Member) :
    (Rule.check .unknownRemoteMethod b (.only m)).length +
      (Rule.check .invalidMethodSignature b (.only m)).length +
      (Rule.check .resourceMethodNotAllowed b (.only m)).length ≤ 1 := by
  have hresource : (Rule.check .resourceMethodNotAllowed b (.only m)).length =
      if m.isResource then 1 else 0 := by
    cases hr : m.isResource <;> simp [Rule.check, Rule.checkResource, Service.only, hr]
  rw [hresource]
  simp only [Rule.check, Rule.checkUnknown, Rule.checkSignature, Service.only_remoteMethods]
  by_cases hremote : m.isRemote = true
  · have hnot : m.isResource = false := by simp [Member.isResource, hremote]
    rw [if_pos hremote, hnot]
    cases hf : m.method? with
    | none => simp
    | some f =>
      -- a function is unknown, or its parameters are compared with the contract
      cases hspec : b.config.contract.method? f.name with
      | none => simp [hspec, Rule.signatureFinding?]
      | some spec =>
        cases hfound : Rule.signatureFinding? b f <;> simp [hspec, hfound]
  · rw [if_neg hremote]
    split <;> simp

/-! ## The whole list -/

theorem pairwise_of_length_le_one {α : Type _} {R : α → α → Prop} {l : List α} (h : l.length ≤ 1) :
    l.Pairwise R := by
  rcases l with _ | ⟨a, _ | ⟨b, l⟩⟩
  · exact .nil
  · exact List.pairwise_singleton R a
  · simp at h

namespace Binding

theorem ruleDiagnostics_length_le [Similarity] (b : Binding) (s : Service) (rule : Rule) :
    (b.ruleDiagnostics s rule).length ≤ (rule.check b s).length := by
  unfold ruleDiagnostics
  split <;> simp

theorem memberDiagnostics_length_le [Similarity] (b : Binding) (m : Member) : (b.memberDiagnostics m).length ≤ 1 := by
  have h := Rule.check_only_length b m
  have h₁ := b.ruleDiagnostics_length_le (.only m) .unknownRemoteMethod
  have h₂ := b.ruleDiagnostics_length_le (.only m) .invalidMethodSignature
  have h₃ := b.ruleDiagnostics_length_le (.only m) .resourceMethodNotAllowed
  simp only [memberDiagnostics, Rule.ofMembers, List.flatMap_cons, List.flatMap_nil, List.length_append,
    List.length_nil]
  omega

/-- A service is empty, or it misses a function, or neither. -/
theorem fixDiagnostics_length_le [Similarity] (b : Binding) (s : Service) : (b.fixDiagnostics s).length ≤ 1 := by
  have hempty := b.ruleDiagnostics_length_le s .emptyService
  have hmissing := b.ruleDiagnostics_length_le s .missingRequiredMethod
  have hone : (Rule.check .emptyService b s).length + (Rule.check .missingRequiredMethod b s).length ≤ 1 := by
    by_cases hms : s.members = []
    · simp [Rule.check, Rule.checkEmpty, Rule.checkMissing, Service.isEmpty, Service.lastMember?, hms]
    · have hnone : Rule.check .emptyService b s = [] := by
        simp [Rule.check, Rule.checkEmpty, Service.isEmpty, hms]
      rw [hnone]
      simp only [Rule.check, Rule.checkMissing]
      split <;> simp
  rw [fixDiagnostics, List.length_append]
  omega

variable {text : List Char} {lo hi : Nat} {b : Binding} {s : Service}

/-- There is at most one thing to say about a service as a whole. -/
theorem fixDiagnostics_unique [Similarity] {d d' : Diagnostic} (h : d ∈ b.fixDiagnostics s)
    (h' : d' ∈ b.fixDiagnostics s) : d = d' := by
  have hlength := b.fixDiagnostics_length_le s
  rcases hlist : b.fixDiagnostics s with _ | ⟨e, _ | ⟨e', es⟩⟩
  · rw [hlist] at h
    cases h
  · rw [hlist, List.mem_singleton] at h h'
    rw [h, h']
  · rw [hlist] at hlength
    simp at hlength

theorem mem_fixDiagnostics [Similarity] {d : Diagnostic} (h : d ∈ b.fixDiagnostics s) :
    d.rule.isFixable = true ∧ d.location = b.file.location s.anchor := by
  rcases List.mem_append.1 h with h | h
  · obtain ⟨hrule, f, hf, hloc, -⟩ := mem_ruleDiagnostics h
    rw [hrule, hloc, Rule.check_anchor rfl hf]
    exact ⟨rfl, rfl⟩
  · obtain ⟨hrule, f, hf, hloc, -⟩ := mem_ruleDiagnostics h
    rw [hrule, hloc, Rule.check_anchor rfl hf]
    exact ⟨rfl, rfl⟩

theorem fixDiagnostics_startsIn [Similarity] (hindex : b.file.index = LineIndex.ofText text) (hs : s.WellLaid text)
    (hspan : s.span.Fits text lo hi) {d : Diagnostic} (hd : d ∈ b.fixDiagnostics s) :
    d.StartsIn text s.span.start s.openBrace.stop := by
  refine ⟨s.span.start, ?_, hspan.start, Nat.le_refl _, Nat.lt_of_le_of_lt hs.openBrace.lo_le hs.openBrace.lt⟩
  rw [(mem_fixDiagnostics hd).2, SourceFile.location, hindex, ← s.anchor_start]
  rfl

theorem memberDiagnostics_startsIn [Similarity] (hindex : b.file.index = LineIndex.ofText text) {m : Member}
    (hm : m.WellLaid text) (hspan : m.span.Fits text lo hi) {d : Diagnostic}
    (hd : d ∈ b.memberDiagnostics m) : d.StartsIn text m.span.start m.span.stop := by
  obtain ⟨rule, hrule, hd⟩ := List.mem_flatMap.1 hd
  obtain ⟨-, f, hf, hloc, -⟩ := mem_ruleDiagnostics hd
  have hfit := Rule.check_only_fits hrule hf hm hspan
  refine ⟨f.span.start, ?_, hfit.start, hfit.lo_le, Nat.lt_of_lt_of_le hfit.lt hfit.le_hi⟩
  rw [hloc, SourceFile.location, hindex]
  rfl

theorem orderedDiagnostics_startsIn [Similarity] (hindex : b.file.index = LineIndex.ofText text) (hs : s.WellLaid text)
    (hspan : s.span.Fits text lo hi) {d : Diagnostic} (hd : d ∈ b.orderedDiagnostics s) :
    d.StartsIn text s.span.start s.span.stop := by
  have h₁ := hs.openBrace.le_hi
  have h₂ := hs.openBrace.lo_le
  have h₃ := hs.openBrace.lt
  have h₄ := hs.closeBrace.lt
  have h₅ := hs.closeBrace.le_hi
  rcases List.mem_append.1 hd with hd | hd
  · exact (fixDiagnostics_startsIn hindex hs hspan hd).mono (Nat.le_refl _) (by omega)
  · obtain ⟨m, hm, hd⟩ := List.mem_flatMap.1 hd
    have hfit := hs.members.fits (List.mem_map_of_mem (f := Member.span) hm)
    have h₆ := hfit.lo_le
    have h₇ := hfit.le_hi
    exact (memberDiagnostics_startsIn hindex (hs.each m hm) hfit hd).mono (by omega) (by omega)

/-- What is said about a service stands in the order of the source. -/
theorem orderedDiagnostics_pairwise [Similarity] (hsize : Text.size text < UInt32.size)
    (hindex : b.file.index = LineIndex.ofText text) (hs : s.WellLaid text) (hspan : s.span.Fits text lo hi) :
    (b.orderedDiagnostics s).Pairwise fun d d' => d.location.start.lt d'.location.start = true := by
  have hfit : ∀ m ∈ s.members, m.span.Fits text s.openBrace.stop s.closeBrace.start :=
    fun m hm => hs.members.fits (List.mem_map_of_mem (f := Member.span) hm)
  refine List.pairwise_append.2 ⟨pairwise_of_length_le_one (b.fixDiagnostics_length_le s), ?_, ?_⟩
  · refine List.pairwise_flatMap.2 ⟨fun m _ => pairwise_of_length_le_one (b.memberDiagnostics_length_le m), ?_⟩
    have horder := List.pairwise_map.1 hs.members.pairwise
    refine horder.imp_of_mem ?_
    intro m m' hm hm' hle d hd d' hd'
    have h := memberDiagnostics_startsIn hindex (hs.each m hm) (hfit m hm) hd
    have h' := memberDiagnostics_startsIn hindex (hs.each m' hm') (hfit m' hm') hd'
    exact (h.mono (Nat.le_refl _) hle).lt hsize h'
  · intro d hd d' hd'
    obtain ⟨m, hm, hd'⟩ := List.mem_flatMap.1 hd'
    have h := fixDiagnostics_startsIn hindex hs hspan hd
    have h' := memberDiagnostics_startsIn hindex (hs.each m hm) (hfit m hm) hd'
    exact h.lt hsize (h'.mono (hfit m hm).lo_le (Nat.le_refl _))

end Binding

/-- The services of a module end before the later ones start. -/
theorem Module.services_pairwise {text : List Char} {m : Module} (h : Module.parse text = .ok m) :
    m.services.Pairwise fun s s' => s.span.stop ≤ s'.span.start := by
  have horder := List.pairwise_map.1 (Module.parse_laid h).1.pairwise
  refine List.pairwise_filterMap.2 (horder.imp ?_)
  intro d d' hle s hs s' hs'
  cases d <;> cases hs
  cases d' <;> cases hs'
  exact hle

section

variable {name : String} {text : List Char} {file : SourceFile} {config : Config} {b : Binding}

theorem Binding.services_pairwise (hparse : SourceFile.parse name text = .ok file)
    (hb : Binding.resolve file config = some b) :
    b.services.Pairwise fun s s' => s.span.stop ≤ s'.span.start := by
  obtain ⟨m, hm, rfl⟩ := SourceFile.parse_eq_ok hparse
  obtain ⟨hfile, -, -⟩ := Binding.resolve_eq_some hb
  rw [Binding.services, hfile]
  exact (Module.services_pairwise hm).filter _

/-- No two things that are said about a file stand at the same place. -/
theorem Binding.ordered_pairwise [Similarity] (hparse : SourceFile.parse name text = .ok file)
    (hsize : Text.size text < UInt32.size) (hb : Binding.resolve file config = some b) :
    (b.services.flatMap b.orderedDiagnostics).Pairwise
      fun d d' => d.location.start.lt d'.location.start = true := by
  have hindex : b.file.index = LineIndex.ofText text := by
    obtain ⟨hfile, -, -⟩ := Binding.resolve_eq_some hb
    obtain ⟨m, -, rfl⟩ := SourceFile.parse_eq_ok hparse
    rw [hfile]
  have hfits : ∀ s ∈ b.services, s.span.Fits text 0 (Text.size text) ∧ s.WellLaid text :=
    fun s hs => Binding.service_fits hparse hb hs
  refine List.pairwise_flatMap.2 ⟨fun s hs => ?_, ?_⟩
  · obtain ⟨hspan, hwell⟩ := hfits s hs
    exact Binding.orderedDiagnostics_pairwise hsize hindex hwell hspan
  · refine (Binding.services_pairwise hparse hb).imp_of_mem ?_
    intro s s' hs hs' hle d hd d' hd'
    obtain ⟨hspan, hwell⟩ := hfits s hs
    obtain ⟨hspan', hwell'⟩ := hfits s' hs'
    have h := Binding.orderedDiagnostics_startsIn hindex hwell hspan hd
    have h' := Binding.orderedDiagnostics_startsIn hindex hwell' hspan' hd'
    exact (h.mono (Nat.le_refl _) hle).lt hsize h'

/-- However the diagnostics of a file are found, sorting puts them in the order of the source. -/
theorem Binding.mergeSort_eq [Similarity] {ds : List Diagnostic} (hparse : SourceFile.parse name text = .ok file)
    (hsize : Text.size text < UInt32.size) (hb : Binding.resolve file config = some b)
    (hperm : ds.Perm (b.services.flatMap b.serviceDiagnostics)) :
    ds.mergeSort Diagnostic.le = b.services.flatMap b.orderedDiagnostics := by
  refine mergeSort_eq_of_perm Diagnostic.le_trans Diagnostic.le_total
    (hperm.trans (List.Perm.flatMap_left _ fun s _ => b.serviceDiagnostics_perm s)) ?_
  refine (Binding.ordered_pairwise hparse hsize hb).imp
    fun {d d'} hlt => ⟨Diagnostic.le_iff.2 (Or.inl hlt), ?_⟩
  rw [Bool.eq_false_iff]
  intro hle
  rcases Diagnostic.le_iff.1 hle with hlt' | ⟨heq, -⟩
  · rw [Position.lt_asymm hlt] at hlt'
    cases hlt'
  · rw [heq, Position.lt_irrefl] at hlt
    cases hlt

/-- The diagnostics of a file stand in the order of the source. -/
theorem Binding.diagnostics_eq [Similarity] (hparse : SourceFile.parse name text = .ok file)
    (hsize : Text.size text < UInt32.size) (hb : Binding.resolve file config = some b) :
    b.diagnostics = b.services.flatMap b.orderedDiagnostics :=
  Binding.mergeSort_eq hparse hsize hb (List.Perm.refl _)

theorem validate_eq [Similarity] (hparse : SourceFile.parse name text = .ok file) (hsize : Text.size text < UInt32.size)
    (hb : Binding.resolve file config = some b) :
    validate file config = b.services.flatMap b.orderedDiagnostics := by
  rw [validate, hb]
  exact Binding.diagnostics_eq hparse hsize hb

end

end ServiceLint
