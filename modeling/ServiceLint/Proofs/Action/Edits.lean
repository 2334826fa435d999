import Mathlib.Data.List.Nodup
import ServiceLint.Action.Edit
import ServiceLint.Proofs.Lint.Order
import ServiceLint.Proofs.Text.Lines

/-!
# Edits made at once

Several edits of a text are sorted by their spans, neighbours are compared, and the spans are replaced from
the last one to the first. This comes to replacing all of them at once (`TextEdit.applyAll_atOnce`): two
edits of which neither ends before the other starts are always found among neighbours
(`TextEdit.firstOverlap?_eq_none_iff`), and going backwards gives the text that one pass forwards gives
(`TextEdit.takeBytes_append_weave`). So the order in which edits are given matters for insertions at the same
place only (`TextEdit.applyAll_perm`).
-/
namespace ServiceLint

/-- Neither span ends before the other one starts. A span of no extent overlaps those that it lies inside. -/
def Span.Overlaps (a b : Span) : Prop := a.start < b.stop ∧ b.start < a.stop

instance (a b : Span) : Decidable (a.Overlaps b) := inferInstanceAs (Decidable (_ ∧ _))

theorem Span.Overlaps.symm {a b : Span} (h : a.Overlaps b) : b.Overlaps a := ⟨h.2, h.1⟩

/-- The spans of the edits have nothing in common. -/
def PlacedEdit.Apart (a b : PlacedEdit) : Prop := ¬ a.span.Overlaps b.span

instance (a b : PlacedEdit) : Decidable (a.Apart b) := inferInstanceAs (Decidable (¬ _))

theorem PlacedEdit.Apart.symm {a b : PlacedEdit} (h : a.Apart b) : b.Apart a := fun hab => h hab.symm

/-- The edit can be made in the text: its span goes forward, from one cut between characters to another. -/
structure PlacedEdit.Stands (text : List Char) (p : PlacedEdit) : Prop where
  start : Text.isBoundary p.span.start text = true
  stop : Text.isBoundary p.span.stop text = true
  le : p.span.start ≤ p.span.stop

namespace TextEdit

/-! ## Finding the spans -/

/-- The span of an edit in a text, unless the location is not in the text or its end comes first. -/
def spanIn? (text : List Char) (e : TextEdit) : Option Span :=
  ((LineIndex.ofText text).span? e.location).filter fun s => s.start ≤ s.stop

def placedIn (text : List Char) (edits : List TextEdit) : List PlacedEdit :=
  edits.filterMap fun e => (e.spanIn? text).map (⟨·, e⟩)

variable {text : List Char} {e : TextEdit} {edits : List TextEdit}

theorem place_of_some {s : Span} (h : e.spanIn? text = some s) :
    place (LineIndex.ofText text) e = .ok ⟨s, e⟩ := by
  obtain ⟨hs, hle⟩ := Option.filter_eq_some_iff.1 h
  rw [place, hs]
  exact if_pos (of_decide_eq_true hle)

theorem place_of_none (h : e.spanIn? text = none) :
    place (LineIndex.ofText text) e = .error (.outOfBounds e.location) := by
  cases hs : (LineIndex.ofText text).span? e.location with
  | none => simp only [place, hs]
  | some s =>
    have hlt : ¬ s.start ≤ s.stop := by simpa [spanIn?, hs] using h
    simp only [place, hs, if_neg hlt]

theorem mem_placedIn {p : PlacedEdit} :
    p ∈ placedIn text edits ↔ p.edit ∈ edits ∧ p.edit.spanIn? text = some p.span := by
  constructor
  · intro h
    obtain ⟨e, he, hp⟩ := List.mem_filterMap.1 h
    obtain ⟨s, hs, rfl⟩ := Option.map_eq_some_iff.1 hp
    exact ⟨he, hs⟩
  · rintro ⟨he, hs⟩
    exact List.mem_filterMap.2 ⟨p.edit, he, by rw [hs]; rfl⟩

theorem stands_of_mem_placedIn {p : PlacedEdit} (h : p ∈ placedIn text edits) : p.Stands text := by
  obtain ⟨hs, hle⟩ := Option.filter_eq_some_iff.1 (mem_placedIn.1 h).2
  obtain ⟨start, hstart, hs⟩ := Option.bind_eq_some_iff.1 hs
  obtain ⟨stop, hstop, hspan⟩ := Option.map_eq_some_iff.1 hs
  refine ⟨?_, ?_, of_decide_eq_true hle⟩
  · rw [← hspan]
    exact LineIndex.offset?_isBoundary hstart
  · rw [← hspan]
    exact LineIndex.offset?_isBoundary hstop

/-- When every span is found, the edits are placed one by one. -/
theorem mapM_place (h : ∀ e ∈ edits, e.spanIn? text ≠ none) :
    edits.mapM (place (LineIndex.ofText text)) = .ok (placedIn text edits) := by
  induction edits with
  | nil => rfl
  | cons e edits ih =>
    obtain ⟨s, hs⟩ := Option.ne_none_iff_exists'.1 (h e List.mem_cons_self)
    rw [List.mapM_cons, place_of_some hs, ih fun a ha => h a (List.mem_cons_of_mem _ ha)]
    simp [placedIn, hs, bind, Except.bind, pure, Except.pure]

/-- The first edit whose span is not found is the one that is complained about. -/
theorem mapM_place_error {before after : List TextEdit} (hbefore : ∀ a ∈ before, a.spanIn? text ≠ none)
    (he : e.spanIn? text = none) :
    (before ++ e :: after).mapM (place (LineIndex.ofText text)) = .error (.outOfBounds e.location) := by
  rw [List.mapM_append, mapM_place hbefore, List.mapM_cons, place_of_none he]
  rfl

/-! ## Sorting and comparing neighbours -/

theorem placedLe_iff {a b : PlacedEdit} : placedLe a b = true ↔
    a.span.start < b.span.start ∨ a.span.start = b.span.start ∧ a.span.stop ≤ b.span.stop := by
  simp [placedLe]

theorem placedLe_trans (a b c : PlacedEdit) (hab : placedLe a b = true) (hbc : placedLe b c = true) :
    placedLe a c = true := by
  rw [placedLe_iff] at *
  omega

theorem placedLe_antisymm {a b : PlacedEdit} (hab : placedLe a b = true) (hba : placedLe b a = true) :
    a.span = b.span := by
  rw [placedLe_iff] at hab hba
  have hstart : a.span.start = b.span.start := by omega
  have hstop : a.span.stop = b.span.stop := by omega
  show Span.mk a.span.start a.span.stop = Span.mk b.span.start b.span.stop
  rw [hstart, hstop]

theorem placedLe_total (a b : PlacedEdit) : (placedLe a b || placedLe b a) = true := by
  rw [Bool.or_eq_true, placedLe_iff, placedLe_iff]
  omega

theorem firstOverlap?_eq_none {edits : List PlacedEdit}
    (h : edits.Pairwise fun a b => a.span.stop ≤ b.span.start) : firstOverlap? edits = none := by
  induction edits with
  | nil => rfl
  | cons a edits ih =>
    obtain ⟨hhead, htail⟩ := List.pairwise_cons.1 h
    cases edits with
    | nil => rfl
    | cons b edits =>
      rw [firstOverlap?, if_neg (Nat.not_lt.2 (hhead b List.mem_cons_self)), ih htail]

/-- Edits that do not touch each other apply in whatever order they are given. -/
theorem applyAll_eq {text : List Char} {edits : List TextEdit} {placed ordered : List PlacedEdit}
    (hplaced : edits.mapM (place (LineIndex.ofText text)) = .ok placed) (hperm : placed.Perm ordered)
    (horder : ordered.Pairwise fun a b => a.span.start < b.span.start ∧ a.span.stop ≤ b.span.start) :
    applyAll text edits = .ok (applyPlaced text ordered) := by
  have hsort : placed.mergeSort placedLe = ordered := by
    refine mergeSort_eq_of_perm placedLe_trans placedLe_total hperm (horder.imp ?_)
    intro a b h
    rw [Bool.eq_false_iff, Ne, placedLe_iff, placedLe_iff]
    omega
  have hnone : firstOverlap? ordered = none := firstOverlap?_eq_none (horder.imp fun h => h.2)
  simp [applyAll, hplaced, hsort, hnone, bind, Except.bind, pure, Except.pure]

/-- Edits among which no neighbours overlap go one after the other. -/
theorem pairwise_of_firstOverlap? {ordered : List PlacedEdit} (h : firstOverlap? ordered = none)
    (hle : ∀ p ∈ ordered, p.span.start ≤ p.span.stop) :
    ordered.Pairwise fun a b => a.span.stop ≤ b.span.start := by
  induction ordered with
  | nil => exact List.Pairwise.nil
  | cons a ordered ih =>
    cases ordered with
    | nil => exact List.pairwise_singleton _ _
    | cons b ordered =>
      rw [firstOverlap?] at h
      split at h
      · cases h
      · next hlt =>
        have hrest := ih h fun p hp => hle p (List.mem_cons_of_mem _ hp)
        have hb := hle b (by simp)
        refine List.pairwise_cons.2 ⟨fun p hp => ?_, hrest⟩
        -- `a` ends before its neighbour starts, and the neighbour before all that follow
        rcases List.mem_cons.1 hp with rfl | hp
        · omega
        · have := List.rel_of_pairwise_cons hrest hp
          omega

/-- Among sorted edits, comparing neighbours finds every overlap. -/
theorem firstOverlap?_eq_none_iff {ordered : List PlacedEdit}
    (hsorted : ordered.Pairwise fun a b => placedLe a b = true)
    (hle : ∀ p ∈ ordered, p.span.start ≤ p.span.stop) :
    firstOverlap? ordered = none ↔ ordered.Pairwise PlacedEdit.Apart := by
  constructor
  · intro h
    refine (pairwise_of_firstOverlap? h hle).imp fun hab hoverlap => ?_
    have := hoverlap.2
    omega
  · intro h
    refine firstOverlap?_eq_none ((hsorted.and h).imp_of_mem ?_)
    rintro a b ha hb ⟨hab, hapart⟩
    rw [placedLe_iff] at hab
    have hb := hle b hb
    -- an edit of no extent goes before the others that start where it stands
    by_contra hlt
    exact hapart ⟨by omega, by omega⟩

theorem firstOverlap?_mem {ordered : List PlacedEdit} {p : PlacedEdit} (h : firstOverlap? ordered = some p) :
    p ∈ ordered := by
  fun_induction firstOverlap? ordered with
  | case1 a b rest _ =>
    obtain rfl := Option.some.inj h
    simp
  | case2 a b rest _ ih => exact List.mem_cons_of_mem _ (ih h)
  | case3 => cases h

/-- Placed edits in order are apart when they are apart as they were given. -/
theorem firstOverlap?_placedIn :
    firstOverlap? ((placedIn text edits).mergeSort placedLe) = none ↔
      (placedIn text edits).Pairwise PlacedEdit.Apart := by
  have hperm := List.mergeSort_perm (placedIn text edits) placedLe
  rw [firstOverlap?_eq_none_iff (List.pairwise_mergeSort placedLe_trans placedLe_total _) fun p hp =>
    (stands_of_mem_placedIn (hperm.subset hp)).le]
  exact hperm.pairwise_iff PlacedEdit.Apart.symm

/-! ## Applying -/

/-- Edits whose spans are found are applied, or else one of them is complained about. -/
theorem applyAll_of_found (h : ∀ e ∈ edits, e.spanIn? text ≠ none) :
    applyAll text edits = match firstOverlap? ((placedIn text edits).mergeSort placedLe) with
      | some p => .error (.overlapping p.edit.location)
      | none => .ok (applyPlaced text ((placedIn text edits).mergeSort placedLe)) := by
  rw [applyAll, mapM_place h]
  rfl

theorem applyAll_error {before after : List TextEdit} (hbefore : ∀ a ∈ before, a.spanIn? text ≠ none)
    (he : e.spanIn? text = none) :
    applyAll text (before ++ e :: after) = .error (.outOfBounds e.location) := by
  rw [applyAll, mapM_place_error hbefore he]
  rfl

/-- Either every span is found, or there is a first one that is not. -/
theorem found_or_split (text : List Char) (edits : List TextEdit) :
    (∀ e ∈ edits, e.spanIn? text ≠ none) ∨ ∃ before e after, edits = before ++ e :: after ∧
      (∀ a ∈ before, a.spanIn? text ≠ none) ∧ e.spanIn? text = none := by
  induction edits with
  | nil => exact Or.inl (by simp)
  | cons a edits ih =>
    by_cases ha : a.spanIn? text = none
    · exact Or.inr ⟨[], a, edits, rfl, by simp, ha⟩
    · rcases ih with ih | ⟨before, e, after, rfl, hbefore, he⟩
      · exact Or.inl (List.forall_mem_cons.2 ⟨ha, ih⟩)
      · exact Or.inr ⟨a :: before, e, after, rfl, List.forall_mem_cons.2 ⟨ha, hbefore⟩, he⟩

/-- Edits apply when their spans are found and have nothing in common. -/
theorem applyAll_eq_ok_iff {new : List Char} :
    applyAll text edits = .ok new ↔ (∀ e ∈ edits, e.spanIn? text ≠ none) ∧
      (placedIn text edits).Pairwise PlacedEdit.Apart ∧
      new = applyPlaced text ((placedIn text edits).mergeSort placedLe) := by
  constructor
  · intro h
    rcases found_or_split text edits with hfound | ⟨before, e, after, rfl, hbefore, he⟩
    · rw [applyAll_of_found hfound] at h
      split at h
      · cases h
      · next hnone => exact ⟨hfound, firstOverlap?_placedIn.1 hnone, (Except.ok.inj h).symm⟩
    · rw [applyAll_error hbefore he] at h
      cases h
  · rintro ⟨hfound, hapart, rfl⟩
    rw [applyAll_of_found hfound, firstOverlap?_placedIn.2 hapart]

/-! ## One pass over the text -/

/-- The text from `lo` on with spans replaced in one pass: what stands between them and the new texts, in
turn. -/
def weave (text : List Char) (lo : Nat) : List PlacedEdit → List Char
  | [] => Text.dropBytes lo text
  | p :: ps => Text.slice text lo p.span.start ++ p.edit.newText.toList ++ weave text p.span.stop ps

/-- Replacing spans from the last one to the first leaves everything before them as it was, and gives what one
pass gives from there on. -/
theorem takeBytes_append_weave {lo : Nat} {ordered : List PlacedEdit} (hlo : Text.isBoundary lo text = true)
    (hle : ∀ p ∈ ordered, lo ≤ p.span.start) (hstands : ∀ p ∈ ordered, p.Stands text)
    (horder : ordered.Pairwise fun a b => a.span.stop ≤ b.span.start) :
    Text.takeBytes lo text ++ weave text lo ordered = applyPlaced text ordered := by
  induction ordered generalizing lo with
  | nil => exact Text.takeBytes_append_dropBytes lo text
  | cons p ordered ih =>
    obtain ⟨hbefore, hrest⟩ := List.pairwise_cons.1 horder
    have hp := hstands p List.mem_cons_self
    have hlater : Text.takeBytes p.span.stop text ++ weave text p.span.stop ordered =
        applyPlaced text ordered :=
      ih hp.stop hbefore (fun q hq => hstands q (List.mem_cons_of_mem _ hq)) hrest
    have hsize := Text.size_takeBytes hp.stop
    have hfront : Text.takeBytes p.span.start (applyPlaced text ordered) = Text.takeBytes p.span.start text := by
      rw [← hlater, Text.takeBytes_append_of_le _ (by rw [hsize]; exact hp.le),
        ← Text.takeBytes_append_of_le (Text.dropBytes p.span.stop text) (by rw [hsize]; exact hp.le),
        Text.takeBytes_append_dropBytes]
    have hback : Text.dropBytes p.span.stop (applyPlaced text ordered) = weave text p.span.stop ordered := by
      have hdrop := Text.dropBytes_size (Text.takeBytes p.span.stop text) (weave text p.span.stop ordered)
      rwa [hsize, hlater] at hdrop
    show _ = splice (applyPlaced text ordered) p.span p.edit.newText.toList
    rw [weave, splice, hfront, hback, ← List.append_assoc, ← List.append_assoc,
      Text.takeBytes_append_slice hlo (hle p List.mem_cons_self)]

/-- The first numbered edit goes before the second: it starts first, or starts there too and ends first, or has
the same span and is given first. -/
def Precedes (a b : PlacedEdit × Nat) : Prop :=
  a.1.span.start < b.1.span.start ∨ a.1.span.start = b.1.span.start ∧
    (a.1.span.stop < b.1.span.stop ∨ a.1.span.stop = b.1.span.stop ∧ a.2 < b.2)

/-- The second list has the edits of the first one in the order of their spans. Those that have the same span
keep their order. -/
def Arranges (placed ordered : List PlacedEdit) : Prop :=
  ∃ numbered : List (PlacedEdit × Nat), numbered.Perm placed.zipIdx ∧ numbered.Pairwise Precedes ∧
    numbered.map Prod.fst = ordered

theorem arranges_mergeSort (placed : List PlacedEdit) : Arranges placed (placed.mergeSort placedLe) := by
  have hperm := List.mergeSort_perm placed.zipIdx (List.zipIdxLE placedLe)
  refine ⟨_, hperm, ?_, List.mergeSort_zipIdx⟩
  have hsorted := List.pairwise_mergeSort (List.zipIdxLE_trans placedLe_trans)
    (List.zipIdxLE_total placedLe_total) placed.zipIdx
  have hnumbers : (placed.zipIdx.map Prod.snd).Nodup := by
    rw [List.zipIdx_map_snd]
    exact List.nodup_range'
  have hdistinct := (hperm.map Prod.snd).nodup_iff.2 hnumbers
  rw [List.Nodup, List.pairwise_map] at hdistinct
  refine (hsorted.and hdistinct).imp ?_
  rintro a b ⟨hle, hne⟩
  simp only [List.zipIdxLE, placedLe_iff] at hle
  unfold Precedes
  split at hle
  · split at hle
    · have := of_decide_eq_true hle
      omega
    · omega
  · cases hle

/-- **Edits are made at once.** The first edit whose span is not found is complained about. If all are found
and two of them overlap, one of the edits is complained about. Otherwise the new text has the new texts in place
of the spans, in order, and between them what stood there before. -/
theorem applyAll_atOnce (text : List Char) (edits : List TextEdit) :
    (∀ before e after, edits = before ++ e :: after → (∀ a ∈ before, a.spanIn? text ≠ none) →
      e.spanIn? text = none → applyAll text edits = .error (.outOfBounds e.location)) ∧
    ((∀ e ∈ edits, e.spanIn? text ≠ none) → ¬ (placedIn text edits).Pairwise PlacedEdit.Apart →
      ∃ e ∈ edits, applyAll text edits = .error (.overlapping e.location)) ∧
    ((∀ e ∈ edits, e.spanIn? text ≠ none) → (placedIn text edits).Pairwise PlacedEdit.Apart →
      ∃ ordered, Arranges (placedIn text edits) ordered ∧
        applyAll text edits = .ok (weave text 0 ordered)) := by
  have hperm := List.mergeSort_perm (placedIn text edits) placedLe
  refine ⟨?_, ?_, ?_⟩
  · rintro before e after rfl hbefore he
    exact applyAll_error hbefore he
  · intro hfound hoverlap
    rw [applyAll_of_found hfound]
    cases hfirst : firstOverlap? ((placedIn text edits).mergeSort placedLe) with
    | none => exact absurd (firstOverlap?_placedIn.1 hfirst) hoverlap
    | some p => exact ⟨p.edit, (mem_placedIn.1 (hperm.subset (firstOverlap?_mem hfirst))).1, rfl⟩
  · intro hfound hapart
    refine ⟨_, arranges_mergeSort _, applyAll_eq_ok_iff.2 ⟨hfound, hapart, ?_⟩⟩
    have hstands : ∀ p ∈ (placedIn text edits).mergeSort placedLe, p.Stands text := fun p hp =>
      stands_of_mem_placedIn (hperm.subset hp)
    have horder := pairwise_of_firstOverlap? (firstOverlap?_placedIn.2 hapart) fun p hp => (hstands p hp).le
    have hpass := takeBytes_append_weave (Text.isBoundary_zero text) (fun _ _ => Nat.zero_le _) hstands horder
    rwa [Text.takeBytes_zero, List.nil_append] at hpass

/-- An edit out of bounds, edits that overlap without being neighbours in the list, and insertions at the end of
a span that is replaced: these keep their order. -/
theorem applyAll_atOnce_insertions :
    applyAll "one two".toList [⟨⟨"f", ⟨0, 0⟩, ⟨0, 3⟩⟩, "1"⟩, ⟨⟨"f", ⟨0, 8⟩, ⟨0, 8⟩⟩, "!"⟩] =
      .error (.outOfBounds ⟨"f", ⟨0, 8⟩, ⟨0, 8⟩⟩) ∧
    (∃ l, applyAll "one two".toList [⟨⟨"f", ⟨0, 2⟩, ⟨0, 2⟩⟩, "!"⟩, ⟨⟨"f", ⟨0, 4⟩, ⟨0, 7⟩⟩, "2"⟩,
      ⟨⟨"f", ⟨0, 0⟩, ⟨0, 3⟩⟩, "1"⟩] = .error (.overlapping l)) ∧
    ∃ placed ordered, Arranges placed ordered ∧
      (placed.map fun p => p.edit.newText) = ["!", "1", "?"] ∧
      applyAll "one two".toList [⟨⟨"f", ⟨0, 3⟩, ⟨0, 3⟩⟩, "!"⟩, ⟨⟨"f", ⟨0, 0⟩, ⟨0, 3⟩⟩, "1"⟩,
        ⟨⟨"f", ⟨0, 3⟩, ⟨0, 3⟩⟩, "?"⟩] = .ok (weave "one two".toList 0 ordered) ∧
      weave "one two".toList 0 ordered = "1!? two".toList := by
  let stray : List TextEdit := [⟨⟨"f", ⟨0, 0⟩, ⟨0, 3⟩⟩, "1"⟩, ⟨⟨"f", ⟨0, 8⟩, ⟨0, 8⟩⟩, "!"⟩]
  let overlapping : List TextEdit := [⟨⟨"f", ⟨0, 2⟩, ⟨0, 2⟩⟩, "!"⟩, ⟨⟨"f", ⟨0, 4⟩, ⟨0, 7⟩⟩, "2"⟩,
    ⟨⟨"f", ⟨0, 0⟩, ⟨0, 3⟩⟩, "1"⟩]
  let insertions : List TextEdit := [⟨⟨"f", ⟨0, 3⟩, ⟨0, 3⟩⟩, "!"⟩, ⟨⟨"f", ⟨0, 0⟩, ⟨0, 3⟩⟩, "1"⟩,
    ⟨⟨"f", ⟨0, 3⟩, ⟨0, 3⟩⟩, "?"⟩]
  refine ⟨?_, ?_, ?_⟩
  · exact (applyAll_atOnce "one two".toList stray).1 [⟨⟨"f", ⟨0, 0⟩, ⟨0, 3⟩⟩, "1"⟩] _ [] rfl
      (by decide +kernel) (by decide +kernel)
  · obtain ⟨e, -, he⟩ := (applyAll_atOnce "one two".toList overlapping).2.1 (by decide +kernel)
      (by decide +kernel)
    exact ⟨e.location, he⟩
  · obtain ⟨ordered, hordered, hnew⟩ := (applyAll_atOnce "one two".toList insertions).2.2 (by decide +kernel)
      (by decide +kernel)
    have hsort : (placedIn "one two".toList insertions).mergeSort placedLe =
        [⟨⟨0, 3⟩, insertions[1]⟩, ⟨⟨3, 3⟩, insertions[0]⟩, ⟨⟨3, 3⟩, insertions[2]⟩] := by
      have hplaced : placedIn "one two".toList insertions =
          [⟨⟨3, 3⟩, insertions[0]⟩, ⟨⟨0, 3⟩, insertions[1]⟩, ⟨⟨3, 3⟩, insertions[2]⟩] := by decide +kernel
      rw [hplaced]
      simp [List.mergeSort, placedLe]
    refine ⟨placedIn "one two".toList insertions, ordered, hordered, by decide +kernel, hnew, ?_⟩
    rw [(applyAll_eq_ok_iff.1 hnew).2.2, hsort]
    decide +kernel

/-! ## In any order -/

/-- Both edits are insertions at the same offset. -/
def SameInsertion (text : List Char) (a b : TextEdit) : Prop :=
  a.spanIn? text = b.spanIn? text ∧ (a.spanIn? text).any Span.isEmpty = true

instance (text : List Char) (a b : TextEdit) : Decidable (SameInsertion text a b) :=
  inferInstanceAs (Decidable (_ ∧ _))

theorem applyAll_succeeds_iff : (∃ new, applyAll text edits = .ok new) ↔
    (∀ e ∈ edits, e.spanIn? text ≠ none) ∧ (placedIn text edits).Pairwise PlacedEdit.Apart := by
  constructor
  · rintro ⟨new, h⟩
    obtain ⟨hfound, hapart, -⟩ := applyAll_eq_ok_iff.1 h
    exact ⟨hfound, hapart⟩
  · rintro ⟨hfound, hapart⟩
    exact ⟨_, applyAll_eq_ok_iff.2 ⟨hfound, hapart, rfl⟩⟩

/-- Edits that are apart have the same span only if they are insertions. -/
theorem placedIn_pairwise_ne (hapart : (placedIn text edits).Pairwise PlacedEdit.Apart)
    (hplaces : edits.Pairwise fun a b => ¬ SameInsertion text a b) :
    (placedIn text edits).Pairwise fun a b => a.span ≠ b.span := by
  have hplaced : (placedIn text edits).Pairwise fun a b => ¬ SameInsertion text a.edit b.edit := by
    refine List.pairwise_filterMap.2 (hplaces.imp ?_)
    intro a b hab p hp q hq
    obtain ⟨-, -, rfl⟩ := Option.map_eq_some_iff.1 hp
    obtain ⟨-, -, rfl⟩ := Option.map_eq_some_iff.1 hq
    exact hab
  refine (hapart.and hplaced).imp_of_mem ?_
  rintro a b ha hb ⟨hab, hplace⟩ hsame
  have ha' := (mem_placedIn.1 ha).2
  have hb' := (mem_placedIn.1 hb).2
  rcases Nat.lt_or_eq_of_le (stands_of_mem_placedIn ha).le with hlt | heq
  · exact hab (by rw [← hsame]; exact ⟨hlt, hlt⟩)
  · exact hplace ⟨by rw [ha', hb', hsame], by simp [ha', Span.isEmpty, heq]⟩

/-- Without insertions at the same offset, sorting leaves no choice. -/
theorem mergeSort_placedIn {edits' : List TextEdit} (h : edits.Perm edits')
    (hdistinct : (placedIn text edits').Pairwise fun a b => a.span ≠ b.span) :
    (placedIn text edits).mergeSort placedLe = (placedIn text edits').mergeSort placedLe := by
  have hperm := List.mergeSort_perm (placedIn text edits') placedLe
  have hsorted := List.pairwise_mergeSort placedLe_trans placedLe_total (placedIn text edits')
  refine mergeSort_eq_of_perm placedLe_trans placedLe_total ((h.filterMap _).trans hperm.symm) ?_
  refine (hsorted.and ((hperm.pairwise_iff Ne.symm).2 hdistinct)).imp ?_
  rintro a b ⟨hab, hne⟩
  exact ⟨hab, Bool.eq_false_iff.2 fun hba => hne (placedLe_antisymm hab hba)⟩

/-- **The order of edits does not matter.** Edits apply in one order when they apply in another, and give the
same text unless two of them are insertions at the same offset. -/
theorem applyAll_perm {edits edits' : List TextEdit} (h : edits.Perm edits') (text : List Char) :
    ((∃ new, applyAll text edits = .ok new) ↔ ∃ new, applyAll text edits' = .ok new) ∧
    ((edits.Pairwise fun a b => ¬ SameInsertion text a b) →
      ∀ new, applyAll text edits = .ok new ↔ applyAll text edits' = .ok new) := by
  have hfound : (∀ e ∈ edits, e.spanIn? text ≠ none) ↔ ∀ e ∈ edits', e.spanIn? text ≠ none :=
    forall_congr' fun e => by rw [h.mem_iff]
  have hapart : (placedIn text edits).Pairwise PlacedEdit.Apart ↔
      (placedIn text edits').Pairwise PlacedEdit.Apart :=
    (h.filterMap _).pairwise_iff PlacedEdit.Apart.symm
  refine ⟨by rw [applyAll_succeeds_iff, applyAll_succeeds_iff, hfound, hapart], fun hplaces new => ?_⟩
  have hsame (hpieces : (placedIn text edits).Pairwise PlacedEdit.Apart) :
      (placedIn text edits).mergeSort placedLe = (placedIn text edits').mergeSort placedLe :=
    mergeSort_placedIn h (((h.filterMap _).pairwise_iff Ne.symm).1 (placedIn_pairwise_ne hpieces hplaces))
  rw [applyAll_eq_ok_iff, applyAll_eq_ok_iff, hfound]
  refine and_congr_right fun _ => ?_
  rw [← hapart]
  refine and_congr_right fun hpieces => ?_
  rw [hsame hpieces]

/-- An insertion where a replaced span ends, given before or after it. -/
theorem applyAll_perm_touching : (∀ new,
    applyAll "one two".toList [⟨⟨"f", ⟨0, 3⟩, ⟨0, 3⟩⟩, "!"⟩, ⟨⟨"f", ⟨0, 0⟩, ⟨0, 3⟩⟩, "1"⟩] = .ok new ↔
    applyAll "one two".toList [⟨⟨"f", ⟨0, 0⟩, ⟨0, 3⟩⟩, "1"⟩, ⟨⟨"f", ⟨0, 3⟩, ⟨0, 3⟩⟩, "!"⟩] = .ok new) ∧
    ∃ new, applyAll "one two".toList [⟨⟨"f", ⟨0, 3⟩, ⟨0, 3⟩⟩, "!"⟩, ⟨⟨"f", ⟨0, 0⟩, ⟨0, 3⟩⟩, "1"⟩] = .ok new := by
  refine ⟨(applyAll_perm (List.Perm.swap _ _ []) "one two".toList).2 (by decide +kernel), ?_⟩
  exact applyAll_succeeds_iff.2 ⟨by decide +kernel, by decide +kernel⟩

end TextEdit

end ServiceLint
