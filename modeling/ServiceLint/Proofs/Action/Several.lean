import ServiceLint.Proofs.Action.Insertion

/-!
# Several insertions

Edits that add members to several services are all made for the text as it was, and applied from the last
one to the first. Each of them finds the text before it unchanged, so it adds its member as if it were the
only one (`Module.parse_applyPlaced`). The induction is on the declarations from the last one on; what it
carries is that everything before the edits made so far is still there.
-/
namespace ServiceLint

structure PlacedEdit.Adds (text : List Char) (s : Service) (new : Member) (e : PlacedEdit) : Prop where
  span : e.span = s.anchor
  newText : ∃ ending column ps, IsLineEnding ending ∧ ReadsMember ps new ∧
    e.edit.newText.toList = s.withMember text ending column (written ps)

/-- A service without its spans, and with the member that is added to it. -/
def Service.withAdded (add : Service → Option (PlacedEdit × Member)) (s : Service) : Service :=
  match add s with
  | none => s.bare
  | some (_, new) => s.bare.push new

def Decl.withAdded (add : Service → Option (PlacedEdit × Member)) : Decl → Decl
  | .serviceDecl s => .serviceDecl (s.withAdded add)
  | d => d.bare

/-- The edits for the services among the declarations. -/
def addedEdits (add : Service → Option (PlacedEdit × Member)) (ds : List Decl) : List PlacedEdit :=
  (Module.mk ds).services.filterMap fun s => (add s).map Prod.fst

/-- A replacement is the same for a text that is changed after the service. -/
theorem Service.withMember_common {a v v' : List Char} {s : Service} (h : s.WellLaid (a ++ v))
    (hspan : s.span.Fits (a ++ v) 0 (Text.size (a ++ v))) (hstop : s.span.stop ≤ Text.size a)
    (ending : List Char) (column : Nat) (rendered : List Char) :
    s.withMember (a ++ v') ending column rendered = s.withMember (a ++ v) ending column rendered := by
  have hanchor := Service.anchor_fits h (hspan.mono (Nat.le_refl _) (Nat.le_refl _))
  have h₁ := h.openBrace.lo_le
  have h₂ := h.openBrace.lt
  have h₃ := h.openBrace.le_hi
  have h₄ := h.closeBrace.lt
  have h₅ := h.closeBrace.le_hi
  have h₆ := Service.anchor_stop_le h hspan
  unfold Service.withMember
  rw [Text.slice_common (c := v') hspan.start.isBoundary (by omega) (by omega),
    Text.slice_common (c := v') h.openBrace.stop.isBoundary h₃ (by omega),
    Text.slice_common (c := v') hanchor.start.isBoundary (Nat.le_of_lt hanchor.lt) (by omega)]

/-- After the edits for the declarations `ds₂`, which start at `lo` or later, the text declares `ds₁` and then
`ds₂` with what is added to them. Everything before `lo` is still there. -/
def EditedFrom (text : List Char) (add : Service → Option (PlacedEdit × Member)) (lo : Nat)
    (ds₁ ds₂ : List Decl) : Prop :=
  (∃ ds₂', Module.parse (TextEdit.applyPlaced text (addedEdits add ds₂)) = .ok ⟨ds₁ ++ ds₂'⟩ ∧
    ds₂'.map Decl.bare = ds₂.map (Decl.withAdded add)) ∧
  ∃ a v v', text = a ++ v ∧ TextEdit.applyPlaced text (addedEdits add ds₂) = a ++ v' ∧ lo ≤ Text.size a

section

variable {text : List Char} {add : Service → Option (PlacedEdit × Member)} {lo : Nat} {ds₁ ds : List Decl}

/-- A declaration that is not edited stays as it is. -/
theorem EditedFrom.keep {d : Decl} (h : EditedFrom text add d.span.stop (ds₁ ++ [d]) ds)
    (hlo : lo ≤ d.span.stop) (hedits : addedEdits add (d :: ds) = addedEdits add ds)
    (hsame : d.withAdded add = d.bare) : EditedFrom text add lo ds₁ (d :: ds) := by
  obtain ⟨⟨ds', hparse, hbare⟩, a, v, v', htext, hnew, hle⟩ := h
  refine ⟨⟨d :: ds', ?_, ?_⟩, a, v, v', htext, ?_, Nat.le_trans hlo hle⟩
  · rw [hedits, hparse, List.append_assoc]
    rfl
  · rw [List.map_cons, List.map_cons, hbare, hsame]
  · rw [hedits, hnew]

/-- A service that is edited has a further member. -/
theorem EditedFrom.insert {s : Service} {e : PlacedEdit} {new : Member}
    (h : EditedFrom text add s.span.stop (ds₁ ++ [.serviceDecl s]) ds) (hs : s.WellLaid text)
    (hspan : s.span.Fits text lo (Text.size text)) (hadd : add s = some (e, new)) (he : e.Adds text s new) :
    EditedFrom text add lo ds₁ (.serviceDecl s :: ds) := by
  obtain ⟨⟨ds', hparse, hbare⟩, a, v, v', htext, hnew, hle⟩ := h
  obtain ⟨hespan, ending, column, ps, hending, hps, hetext⟩ := he
  have hedits : TextEdit.applyPlaced text (addedEdits add (.serviceDecl s :: ds)) =
      TextEdit.splice (TextEdit.applyPlaced text (addedEdits add ds)) s.anchor
        (s.withMember text ending column (written ps)) := by
    simp [addedEdits, Module.services, hadd, TextEdit.applyPlaced, hespan, hetext]
  rw [List.append_assoc] at hparse
  obtain ⟨g, s', hparse', -, hs'⟩ := Module.parse_splice hparse hps hending column
  -- the text up to the end of the service is still the same
  have hsame : s.withMember (TextEdit.applyPlaced text (addedEdits add ds)) ending column (written ps) =
      s.withMember text ending column (written ps) := by
    rw [hnew, htext]
    rw [htext] at hs hspan
    exact Service.withMember_common hs (hspan.mono (Nat.zero_le _) (Nat.le_refl _)) hle _ _ _
  rw [hsame, ← hedits] at hparse'
  refine ⟨⟨_, hparse', ?_⟩, ?_⟩
  · have hservice : (Decl.serviceDecl s').bare = .serviceDecl s'.bare := rfl
    rw [List.map_cons, List.map_cons, hservice, hs', List.map_map, ← hbare]
    simp [Function.comp_def, Decl.withAdded, Service.withAdded, hadd]
  · have hstart : s.span.start ≤ Text.size a := Nat.le_trans (Nat.le_of_lt hspan.lt) hle
    have hfront : Text.takeBytes s.span.start (TextEdit.applyPlaced text (addedEdits add ds)) =
        Text.takeBytes s.span.start text := by
      rw [hnew, htext, Text.takeBytes_append_of_le v' hstart, Text.takeBytes_append_of_le v hstart]
    rw [hedits, TextEdit.splice, s.anchor_start, hfront, List.append_assoc]
    refine ⟨_, _, _, (Text.takeBytes_append_dropBytes s.span.start text).symm, rfl, ?_⟩
    rw [Text.size_takeBytes hspan.start.isBoundary]
    exact hspan.lo_le

/-- Edits for the last declarations of a module are made, and nothing before those declarations changes. -/
theorem editedFrom_suffix (hadd : ∀ s e new, add s = some (e, new) → e.Adds text s new)
    (h : Module.parse text = .ok ⟨ds₁ ++ ds⟩)
    (hin : InOrder text lo (ds.map (·.span)) (Text.size text)) : EditedFrom text add lo ds₁ ds := by
  induction ds generalizing ds₁ lo with
  | nil =>
    have hnone : TextEdit.applyPlaced text (addedEdits add []) = text := rfl
    exact ⟨⟨[], by rw [hnone, h], rfl⟩, text, [], [], by simp, by simp [hnone], hin⟩
  | cons d ds ih =>
    obtain ⟨hfit, hrest⟩ := hin
    have hsplit : Module.parse text = .ok ⟨(ds₁ ++ [d]) ++ ds⟩ := by rw [h, List.append_assoc]; rfl
    have hlater := ih hsplit hrest
    have hlo : lo ≤ d.span.stop := Nat.le_trans hfit.lo_le (Nat.le_of_lt hfit.lt)
    cases d with
    | importDecl d => exact hlater.keep hlo rfl rfl
    | listenerDecl d => exact hlater.keep hlo rfl rfl
    | serviceDecl s =>
      cases hs : add s with
      | none =>
        refine hlater.keep hlo ?_ ?_
        · simp [addedEdits, Module.services, hs]
        · simp [Decl.withAdded, Service.withAdded, hs, Decl.bare, Decl.map, Service.bare]
      | some p =>
        have hwell : s.WellLaid text := (Module.parse_laid h).2 (.serviceDecl s) (by simp)
        exact hlater.insert hwell (hfit.mono (Nat.le_refl _) hrest.le) hs (hadd s p.1 p.2 hs)

/-- Edits that add members to services of a module are made together as each of them is made alone. -/
theorem Module.parse_applyPlaced (hadd : ∀ s e new, add s = some (e, new) → e.Adds text s new)
    (h : Module.parse text = .ok ⟨ds⟩) :
    ∃ ds', Module.parse (TextEdit.applyPlaced text (addedEdits add ds)) = .ok ⟨ds'⟩ ∧
      ds'.map Decl.bare = ds.map (Decl.withAdded add) := by
  have hall : EditedFrom text add 0 [] ds := editedFrom_suffix hadd h (Module.parse_laid h).1
  exact hall.1

end

end ServiceLint
