import ServiceLint.Proofs.Lint.Contract
import ServiceLint.Proofs.Text.Trim

/-!
# Types of parameters

The qualifier of a type ends at its first colon, and its name starts after the last one. Both are cut off a type that
spells one qualified name. In a type with more colons they need not belong together: what stands between the first
colon and the last one counts for nothing (`Param.hasType_iff_spells`).
-/
namespace ServiceLint

namespace Param

variable {p : Param} {q e : String}

/-- The last member of the type, without white space around it and without the mark of an optional type. -/
def bareType (p : Param) : List Char :=
  Text.trim (Text.dropEndWhile (· == '?') (lastMember p.typeText.toList))

/-- The type is the qualifier, a colon and the name. White space may stand around the colon. -/
def Spells (p : Param) (q e : String) : Prop :=
  ∃ l r, (∀ c ∈ l, Text.isWhiteSpace c = true) ∧ (∀ c ∈ r, Text.isWhiteSpace c = true) ∧
    p.bareType = q.toList ++ l ++ ':' :: (r ++ e.toList)

/-- The type starts with the qualifier and a colon, and it ends in another colon and the name. -/
def SpellsAcross (p : Param) (q e : String) : Prop :=
  ∃ l between r, (∀ c ∈ l, Text.isWhiteSpace c = true) ∧ (∀ c ∈ r, Text.isWhiteSpace c = true) ∧
    p.bareType = q.toList ++ l ++ ':' :: (between ++ ':' :: (r ++ e.toList))

/-- What is left out at the end of the last member is white space and marks. -/
theorem exists_lastMember (p : Param) : ∃ r marks,
    Text.dropEndWhile (· == '?') (lastMember p.typeText.toList) = p.bareType ++ r ∧
    lastMember p.typeText.toList = p.bareType ++ r ++ marks ∧
    (∀ c ∈ r, Text.isWhiteSpace c = true) ∧ ':' ∉ r ∧ ':' ∉ marks := by
  have htrimmed : (lastMember p.typeText.toList).dropWhile Text.isWhiteSpace = lastMember p.typeText.toList :=
    Text.dropWhile_trim _
  obtain ⟨marks, hmarks, hall⟩ := Text.exists_of_dropEndWhile (· == '?') (lastMember p.typeText.toList)
  have hbare : p.bareType = Text.trimEnd (Text.dropEndWhile (· == '?') (lastMember p.typeText.toList)) := by
    rw [bareType, Text.trim, Text.dropWhile_of_prefix ⟨marks, hmarks.symm⟩ htrimmed]
  obtain ⟨r, hr, hblank⟩ := Text.exists_blank_of_trimEnd _
  rw [← hbare] at hr
  refine ⟨r, marks, hr, by rw [← hr, ← hmarks], hblank, Text.notMem_of_blank (by decide) hblank, fun hmem => ?_⟩
  exact absurd (hall _ hmem) (by decide)

/-- The qualifier is what the type starts with. -/
theorem typeQualifier_eq_some_iff (hq : IsNameText q.toList) :
    p.typeQualifier = some q ↔
      ∃ l rest, (∀ c ∈ l, Text.isWhiteSpace c = true) ∧ p.bareType = q.toList ++ l ++ ':' :: rest := by
  obtain ⟨r, marks, -, hlast, -, hr, hmarks⟩ := p.exists_lastMember
  constructor
  · intro h
    obtain ⟨front, hfront, htrim⟩ := Option.map_eq_some_iff.1 h
    obtain ⟨-, rest, hrest⟩ := Text.beforeFirst?_eq_some hfront
    rw [hlast, List.append_assoc] at hrest
    obtain ⟨mid, hbare, -⟩ := Text.append_eq_append_cons hrest (by simp [hr, hmarks])
    obtain ⟨l', l, hsplit, hl', hl⟩ := Text.exists_blank_of_trim front
    rw [show Text.trim front = q.toList by rw [← htrim, String.toList_ofList]] at hsplit
    -- the type does not start with white space
    cases l' with
    | nil => exact ⟨l, mid, hl, by simpa [hsplit] using hbare⟩
    | cons c l' =>
      have hstart := Text.dropWhile_trim (Text.dropEndWhile (· == '?') (lastMember p.typeText.toList))
      rw [← bareType, hbare, hsplit] at hstart
      exact absurd (hl' c List.mem_cons_self) (by simp [dropWhile_cons_neg hstart])
  · rintro ⟨l, rest, hl, hbare⟩
    have hcolon : ':' ∉ q.toList ++ l := by
      rw [List.mem_append, not_or]
      exact ⟨hq.notMem (by decide) (by decide), Text.notMem_of_blank (by decide) hl⟩
    have htrim : Text.trim (q.toList ++ l) = q.toList :=
      Text.trim_append_word (l := []) (by simp) hq.ne_nil hq.not_whiteSpace hl
    have hsplit : lastMember p.typeText.toList = (q.toList ++ l) ++ ':' :: (rest ++ r ++ marks) := by
      rw [hlast, hbare]
      simp
    rw [typeQualifier, hsplit, Text.beforeFirst?_append hcolon, Option.map_some, htrim, String.ofList_toList]

/-- The name of a qualified type is what the type ends in. -/
theorem typeName_eq_iff (he : IsNameText e.toList) (hcolon : ':' ∈ p.bareType) :
    p.typeName = e ↔
      ∃ front r, (∀ c ∈ r, Text.isWhiteSpace c = true) ∧ p.bareType = front ++ ':' :: (r ++ e.toList) := by
  obtain ⟨w, -, hdrop, -, hw, hwcolon, -⟩ := p.exists_lastMember
  rw [typeName, hdrop]
  constructor
  · intro h
    obtain ⟨-, front, hfront⟩ := Text.exists_afterLast (List.mem_append_left w hcolon)
    obtain ⟨r, r', hsplit, hr, hr'⟩ := Text.exists_blank_of_trim (Text.afterLast ':' (p.bareType ++ w))
    rw [show Text.trim (Text.afterLast ':' (p.bareType ++ w)) = e.toList by rw [← h, String.toList_ofList]] at hsplit
    rw [hsplit] at hfront
    refine ⟨front, r, hr, ?_⟩
    calc p.bareType = Text.trimEnd (p.bareType ++ w) := by
          rw [Text.trimEnd_append_blank _ hw, bareType, Text.trimEnd_trim]
      _ = Text.trimEnd (front ++ ':' :: r ++ e.toList ++ r') := by
          rw [hfront]
          simp
      _ = front ++ ':' :: r ++ e.toList := by
          rw [Text.trimEnd_append_blank _ hr', Text.trimEnd_append_word _ he.ne_nil he.not_whiteSpace]
      _ = front ++ ':' :: (r ++ e.toList) := by simp
  · rintro ⟨front, r, hr, hbare⟩
    have hfree : ':' ∉ r ++ e.toList ++ w := by
      rw [List.mem_append, List.mem_append, not_or, not_or]
      exact ⟨⟨Text.notMem_of_blank (by decide) hr, he.notMem (by decide) (by decide)⟩, hwcolon⟩
    have hsplit : p.bareType ++ w = front ++ ':' :: (r ++ e.toList ++ w) := by
      rw [hbare]
      simp
    rw [hsplit, Text.afterLast_append hfree, Text.trim_append_word hr he.ne_nil he.not_whiteSpace hw,
      String.ofList_toList]

/-- A type that spells a qualified name has one colon. -/
theorem Spells.count (h : p.Spells q e) (hq : IsNameText q.toList) (he : IsNameText e.toList) :
    p.bareType.count ':' = 1 := by
  obtain ⟨l, r, hl, hr, hbare⟩ := h
  have hqcolon : ':' ∉ q.toList := hq.notMem (by decide) (by decide)
  have hecolon : ':' ∉ e.toList := he.notMem (by decide) (by decide)
  have hlcolon : ':' ∉ l := Text.notMem_of_blank (by decide) hl
  have hrcolon : ':' ∉ r := Text.notMem_of_blank (by decide) hr
  rw [hbare]
  simp [List.count_append, List.count_eq_zero_of_not_mem, hqcolon, hecolon, hlcolon, hrcolon]

/-- A parameter has an expected type exactly when its type starts with the qualifier and a colon and ends in a colon
and the name. Only when the type has no other colon does it spell the qualified name. -/
theorem hasType_iff_spells (hq : IsNameText q.toList) (he : IsNameText e.toList) :
    (p.hasType q e = true ↔ p.Spells q e ∨ p.SpellsAcross q e) ∧
      (p.hasType q e = true → (p.Spells q e ↔ p.bareType.count ':' = 1)) := by
  have hiff : p.hasType q e = true ↔ p.Spells q e ∨ p.SpellsAcross q e := by
    rw [hasType_iff, typeQualifier_eq_some_iff hq]
    constructor
    · rintro ⟨hname, l, rest, hl, hstart⟩
      obtain ⟨front, r, hr, hend⟩ := (typeName_eq_iff he (by simp [hstart])).1 hname
      have hfree : ':' ∉ r ++ e.toList := by
        rw [List.mem_append, not_or]
        exact ⟨Text.notMem_of_blank (by decide) hr, he.notMem (by decide) (by decide)⟩
      have hboth : (front ++ [':']) ++ (r ++ e.toList) = (q.toList ++ l) ++ ':' :: rest := by
        rw [← hstart, hend]
        simp
      -- the last colon is the first one, or it comes after it
      obtain ⟨mid, hmid, rfl⟩ := Text.append_eq_append_cons hboth hfree
      obtain rfl | ⟨between, c, rfl⟩ := List.eq_nil_or_concat' mid
      · exact Or.inl ⟨l, r, hl, hr, by simpa using hstart⟩
      · rw [← List.cons_append, ← List.append_assoc] at hmid
        obtain ⟨-, hc⟩ := List.append_inj' hmid rfl
        obtain rfl : ':' = c := List.head_eq_of_cons_eq hc
        exact Or.inr ⟨l, between, r, hl, hr, by simpa using hstart⟩
    · rintro (⟨l, r, hl, hr, hbare⟩ | ⟨l, between, r, hl, hr, hbare⟩)
      · exact ⟨(typeName_eq_iff he (by simp [hbare])).2 ⟨_, r, hr, hbare⟩, l, _, hl, hbare⟩
      · have hend : p.bareType = q.toList ++ l ++ ':' :: between ++ ':' :: (r ++ e.toList) := by
          rw [hbare]
          simp
        exact ⟨(typeName_eq_iff he (by simp [hbare])).2 ⟨_, r, hr, hend⟩, l, _, hl, hbare⟩
  refine ⟨hiff, fun htype => ⟨fun h => h.count hq he, fun hcount => ?_⟩⟩
  rcases hiff.1 htype with h | ⟨l, between, r, -, -, hbare⟩
  · exact h
  · rw [hbare] at hcount
    simp only [List.count_append, List.count_cons_self] at hcount
    omega

/-- A type that spells the qualified name, and a union that passes for it. -/
theorem hasType_iff_spells_two : ∃ p p' : Param,
    p.typeText = "readonly & mqtt : Message ?" ∧ p'.typeText = "mqtt:Caller|http:Message" ∧
    IsNameText "mqtt".toList ∧ IsNameText "Message".toList ∧
    p.hasType "mqtt" "Message" = true ∧ p.Spells "mqtt" "Message" ∧
    p'.hasType "mqtt" "Message" = true ∧ ¬ p'.Spells "mqtt" "Message" ∧ p'.SpellsAcross "mqtt" "Message" := by
  let p : Param := ⟨"readonly & mqtt : Message ?", "m", ⟨0, 29⟩, false⟩
  let p' : Param := ⟨"mqtt:Caller|http:Message", "m", ⟨0, 26⟩, false⟩
  have hq : IsNameText "mqtt".toList := Or.inl (by decide +kernel)
  have he : IsNameText "Message".toList := Or.inl (by decide +kernel)
  have htype : p.hasType "mqtt" "Message" = true := by decide +kernel
  have htype' : p'.hasType "mqtt" "Message" = true := by decide +kernel
  obtain ⟨-, hone⟩ := hasType_iff_spells (p := p) hq he
  obtain ⟨hiff, htwo⟩ := hasType_iff_spells (p := p') hq he
  have hspells : ¬ p'.Spells "mqtt" "Message" := fun h => absurd ((htwo htype').1 h) (by decide +kernel)
  exact ⟨p, p', rfl, rfl, hq, he, htype, (hone htype).2 (by decide +kernel), htype', hspells,
    (hiff.1 htype').resolve_left hspells⟩

end Param

/-- A function that wants a message takes a union of two other types, and nothing is said about the file. -/
theorem validate_union : ∃ text file s m p,
    text = "import ballerina/mqtt;service on new mqtt:Listener()".toList ++
      "\x7bremote function onMessage(mqtt:Caller|http:Message m)\x7b\x7d\x7d".toList ∧
    SourceFile.parse "main.bal" text = .ok file ∧ s ∈ file.module.services ∧ m ∈ s.remoteMethods ∧
    m.name = "onMessage" ∧ m.params = [p] ∧ p.typeText = "mqtt:Caller|http:Message" ∧
    IsNameText "mqtt".toList ∧ IsNameText "Message".toList ∧ p.hasType "mqtt" "Message" = true ∧
    ¬ p.Spells "mqtt" "Message" ∧ validate file {} = [] := by
  generalize htext : "import ballerina/mqtt;service on new mqtt:Listener()".toList ++
      "\x7bremote function onMessage(mqtt:Caller|http:Message m)\x7b\x7d\x7d".toList = text
  have hchars : text = _ ++ _ := htext.symm.trans (congrArg₂ _ String.toList_ofList String.toList_ofList)
  -- sorting is left out of what is computed
  have hcheck : ((SourceFile.parse "main.bal" text).toOption.bind fun file => (Binding.resolve file {}).bind fun b =>
      file.module.services.head?.bind fun s => s.remoteMethods.head?.bind fun m => m.params.head?.map fun p =>
        decide (m.name = "onMessage" ∧ m.params = [p] ∧ p.typeText = "mqtt:Caller|http:Message" ∧
          p.hasType "mqtt" "Message" = true ∧ p.bareType.count ':' = 2 ∧
          b.services.flatMap b.orderedDiagnostics = [])) = some true := by
    rw [hchars]
    decide +kernel
  have hsize : Text.size text < UInt32.size := by
    rw [hchars]
    decide +kernel
  obtain ⟨file, hfile, hcheck⟩ := Option.bind_eq_some_iff.1 hcheck
  obtain ⟨b, hb, hcheck⟩ := Option.bind_eq_some_iff.1 hcheck
  obtain ⟨s, hs, hcheck⟩ := Option.bind_eq_some_iff.1 hcheck
  obtain ⟨m, hm, hcheck⟩ := Option.bind_eq_some_iff.1 hcheck
  obtain ⟨p, -, hcheck⟩ := Option.map_eq_some_iff.1 hcheck
  obtain ⟨hname, hparams, htypeText, htype, hcount, hnothing⟩ := of_decide_eq_true hcheck
  have hparse := eq_ok_of_toOption hfile
  have hq : IsNameText "mqtt".toList := Or.inl (by decide +kernel)
  have he : IsNameText "Message".toList := Or.inl (by decide +kernel)
  refine ⟨text, file, s, m, p, rfl, hparse, List.mem_of_mem_head? hs, List.mem_of_mem_head? hm, hname, hparams,
    htypeText, hq, he, htype, fun hspells => ?_, ?_⟩
  · rw [hspells.count hq he] at hcount
    cases hcount
  · rw [validate_eq hparse hsize hb]
    exact hnothing

end ServiceLint
