import ServiceLint.Config.Load
import ServiceLint.Proofs.Lint.Contract

/-!
# Parameters against the contract

A function of the contract is compared with the parameters of a function by their number first, and then type by type
as far as both lists go. The least number counts the required parameters wherever they stand. What this amounts to is
a comparison with the first parameters of the contract, up to the last required one or further
(`MethodSpec.mismatch?_eq_none_iff_segment`). It needs a contract in which no required parameter follows an optional
one, which every configuration that is read from a file has (`Config.issue?_of_ofFile`).
-/
namespace ServiceLint

/-- A configuration that is read from a file has no issue. -/
theorem Config.issue?_of_ofFile [ConfigReaders] {path : Path} {text : List Char} {config : Config}
    (h : Config.ofFile path text = .ok config) : config.issue? = none := by
  unfold Config.ofFile at h
  split at h
  · cases h
  · split at h
    · cases h
    · split at h
      · cases h
      · next hissue =>
        cases h
        exact hissue

/-- Every function of a configuration without issues has its optional parameters last. -/
theorem Config.optionalTrail_of_mem {config : Config} (h : config.issue? = none) {spec : MethodSpec}
    (hspec : spec ∈ config.contract.methods) : spec.optionalTrail = true :=
  ((Contract.firstIssue_eq_none.1 (Config.contract_issue? h)).1 spec hspec).2.2

namespace MethodSpec

variable {spec : MethodSpec} {q : String} {ps : List Param}

/-- Every required parameter of the function is one of its first `n` parameters. -/
def RequiredAmongFirst (spec : MethodSpec) (n : Nat) : Prop :=
  ∀ i t, spec.params[i]? = some t → t.optional = false → i < n

/-- The required parameters are among the first ones exactly when those after them are optional. -/
theorem requiredAmongFirst_iff {n : Nat} :
    spec.RequiredAmongFirst n ↔ ∀ t ∈ spec.params.drop n, t.optional = true := by
  constructor
  · intro h t ht
    obtain ⟨j, hj⟩ := List.mem_iff_getElem?.1 ht
    rw [List.getElem?_drop] at hj
    by_contra hrequired
    have := h (n + j) t hj (by simpa using hrequired)
    omega
  · intro h i t hi hrequired
    by_contra hle
    have hmem : t ∈ spec.params.drop n := by
      refine List.mem_iff_getElem?.2 ⟨i - n, ?_⟩
      rw [List.getElem?_drop, Nat.add_sub_cancel' (Nat.le_of_not_lt hle), hi]
    rw [h t hmem] at hrequired
    cases hrequired

/-- In a function that accepts parameters, those that are left are the ones after as many. -/
theorem Accepts.drop (h : spec.Accepts q ps) : ∀ t ∈ spec.params.drop ps.length, t.optional = true := by
  obtain ⟨taken, left, hparams, htypes, hleft⟩ := h
  rwa [hparams, htypes.length_eq, List.drop_left]

theorem accepts_iff_segment :
    spec.Accepts q ps ↔ ∃ segment, segment <+: spec.params ∧ spec.RequiredAmongFirst segment.length ∧
      List.Forall₂ (fun p t => p.hasType q t.typeName = true) ps segment := by
  simp only [Param.hasType_iff]
  constructor
  · rintro ⟨taken, left, hparams, htypes, hleft⟩
    refine ⟨taken, ⟨left, hparams.symm⟩, requiredAmongFirst_iff.2 ?_, htypes⟩
    rwa [hparams, List.drop_left]
  · rintro ⟨segment, ⟨left, hparams⟩, hrequired, htypes⟩
    rw [requiredAmongFirst_iff, ← hparams, List.drop_left] at hrequired
    exact ⟨segment, left, hparams.symm, htypes, hrequired⟩

/-- Parameters are judged against the first ones of the contract: they have no mismatch exactly when they match, one by
one, an initial segment that holds every required parameter. Only optional parameters are left out then. -/
theorem mismatch?_eq_none_iff_segment {config : Config} (h : config.issue? = none)
    (hspec : spec ∈ config.contract.methods) (q : String) (ps : List Param) :
    (spec.mismatch? q ps = none ↔ ∃ segment, segment <+: spec.params ∧ spec.RequiredAmongFirst segment.length ∧
      List.Forall₂ (fun p t => p.hasType q t.typeName = true) ps segment) ∧
    (spec.mismatch? q ps = none → ∀ t ∈ spec.params.drop ps.length, t.optional = true) := by
  have hiff : spec.mismatch? q ps = none ↔ spec.Accepts q ps :=
    mismatch?_eq_none_iff (Config.optionalTrail_of_mem h hspec)
  exact ⟨hiff.trans accepts_iff_segment, fun hnone => (hiff.1 hnone).drop⟩

/-- Two parameters against two required ones and an optional one, in a contract that is read from a file. -/
theorem mismatch?_eq_none_iff_segment_two : ∃ text config spec ps,
    text = "\x7b\"contract\":\x7b\"required\":[\x7b\"name\":\"f\",\"params\":[".toList ++
      "\x7b\"type\":\"A\"\x7d,\x7b\"type\":\"B\"\x7d,\x7b\"type\":\"C\",\"optional\":true\x7d]\x7d]\x7d\x7d".toList ∧
    Config.ofFile ⟨"c.json"⟩ text = .ok config ∧ config.issue? = none ∧ spec ∈ config.contract.methods ∧
    spec.params.map (·.typeName) = ["A", "B", "C"] ∧ ps.map (·.typeText) = ["m:A", "readonly & m:B"] ∧
    spec.mismatch? "m" ps = none ∧ (∃ segment, segment <+: spec.params ∧
      spec.RequiredAmongFirst segment.length ∧
      List.Forall₂ (fun p t => p.hasType "m" t.typeName = true) ps segment) ∧
    ∀ t ∈ spec.params.drop ps.length, t.optional = true := by
  generalize htext : "\x7b\"contract\":\x7b\"required\":[\x7b\"name\":\"f\",\"params\":[".toList ++
    "\x7b\"type\":\"A\"\x7d,\x7b\"type\":\"B\"\x7d,\x7b\"type\":\"C\",\"optional\":true\x7d]\x7d]\x7d\x7d".toList = text
  have hchars : text = _ ++ _ := htext.symm.trans (congrArg₂ _ String.toList_ofList String.toList_ofList)
  let ps : List Param := [⟨"m:A", "a", ⟨0, 5⟩, false⟩, ⟨"readonly & m:B", "b", ⟨6, 22⟩, false⟩]
  have hcheck : ((Config.ofFile ⟨"c.json"⟩ text).toOption.bind fun config => config.contract.methods.head?.map
      fun spec => decide (spec.params.map (·.typeName) = ["A", "B", "C"] ∧ spec.mismatch? "m" ps = none)) =
      some true := by
    rw [hchars]
    decide +kernel
  obtain ⟨config, hconfig, hcheck⟩ := Option.bind_eq_some_iff.1 hcheck
  obtain ⟨spec, hspec, hcheck⟩ := Option.map_eq_some_iff.1 hcheck
  obtain ⟨htypes, hnone⟩ := of_decide_eq_true hcheck
  have hread := eq_ok_of_toOption hconfig
  have hissue := Config.issue?_of_ofFile hread
  have hmem := List.mem_of_mem_head? hspec
  obtain ⟨hiff, hleft⟩ := mismatch?_eq_none_iff_segment hissue hmem "m" ps
  exact ⟨text, config, spec, ps, rfl, hread, hissue, hmem, htypes, rfl, hnone, hiff.1 hnone, hleft hnone⟩

/-- Without the check a required parameter may be left out: the least number counts the one that stands last, and the
types are compared with those that stand first. -/
example : mismatch? ⟨"f", [⟨"A", true⟩, ⟨"B", false⟩]⟩ "m" [⟨"m:A", "a", ⟨0, 5⟩, false⟩] = none := by
  decide +kernel

end MethodSpec

end ServiceLint
