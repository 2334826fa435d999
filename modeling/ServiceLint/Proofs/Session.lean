import ServiceLint.Session

/-!
# Steps that fail

A step that fails leaves the session as it was, except that applying drops the waiting edits either way
(`Session.step_of_error`). So a run of steps comes to the same session without those that fail
(`Session.play_settled`). What a run never touches are the templates (`Session.play_store`).
-/
namespace ServiceLint.Session

variable [Similarity] {s after : Session} {st : Step}

/-- Applying drops the waiting edits, also when it fails. -/
def Step.drops : Step → Bool
  | .apply => true
  | _ => false

theorem step_of_error {e : StepError} (h : s.run st = .error e) :
    s.step st = (if st.drops then { s with pending := [] } else s, .error e) := by
  unfold step
  rw [h]
  cases st <;> rfl

theorem step_of_ok {r : Reply} (h : s.run st = .ok (after, r)) :
    s.step st = (if st.drops then { after with pending := [] } else after, .ok r) := by
  unfold step
  rw [h]
  cases st <;> rfl

theorem run_store {r : Reply} (h : s.run st = .ok (after, r)) : after.store = s.store := by
  cases st with
  | validate =>
    obtain ⟨file, -, h⟩ := Parse.bind_eq_ok.1 h
    cases h
    rfl
  | offerAt p =>
    obtain ⟨file, -, h⟩ := Parse.bind_eq_ok.1 h
    cases h
    rfl
  | offerAll =>
    obtain ⟨file, -, h⟩ := Parse.bind_eq_ok.1 h
    cases h
    rfl
  | execute index =>
    unfold run at h
    dsimp only at h
    split at h
    · obtain ⟨file, -, h⟩ := Parse.bind_eq_ok.1 h
      obtain ⟨made, -, h⟩ := Parse.bind_eq_ok.1 h
      cases h
      rfl
    · cases h
  | apply =>
    obtain ⟨text, -, h⟩ := Parse.bind_eq_ok.1 h
    cases h
    rfl
  | edit edits =>
    obtain ⟨text, -, h⟩ := Parse.bind_eq_ok.1 h
    cases h
    rfl
  | setText text => cases h; rfl
  | rename name => cases h; rfl
  | setConfig config => cases h; rfl

theorem step_store (s : Session) (st : Step) : (s.step st).1.store = s.store := by
  cases hrun : s.run st with
  | error e =>
    rw [step_of_error hrun]
    split <;> rfl
  | ok r =>
    rw [step_of_ok hrun]
    have hstore := run_store hrun
    split <;> exact hstore

/-! ## Runs -/

/-- The session after some steps. -/
def play (s : Session) (steps : List Step) : Session := steps.foldl (fun s st => (s.step st).1) s

/-- The steps without those that fail, each as it comes to in the session before it. Applying stays. -/
def settled (s : Session) : List Step → List Step
  | [] => []
  | st :: steps =>
    let rest := (s.step st).1.settled steps
    if (s.step st).2.isOk || st.drops then st :: rest else rest

/-- Steps that fail can be left out of a run. -/
theorem play_settled (s : Session) (steps : List Step) : s.play (s.settled steps) = s.play steps := by
  induction steps generalizing s with
  | nil => rfl
  | cons st steps ih =>
    have hnext := ih (s.step st).1
    simp only [settled]
    split
    · exact hnext
    · next hfails =>
      -- the session before the step is the one after it
      have hsame : (s.step st).1 = s := by
        cases hrun : s.run st with
        | error e =>
          rw [step_of_error hrun] at hfails ⊢
          simp only [Except.isOk, Except.toBool, Bool.false_or] at hfails
          exact if_neg hfails
        | ok r =>
          rw [step_of_ok hrun] at hfails
          exact absurd rfl hfails
      rw [hsame] at hnext ⊢
      rw [hnext]
      exact congrArg (play · steps) hsame.symm

/-- The templates of a session stay as they are. -/
theorem play_store (s : Session) (steps : List Step) : (s.play steps).store = s.store := by
  induction steps generalizing s with
  | nil => rfl
  | cons st steps ih => exact (ih (s.step st).1).trans (s.step_store st)

end ServiceLint.Session
