import ServiceLint.Proofs.Source.Parse.Build
import ServiceLint.Proofs.Source.Parse.Faults

/-!
# Progress

The cursor of the parser is a place in the list of tokens, and what a routine leaves is what stands from the cursor on.
No routine goes back or past the end (`Routine.left_within`). A loop of the parser is taken apart into its iterations:
each one that goes on passes over at least one token (`Loop.Advances`), so a run of the loop has at most as many of them
as it passes over tokens (`Loop.Goes.le`), and it ends as the routine does that is made of the loop (`Loop.ends`).
-/
namespace ServiceLint.Parse

/-! ## Loops -/

/-- A loop that passes over tokens. Its state holds the tokens that are left. An iteration fails, goes on in another
state, or returns and leaves tokens. What a loop collects on its way has no part in where it stands. -/
structure Loop (σ : Type) where
  left : σ → List Token
  step : σ → Except Failure (σ ⊕ List Token)

namespace Loop

variable {σ : Type} {l : Loop σ} {f : σ → Except Failure (List Token)} {s s' : σ} {n : Nat}

/-- The second state is reached from the first by `n` iterations that go on. -/
inductive Goes (l : Loop σ) : Nat → σ → σ → Prop
  | start (s : σ) : Goes l 0 s s
  | next {n : Nat} {s s' s'' : σ} (hstep : l.step s = .ok (.inl s')) (h : Goes l n s' s'') : Goes l (n + 1) s s''

/-- Each iteration that goes on passes over at least one token. -/
def Advances (l : Loop σ) : Prop :=
  ∀ s s', l.step s = .ok (.inl s') → l.left s' <:+ l.left s ∧ (l.left s').length < (l.left s).length

/-- The function does what the loop does: one iteration, and after it the rest of the loop. -/
def Computes (l : Loop σ) (f : σ → Except Failure (List Token)) : Prop :=
  ∀ s, f s = l.step s >>= Sum.elim f pure

/-- The loop comes to the result after at most as many iterations that go on as it has passed over tokens. -/
def Ends (l : Loop σ) (s : σ) (x : Except Failure (List Token)) : Prop :=
  ∃ n s', l.Goes n s s' ∧ l.step s' = x.map .inr ∧ n + (l.left s').length ≤ (l.left s).length

/-- An iteration that goes on with all but the first token. -/
theorem Advances.of_cons (h : ∀ s s', l.step s = .ok (.inl s') → ∃ t, l.left s = t :: l.left s') : l.Advances := by
  intro s s' hstep
  obtain ⟨t, ht⟩ := h s s' hstep
  rw [ht]
  exact ⟨List.suffix_cons t _, Nat.lt_succ_self _⟩

/-- A run passes over at least one token with each iteration that goes on. -/
theorem Goes.le (ha : l.Advances) (h : l.Goes n s s') :
    l.left s' <:+ l.left s ∧ n + (l.left s').length ≤ (l.left s).length := by
  induction h with
  | start s => exact ⟨List.suffix_refl _, by simp⟩
  | next hstep _ ih =>
    obtain ⟨hin, hlt⟩ := ha _ _ hstep
    exact ⟨ih.1.trans hin, by omega⟩

/-- A loop in which each iteration advances ends, with the result that it computes. -/
theorem ends (ha : l.Advances) (hc : l.Computes f) (s : σ) : l.Ends s (f s) := by
  induction hn : (l.left s).length using Nat.strong_induction_on generalizing s with
  | _ n ih =>
    have hf := hc s
    cases hstep : l.step s with
    | error e =>
      rw [hstep] at hf
      exact ⟨0, s, .start s, by rw [hstep, hf]; rfl, by simp⟩
    | ok r =>
      rw [hstep] at hf
      cases r with
      | inr rest => exact ⟨0, s, .start s, by rw [hstep, hf]; rfl, by simp⟩
      | inl s' =>
        have hlt := (ha s s' hstep).2
        obtain ⟨m, s'', hgoes, hend, hle⟩ := ih _ (hn ▸ hlt) s' rfl
        have hresult : f s = f s' := hf
        exact ⟨m + 1, s'', .next hstep hgoes, hresult ▸ hend, by omega⟩

/-- Each iteration that goes on passes over tokens, and the loop ends with what the function gives. -/
structure Progresses (l : Loop σ) (f : σ → Except Failure (List Token)) : Prop where
  advances : l.Advances
  ends : ∀ s, l.Ends s (f s)

theorem Computes.progresses (hc : l.Computes f) (ha : l.Advances) : l.Progresses f := ⟨ha, Loop.ends ha hc⟩

end Loop

/-! ## Loops over single tokens

Each routine that passes over tokens one by one, with what one iteration of it does. -/

/-- The state of a loop that keeps the open delimiters. -/
abbrev Nested := List Delimiter × List Token

def groupLoop (e : Expectation) : Loop Nested where
  left := Prod.snd
  step
    | (_, []) => .error (.endOfText e)
    | (stack, t :: rest) => do
      let stack' ← nest stack t
      if t.closes?.isSome && stack'.isEmpty then return .inr rest
      else return .inl (stack', rest)

def semicolonLoop (e : Expectation) : Loop Nested where
  left := Prod.snd
  step
    | (_, []) => .error (.endOfText e)
    | (stack, t :: rest) =>
      if stack.isEmpty && t.isPunct ";" then return .inr rest
      else do
        let stack' ← nest stack t
        return .inl (stack', rest)

def constructLoop : Loop Nested where
  left := Prod.snd
  step
    | (stack, []) => if stack.isEmpty then return .inr [] else .error (.endOfText .closingDelimiter)
    | (stack, t :: rest) =>
      if stack.isEmpty && t.isPunct ";" then return .inr rest
      else do
        let stack' ← nest stack t
        if stack'.isEmpty && t.closes? == some .brace then return .inr rest
        else return .inl (stack', rest)

def upToLoop (stop : Token → Bool) (e : Expectation) : Loop Nested where
  left := Prod.snd
  step
    | (stack, []) => .error (.endOfText (if stack.isEmpty then e else .closingDelimiter))
    | (stack, t :: rest) =>
      if stack.isEmpty && stop t then return .inr (t :: rest)
      else if stack.isEmpty && t.closes?.isSome then return .inl ([], rest)
      else do
        let stack' ← nest stack t
        return .inl (stack', rest)

def paramTokensLoop : Loop Nested where
  left := Prod.snd
  step
    | (stack, []) => .error (.endOfText (if stack.isEmpty then .paramsClose else .closingDelimiter))
    | (stack, t :: rest) =>
      if stack.isEmpty && (t.isPunct ")" || t.isPunct ",") then return .inr rest
      else do
        let stack' ← nest stack t
        return .inl (stack', rest)

theorem groupLoop_computes (e : Expectation) :
    (groupLoop e).Computes fun s => (group e s.1 s.2).map Prod.snd := by
  rintro ⟨stack, _ | ⟨t, rest⟩⟩
  · rfl
  · simp only [group, groupLoop]
    cases nest stack t with
    | error f => rfl
    | ok stack' =>
      simp only [bind, Except.bind]
      split <;> rfl

theorem semicolonLoop_computes (e : Expectation) :
    (semicolonLoop e).Computes fun s => (semicolon e s.1 s.2).map Prod.snd := by
  rintro ⟨stack, _ | ⟨t, rest⟩⟩
  · rfl
  · simp only [semicolon, semicolonLoop]
    split
    · rfl
    · cases nest stack t <;> rfl

theorem constructLoop_computes : constructLoop.Computes fun s => construct s.1 s.2 := by
  rintro ⟨stack, _ | ⟨t, rest⟩⟩
  · simp only [construct, constructLoop]
    split <;> rfl
  · simp only [construct, constructLoop]
    split
    · rfl
    · cases nest stack t with
      | error f => rfl
      | ok stack' =>
        simp only [bind, Except.bind]
        split <;> rfl

theorem upToLoop_computes (stop : Token → Bool) (e : Expectation) :
    (upToLoop stop e).Computes fun s => upTo stop e s.1 s.2 := by
  rintro ⟨stack, _ | ⟨t, rest⟩⟩
  · rfl
  · simp only [upTo, upToLoop]
    split
    · rfl
    · split
      · rfl
      · cases nest stack t <;> rfl

theorem paramTokensLoop_computes : paramTokensLoop.Computes fun s => (paramTokens s.1 s.2).map (·.2.2) := by
  rintro ⟨stack, _ | ⟨t, rest⟩⟩
  · rfl
  · simp only [paramTokens, paramTokensLoop]
    split
    · rfl
    · cases nest stack t with
      | error f => rfl
      | ok stack' =>
        simp only [bind, Except.bind, pure, Except.pure, Sum.elim_inl]
        cases paramTokens stack' rest <;> rfl

theorem groupLoop_advances (e : Expectation) : (groupLoop e).Advances := by
  refine .of_cons ?_
  rintro ⟨stack, _ | ⟨t, rest⟩⟩ s' h
  · cases h
  · obtain ⟨stack', -, h⟩ := bind_eq_ok.1 h
    split at h <;> cases h
    exact ⟨t, rfl⟩

theorem semicolonLoop_advances (e : Expectation) : (semicolonLoop e).Advances := by
  refine .of_cons ?_
  rintro ⟨stack, _ | ⟨t, rest⟩⟩ s' h
  · cases h
  · simp only [semicolonLoop] at h
    split at h
    · cases h
    · obtain ⟨stack', -, h⟩ := bind_eq_ok.1 h
      cases h
      exact ⟨t, rfl⟩

theorem constructLoop_advances : constructLoop.Advances := by
  refine .of_cons ?_
  rintro ⟨stack, _ | ⟨t, rest⟩⟩ s' h
  · simp only [constructLoop] at h
    split at h <;> cases h
  · simp only [constructLoop] at h
    split at h
    · cases h
    · obtain ⟨stack', -, h⟩ := bind_eq_ok.1 h
      split at h <;> cases h
      exact ⟨t, rfl⟩

theorem upToLoop_advances (stop : Token → Bool) (e : Expectation) : (upToLoop stop e).Advances := by
  refine .of_cons ?_
  rintro ⟨stack, _ | ⟨t, rest⟩⟩ s' h
  · cases h
  · simp only [upToLoop] at h
    split at h
    · cases h
    · split at h
      · cases h
        exact ⟨t, rfl⟩
      · obtain ⟨stack', -, h⟩ := bind_eq_ok.1 h
        cases h
        exact ⟨t, rfl⟩

theorem paramTokensLoop_advances : paramTokensLoop.Advances := by
  refine .of_cons ?_
  rintro ⟨stack, _ | ⟨t, rest⟩⟩ s' h
  · cases h
  · simp only [paramTokensLoop] at h
    split at h
    · cases h
    · obtain ⟨stack', -, h⟩ := bind_eq_ok.1 h
      cases h
      exact ⟨t, rfl⟩

/-! ## Loops over what routines read

Each routine that reads one thing after the other, with what one iteration of it does. -/

def annotationsLoop : Loop (List Token) where
  left := id
  step ts := if startsWith "@" ts then (annotationStep ts).map .inl else return .inr ts

def pathLoop : Loop (List Token) where
  left := id
  step ts :=
    if startsWith "." ts then (expectName .moduleName ts.tail).map fun r => .inl r.2 else return .inr ts

def qualifiersLoop : Loop (List Token) where
  left := id
  step
    | [] => return .inr []
    | t :: rest =>
      if memberQualifiers.any t.is && !startsWith "=" rest then return .inl rest else return .inr (t :: rest)

def paramsLoop (text : List Char) : Loop (List Token) where
  left := id
  step ts := do
    let (part, stop, rest) ← paramTokens [] ts
    let p ← param? text part
    if stop.isPunct ")" then return .inr rest
    else match p with
      | none => .error (.unexpected .param "," (some stop.start))
      | some _ => return .inl rest

def attachPointsLoop : Loop (List Token) where
  left := id
  step ts := do
    let (_, rest) ← attachPoint ts
    if startsWith "," rest then return .inl rest.tail else return .inr rest

def membersLoop (text : List Char) : Loop (List Token) where
  left := id
  step
    | [] => .error (.endOfText .serviceClose)
    | t :: tail => if t.is "\x7d" then return .inr tail else (member text (t :: tail)).map fun r => .inl r.2

def moduleLoop (text : List Char) : Loop (List Token) where
  left := id
  step
    | [] => return .inr []
    | t :: tail =>
      if t.is "@" then (annotationStep (t :: tail)).map .inl
      else (declaration text t tail).map fun r => .inl r.2

theorem annotations_eq (ts : List Token) :
    annotations ts = if startsWith "@" ts then annotationStep ts >>= annotations else pure ts := by
  rw [annotations]
  split
  · split
    · next he => simp only [he, bind, Except.bind]
    · next he => simp only [he, bind, Except.bind]
  · rfl

theorem annotationsLoop_computes : annotationsLoop.Computes annotations := by
  intro ts
  simp only [annotationsLoop]
  rw [annotations_eq]
  split
  · cases annotationStep ts <;> rfl
  · rfl

theorem pathTail_eq (ts : List Token) :
    pathTail ts = if startsWith "." ts then expectName .moduleName ts.tail >>= fun r =>
      pathTail r.2 >>= fun q => pure (r.1.text :: q.1, q.2) else pure ([], ts) := by
  rcases ts with _ | ⟨dot, _ | ⟨name, rest⟩⟩
  · rfl
  · by_cases hdot : dot.is "." <;> simp [pathTail, startsWith, expectName, hdot, bind, Except.bind, pure, Except.pure]
  · by_cases hdot : dot.is "."
    · by_cases hname : name.isName
      · simp only [pathTail, startsWith, expectName, hdot, hname, if_true, List.tail_cons, bind, Except.bind]
        cases pathTail rest <;> rfl
      · simp [pathTail, startsWith, expectName, hdot, hname, bind, Except.bind]
    · simp [pathTail, startsWith, hdot, pure, Except.pure]

theorem pathLoop_computes : pathLoop.Computes fun ts => (pathTail ts).map Prod.snd := by
  intro ts
  simp only [pathLoop]
  rw [pathTail_eq]
  split
  · cases expectName .moduleName ts.tail with
    | error f => rfl
    | ok r =>
      simp only [bind, Except.bind, Except.map, Sum.elim_inl]
      cases pathTail r.2 <;> rfl
  · rfl

theorem qualifiersLoop_computes : qualifiersLoop.Computes fun ts => .ok (qualifiers ts).2 := by
  rintro (_ | ⟨t, rest⟩)
  · rfl
  · simp only [qualifiers, qualifiersLoop]
    split <;> rfl

theorem paramsLoop_computes (text : List Char) :
    (paramsLoop text).Computes fun ts => (paramsTail text ts).map (·.2.2) := by
  intro ts
  simp only [paramsLoop]
  rw [paramsTail_eq]
  simp only [bind, Except.bind]
  cases paramTokens [] ts with
  | error f => rfl
  | ok r =>
    obtain ⟨part, stop, rest⟩ := r
    dsimp only
    cases param? text part with
    | error f => rfl
    | ok p =>
      dsimp only
      split
      · rfl
      · cases p with
        | none => rfl
        | some p =>
          simp only [pure, Except.pure, Sum.elim_inl]
          cases paramsTail text rest <;> rfl

theorem attachPointsLoop_computes : attachPointsLoop.Computes fun ts => (attachPoints ts).map Prod.snd := by
  intro ts
  simp only [attachPointsLoop]
  rw [attachPoints_eq]
  simp only [bind, Except.bind]
  cases attachPoint ts with
  | error f => rfl
  | ok r =>
    dsimp only
    split
    · simp only [pure, Except.pure, Sum.elim_inl]
      cases attachPoints r.2.tail <;> rfl
    · rfl

theorem membersLoop_computes (text : List Char) :
    (membersLoop text).Computes fun ts => (members text ts).map (·.2.2) := by
  rintro (_ | ⟨t, tail⟩)
  · simp only [members]
    rfl
  · simp only [members_eq, membersLoop, bind, Except.bind]
    split
    · rfl
    · cases member text (t :: tail) with
      | error f => rfl
      | ok r =>
        simp only [pure, Except.pure, Except.map, Sum.elim_inl]
        cases members text r.2 <;> rfl

/-- A module is read up to its end. -/
theorem moduleLoop_computes (text : List Char) :
    (moduleLoop text).Computes fun ts => (declarations text ts).map fun _ => [] := by
  rintro (_ | ⟨t, tail⟩)
  · simp only [declarations]
    rfl
  · simp only [declarations_eq, moduleLoop, bind, Except.bind]
    split
    · cases annotationStep (t :: tail) <;> rfl
    · cases declaration text t tail with
      | error f => rfl
      | ok r =>
        simp only [pure, Except.pure, Except.map, Sum.elim_inl]
        cases declarations text r.2 <;> rfl

/-- An iteration goes on with what a routine leaves. -/
theorem Within.advances {text : List Char} {α : Type} {left : α → List Token} {ts rest : List Token}
    {x : Except Failure α} (hw : Within text left ts x) (hlt : ∀ a, x = .ok a → (left a).length < ts.length)
    (h : (x.map fun a => (.inl (left a) : List Token ⊕ List Token)) = .ok (.inl rest)) :
    rest <:+ ts ∧ rest.length < ts.length := by
  cases x with
  | error f => cases h
  | ok a =>
    cases h
    exact ⟨hw, hlt a rfl⟩

theorem annotationsLoop_advances : annotationsLoop.Advances := by
  intro ts rest h
  simp only [annotationsLoop] at h
  split at h
  · exact (annotationStep_within [] ts).advances (fun _ => annotationStep_length) h
  · cases h

theorem pathLoop_advances : pathLoop.Advances := by
  intro ts rest h
  simp only [pathLoop] at h
  split at h
  · refine (expectName_tail_within [] _ ts).advances (fun r hr => ?_) h
    exact Nat.lt_of_lt_of_le (expectName_length hr) (List.length_tail ▸ Nat.sub_le _ _)
  · cases h

theorem qualifiersLoop_advances : qualifiersLoop.Advances := by
  refine .of_cons ?_
  rintro (_ | ⟨t, rest⟩) ts' h
  · cases h
  · simp only [qualifiersLoop] at h
    split at h <;> cases h
    exact ⟨t, rfl⟩

theorem paramsLoop_advances (text : List Char) : (paramsLoop text).Advances := by
  intro ts rest' h
  obtain ⟨⟨part, stop, rest⟩, hpart, h⟩ := bind_eq_ok.1 h
  obtain ⟨p, -, h⟩ := bind_eq_ok.1 h
  split at h
  · cases h
  · split at h <;> cases h
    exact ⟨(paramTokens_within text [] ts).suffix hpart, paramTokens_length hpart⟩

theorem attachPointsLoop_advances : attachPointsLoop.Advances := by
  intro ts rest' h
  obtain ⟨⟨a, rest⟩, ha, h⟩ := bind_eq_ok.1 h
  dsimp only at h
  split at h <;> cases h
  have hlt := attachPoint_length ha
  refine ⟨(List.tail_suffix rest).trans ((attachPoint_within [] ts).suffix ha), ?_⟩
  simp only [attachPointsLoop, id, List.length_tail]
  omega

theorem membersLoop_advances (text : List Char) : (membersLoop text).Advances := by
  rintro (_ | ⟨t, tail⟩) rest h
  · cases h
  · simp only [membersLoop] at h
    split at h
    · cases h
    · exact (member_within text _).advances (fun _ => member_length) h

theorem moduleLoop_advances (text : List Char) : (moduleLoop text).Advances := by
  rintro (_ | ⟨t, tail⟩) rest h
  · cases h
  · simp only [moduleLoop] at h
    split at h
    · exact (annotationStep_within text _).advances (fun _ => annotationStep_length) h
    · exact (declaration_within text t tail).advances (fun _ => declaration_length) h

/-! ## Loops that build the tree

The loops over members and over declarations as they run, with the tree in their state. -/

def membersIntoLoop (text : List Char) (service : Nat) : Loop (SyntaxTree × List Token) where
  left := Prod.snd
  step
    | (_, []) => .error (.endOfText .serviceClose)
    | (tree, t :: tail) =>
      if t.is "\x7d" then return .inr (t :: tail) else (memberInto text service tree (t :: tail)).map .inl

def moduleIntoLoop (text : List Char) : Loop (SyntaxTree × List Token) where
  left := Prod.snd
  step
    | (_, []) => return .inr []
    | (tree, t :: tail) =>
      if t.is "@" then (annotationStep (t :: tail)).map fun rest => .inl (tree, rest)
      else (declarationInto text tree t tail).map .inl

theorem membersIntoLoop_computes (text : List Char) (service : Nat) :
    (membersIntoLoop text service).Computes fun s => (membersInto text service s.1 s.2).map Prod.snd := by
  rintro ⟨tree, _ | ⟨t, tail⟩⟩
  · simp only [membersInto]
    rfl
  · simp only [membersInto_cons, membersIntoLoop]
    split
    · rfl
    · cases memberInto text service tree (t :: tail) <;> rfl

theorem moduleIntoLoop_computes (text : List Char) :
    (moduleIntoLoop text).Computes fun s => (moduleInto text s.1 s.2).map fun _ => [] := by
  rintro ⟨tree, _ | ⟨t, tail⟩⟩
  · simp only [moduleInto]
    rfl
  · simp only [moduleInto_cons, moduleIntoLoop]
    split
    · cases annotationStep (t :: tail) <;> rfl
    · cases declarationInto text tree t tail <;> rfl

theorem importInto_within (text : List Char) (tree : SyntaxTree) (tokens : List Token) :
    Within text Prod.snd tokens (importInto tree tokens) := by
  rw [importInto_eq]
  exact (importDecl_within text tokens).of_map fun _ => rfl

theorem listenerInto_within (text : List Char) (start : Nat) (tree : SyntaxTree) (tokens : List Token) :
    Within text Prod.snd tokens (listenerInto start tree tokens) := by
  rw [listenerInto_eq]
  exact (listenerDecl_within text start tokens).of_map fun _ => rfl

theorem memberInto_within (text : List Char) (service : Nat) (tree : SyntaxTree) (tokens : List Token) :
    Within text Prod.snd tokens (memberInto text service tree tokens) := by
  rw [memberInto_eq]
  exact (member_within text tokens).of_map fun _ => rfl

theorem membersInto_within (text : List Char) (service : Nat) (tree : SyntaxTree) (tokens : List Token) :
    Within text Prod.snd tokens (membersInto text service tree tokens) := by
  fun_induction membersInto text service tree tokens with
  | case1 => trivial
  | case2 => exact List.suffix_refl _
  | case3 tree t tail _ f hm => exact (memberInto_within text service tree (t :: tail)).error hm
  | case4 tree t tail _ tree' rest hm _ ih =>
    exact ih.mono ((memberInto_within text service tree (t :: tail)).suffix hm)

theorem serviceInto_within (text : List Char) (start : Nat) (tree : SyntaxTree) (tokens : List Token) :
    Within text Prod.snd tokens (serviceInto text start tree tokens) := by
  rw [serviceInto_eq]
  exact (serviceDecl_within text start tokens).of_map fun _ => rfl

theorem declarationInto_within (text : List Char) (tree : SyntaxTree) (first : Token) (tail : List Token) :
    Within text Prod.snd (first :: tail) (declarationInto text tree first tail) := by
  rw [declarationInto_eq]
  exact (declaration_within text first tail).of_map fun _ => rfl

theorem declarations_within (text : List Char) (tokens : List Token) :
    Within text (fun _ => []) tokens (declarations text tokens) := by
  cases h : declarations text tokens with
  | error f => exact declarations_pointsInto h
  | ok ds => exact List.nil_suffix

theorem moduleInto_within (text : List Char) (tree : SyntaxTree) (tokens : List Token) :
    Within text (fun _ => []) tokens (moduleInto text tree tokens) := by
  rw [moduleInto_eq]
  exact (declarations_within text tokens).of_map fun _ => rfl

theorem membersIntoLoop_advances (text : List Char) (service : Nat) : (membersIntoLoop text service).Advances := by
  rintro ⟨tree, _ | ⟨t, tail⟩⟩ s h
  · cases h
  · simp only [membersIntoLoop] at h
    split at h
    · cases h
    · cases hm : memberInto text service tree (t :: tail) with
      | error f =>
        rw [hm] at h
        cases h
      | ok r =>
        rw [hm] at h
        cases h
        exact ⟨(memberInto_within text service tree (t :: tail)).suffix hm, memberInto_length hm⟩

theorem moduleIntoLoop_advances (text : List Char) : (moduleIntoLoop text).Advances := by
  rintro ⟨tree, _ | ⟨t, tail⟩⟩ s h
  · cases h
  · simp only [moduleIntoLoop] at h
    split at h
    · cases hstep : annotationStep (t :: tail) with
      | error f =>
        rw [hstep] at h
        cases h
      | ok rest =>
        rw [hstep] at h
        cases h
        exact ⟨(annotationStep_within text (t :: tail)).suffix hstep, annotationStep_length hstep⟩
    · cases hd : declarationInto text tree t tail with
      | error f =>
        rw [hd] at h
        cases h
      | ok r =>
        rw [hd] at h
        cases h
        exact ⟨(declarationInto_within text tree t tail).suffix hd, declarationInto_length hd⟩

/-! ## Routines -/

/-- The routines of the parser, each with what it is given besides the tokens. Those that build the tree stand last. -/
inductive Routine where
  | expect (s : String) (e : Expectation)
  | expectName (e : Expectation)
  | group (e : Expectation) (stack : List Delimiter)
  | semicolon (e : Expectation) (stack : List Delimiter)
  | construct (stack : List Delimiter)
  | upTo (stop : Token → Bool) (e : Expectation) (stack : List Delimiter)
  | annotationTail
  | annotationValue
  | annotationStep
  | annotations
  | leadingType
  | initialType
  | paramTokens (stack : List Delimiter)
  | paramsTail
  | params
  | qualifiers
  | field (first : Token)
  | nameTail (quals : List String)
  | functionEnd
  | function (first : Token) (quals : List String)
  | member
  | members
  | pathTail
  | orgPart (first : Token)
  | aliasPart
  | importDecl
  | listenerHead
  | listenerDecl (start : Nat)
  | serviceHead
  | attachPoint
  | attachPoints
  | serviceDecl (start : Nat)
  | afterQualifiers
  | declaration
  | declarations
  | importInto (tree : SyntaxTree)
  | listenerInto (start : Nat) (tree : SyntaxTree)
  | memberInto (service : Nat) (tree : SyntaxTree)
  | membersInto (service : Nat) (tree : SyntaxTree)
  | serviceInto (start : Nat) (tree : SyntaxTree)
  | declarationInto (tree : SyntaxTree)
  | moduleInto (tree : SyntaxTree)

/-- What the routine leaves of the tokens. Without a token there is no declaration to read, and reading all of them
leaves nothing. -/
def Routine.left (text : List Char) (tokens : List Token) : Routine → Except Failure (List Token)
  | expect s e => (Parse.expect s e tokens).map Prod.snd
  | expectName e => (Parse.expectName e tokens).map Prod.snd
  | group e stack => (Parse.group e stack tokens).map Prod.snd
  | semicolon e stack => (Parse.semicolon e stack tokens).map Prod.snd
  | construct stack => Parse.construct stack tokens
  | upTo stop e stack => Parse.upTo stop e stack tokens
  | annotationTail => Parse.annotationTail tokens
  | annotationValue => Parse.annotationValue tokens
  | annotationStep => Parse.annotationStep tokens
  | annotations => Parse.annotations tokens
  | leadingType => .ok (Parse.leadingType tokens).2
  | initialType => .ok (Parse.initialType tokens).2
  | paramTokens stack => (Parse.paramTokens stack tokens).map (·.2.2)
  | paramsTail => (Parse.paramsTail text tokens).map (·.2.2)
  | params => (Parse.params text tokens).map Prod.snd
  | qualifiers => .ok (Parse.qualifiers tokens).2
  | field first => (Parse.field first tokens).map Prod.snd
  | nameTail quals => (Parse.nameTail quals tokens).map Prod.snd
  | functionEnd => (Parse.functionEnd tokens).map Prod.snd
  | function first quals => (Parse.function text first quals tokens).map Prod.snd
  | member => (Parse.member text tokens).map Prod.snd
  | members => (Parse.members text tokens).map (·.2.2)
  | pathTail => (Parse.pathTail tokens).map Prod.snd
  | orgPart first => (Parse.orgPart first tokens).map Prod.snd
  | aliasPart => (Parse.aliasPart tokens).map Prod.snd
  | importDecl => (Parse.importDecl tokens).map Prod.snd
  | listenerHead => (Parse.listenerHead tokens).map Prod.snd
  | listenerDecl start => (Parse.listenerDecl start tokens).map Prod.snd
  | serviceHead => (Parse.serviceHead tokens).map Prod.snd
  | attachPoint => (Parse.attachPoint tokens).map Prod.snd
  | attachPoints => (Parse.attachPoints tokens).map Prod.snd
  | serviceDecl start => (Parse.serviceDecl text start tokens).map Prod.snd
  | afterQualifiers => .ok (Parse.afterQualifiers tokens)
  | declaration => match tokens with
    | [] => .ok []
    | first :: tail => (Parse.declaration text first tail).map Prod.snd
  | declarations => (Parse.declarations text tokens).map fun _ => []
  | importInto tree => (Parse.importInto tree tokens).map Prod.snd
  | listenerInto start tree => (Parse.listenerInto start tree tokens).map Prod.snd
  | memberInto service tree => (Parse.memberInto text service tree tokens).map Prod.snd
  | membersInto service tree => (Parse.membersInto text service tree tokens).map Prod.snd
  | serviceInto start tree => (Parse.serviceInto text start tree tokens).map Prod.snd
  | declarationInto tree => match tokens with
    | [] => .ok []
    | first :: tail => (Parse.declarationInto text tree first tail).map Prod.snd
  | moduleInto tree => (Parse.moduleInto text tree tokens).map fun _ => []

/-- A routine leaves a rest of its tokens, or it fails at some of them. -/
theorem Routine.left_within (text : List Char) (tokens : List Token) (r : Routine) :
    Within text id tokens (r.left text tokens) := by
  cases r with
  | expect s e => exact (expect_within text s e tokens).map
  | expectName e => exact (expectName_within text e tokens).map
  | group e stack => exact (group_within text e stack tokens).map
  | semicolon e stack => exact (semicolon_within text e stack tokens).map
  | construct stack => exact construct_within text stack tokens
  | upTo stop e stack => exact upTo_within text stop e stack tokens
  | annotationTail => exact annotationTail_within text tokens
  | annotationValue => exact annotationValue_within text tokens
  | annotationStep => exact annotationStep_within text tokens
  | annotations => exact annotations_within text tokens
  | leadingType => exact leadingType_suffix tokens
  | initialType => exact initialType_suffix tokens
  | paramTokens stack => exact (paramTokens_within text stack tokens).map
  | paramsTail => exact (paramsTail_within text tokens).map
  | params => exact (params_within text tokens).map
  | qualifiers => exact qualifiers_suffix tokens
  | field first => exact (field_within text first tokens).map
  | nameTail quals => exact (nameTail_within text quals tokens).map
  | functionEnd => exact (functionEnd_within text tokens).map
  | function first quals => exact (function_within text first quals tokens).map
  | member => exact (member_within text tokens).map
  | members => exact (members_within text tokens).map
  | pathTail => exact (pathTail_within text tokens).map
  | orgPart first => exact (orgPart_within text first tokens).map
  | aliasPart => exact (aliasPart_within text tokens).map
  | importDecl => exact (importDecl_within text tokens).map
  | listenerHead => exact (listenerHead_within text tokens).map
  | listenerDecl start => exact (listenerDecl_within text start tokens).map
  | serviceHead => exact (serviceHead_within text tokens).map
  | attachPoint => exact (attachPoint_within text tokens).map
  | attachPoints => exact (attachPoints_within text tokens).map
  | serviceDecl start => exact (serviceDecl_within text start tokens).map
  | afterQualifiers => exact List.dropWhile_suffix _
  | declaration =>
    cases tokens with
    | nil => exact List.suffix_refl []
    | cons first tail => exact (declaration_within text first tail).map
  | declarations => exact (declarations_within text tokens).map
  | importInto tree => exact (importInto_within text tree tokens).map
  | listenerInto start tree => exact (listenerInto_within text start tree tokens).map
  | memberInto service tree => exact (memberInto_within text service tree tokens).map
  | membersInto service tree => exact (membersInto_within text service tree tokens).map
  | serviceInto start tree => exact (serviceInto_within text start tree tokens).map
  | declarationInto tree =>
    cases tokens with
    | nil => exact List.suffix_refl []
    | cons first tail => exact (declarationInto_within text tree first tail).map
  | moduleInto tree => exact (moduleInto_within text tree tokens).map

end ServiceLint.Parse
