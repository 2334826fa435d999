import ServiceLint.Proofs.Source.Arena
import ServiceLint.Proofs.Source.Parse.Declarations

/-!
# Parsing with and without a tree

The parser builds a tree. For what it reads, the tree does not matter: each of its routines reads what the routine
without a tree reads, and adds it to the tree that it was given (`Parse.moduleInto_eq`). So the tree of a text is
the one that its declarations make (`SyntaxTree.parse_eq`), and the module of a text is the list of them
(`Module.parse_eq`).
-/
namespace ServiceLint

namespace Parse

variable {text : List Char}

theorem expect_of_is {s : String} {t : Token} (h : t.is s = true) (e : Expectation) (rest : List Token) :
    expect s e (t :: rest) = .ok (t, rest) := if_pos h

theorem importInto_eq (tree : SyntaxTree) (tokens : List Token) :
    importInto tree tokens = (importDecl tokens).map fun r => (tree.addDecl (.importDecl r.1), r.2) := by
  unfold importInto
  cases importDecl tokens <;> rfl

theorem listenerInto_eq (start : Nat) (tree : SyntaxTree) (tokens : List Token) :
    listenerInto start tree tokens = (listenerDecl start tokens).map fun r =>
      (tree.addDecl (.listenerDecl r.1), r.2) := by
  unfold listenerInto
  cases listenerDecl start tokens <;> rfl

theorem memberInto_eq (text : List Char) (service : Nat) (tree : SyntaxTree) (tokens : List Token) :
    memberInto text service tree tokens = (member text tokens).map fun r => (tree.addMember service r.1, r.2) := by
  unfold memberInto
  cases member text tokens <;> rfl

/-- The loop as a chain of steps. -/
theorem membersInto_cons (text : List Char) (service : Nat) (tree : SyntaxTree) (t : Token) (tail : List Token) :
    membersInto text service tree (t :: tail) = if t.is "\x7d" then pure (tree, t :: tail)
      else memberInto text service tree (t :: tail) >>= fun r => membersInto text service r.1 r.2 := by
  rw [membersInto]
  split
  · rfl
  · split
    · next he => simp only [he, bind, Except.bind]
    · next he => simp only [he, bind, Except.bind]

/-- The members of a service are read up to a closing brace, which is left. -/
theorem membersInto_eq (text : List Char) (service : Nat) (tree : SyntaxTree) (tokens : List Token) :
    membersInto text service tree tokens = (members text tokens).map fun r =>
      (r.1.foldl (SyntaxTree.addMember service) tree, r.2.1 :: r.2.2) := by
  induction hn : tokens.length using Nat.strong_induction_on generalizing tokens tree with
  | _ n ih =>
    subst hn
    cases tokens with
    | nil => simp [membersInto, members, Except.map]
    | cons t tail =>
      rw [membersInto_cons, members_eq, memberInto_eq]
      split
      · rfl
      · cases hm : member text (t :: tail) with
        | error f => rfl
        | ok r =>
          have hrec := ih _ (member_length hm) (tree.addMember service r.1) r.2 rfl
          simp only [bind, Except.bind, Except.map] at hrec ⊢
          rw [hrec]
          cases members text r.2 <;> rfl

/-- The closing brace is a closing brace. -/
theorem members_close {tokens rest : List Token} {ms : List Member} {close : Token}
    (h : members text tokens = .ok (ms, close, rest)) : close.is "\x7d" = true := by
  fun_induction members text tokens generalizing ms with
  | case1 => cases h
  | case2 t tail hclose => cases h; exact hclose
  | case3 => cases h
  | case4 => cases h
  | case5 t tail hclose m r hm _ ms close' rest' hrec ih =>
    cases h
    exact ih hrec

/-- The header of a listener ends at an equals sign, so the one that is expected after it is there. -/
theorem expect_equalsSign {tokens rest : List Token} {p : Token × Option TypeRef}
    (h : listenerHead tokens = .ok (p, rest)) : ∃ r, expect "=" .equalsSign rest = .ok r := by
  unfold listenerHead at h
  split at h
  · cases h
  · next equals tail hd =>
    have hequals : equals.is "=" = true := by simpa using dropWhile_cons_neg hd
    split at h <;> cases h
    exact ⟨_, expect_of_is hequals _ _⟩

/-- The type of a service ends at `on`, so the one that is expected after it is there. -/
theorem expect_onKeyword {tokens type rest : List Token} (h : serviceHead tokens = .ok (type, rest)) :
    ∃ r, expect "on" .onKeyword rest = .ok r := by
  unfold serviceHead at h
  split at h
  · cases h
  · split at h
    · next hon =>
      cases h
      exact ⟨_, expect_of_is hon _ _⟩
    · cases h

/-- Two runs with the same steps, of which the first makes more of what it reads. -/
theorem bind_eq_map {α β γ : Type} {x : Except Failure α} {k : α → Except Failure γ} {k' : α → Except Failure β}
    {f : β → γ} (h : ∀ a, x = .ok a → k a = (k' a).map f) : (x >>= k) = (x >>= k').map f := by
  cases x with
  | error e => rfl
  | ok a => exact h a rfl

/-- A service is read with its members, and it is finished: the closing brace that it expects is there. -/
theorem serviceInto_eq (text : List Char) (start : Nat) (tree : SyntaxTree) (tokens : List Token) :
    serviceInto text start tree tokens =
      (serviceDecl text start tokens).map fun r => (tree.addDecl (.serviceDecl r.1), r.2) := by
  refine bind_eq_map fun _ _ => bind_eq_map fun _ _ => bind_eq_map fun _ _ => bind_eq_map fun _ _ => ?_
  refine bind_eq_map fun openBrace _ => ?_
  dsimp only
  rw [membersInto_eq]
  cases hms : members text openBrace.2 with
  | error f => rfl
  | ok r =>
    have hclose := expect_of_is (members_close hms) .closeBrace r.2.2
    simp only [bind, Except.bind, Except.map, hclose]
    rfl

theorem declarationInto_eq (text : List Char) (tree : SyntaxTree) (first : Token) (tail : List Token) :
    declarationInto text tree first tail =
      (declaration text first tail).map fun r => (r.1.toList.foldl SyntaxTree.addDecl tree, r.2) := by
  unfold declarationInto declaration
  dsimp only
  split
  · rw [importInto_eq]
    cases importDecl (afterQualifiers (first :: tail)) <;> rfl
  · split
    · rw [listenerInto_eq]
      cases listenerDecl first.start (afterQualifiers (first :: tail)) <;> rfl
    · split
      · rw [serviceInto_eq]
        cases serviceDecl text first.start (afterQualifiers (first :: tail)) <;> rfl
      · exact bind_eq_map fun _ _ => rfl

/-- The loop as a chain of steps. -/
theorem moduleInto_cons (text : List Char) (tree : SyntaxTree) (t : Token) (tail : List Token) :
    moduleInto text tree (t :: tail) =
      if t.is "@" then annotationStep (t :: tail) >>= moduleInto text tree
      else declarationInto text tree t tail >>= fun r => moduleInto text r.1 r.2 := by
  rw [moduleInto]
  split
  · split
    · next he => simp only [he, bind, Except.bind]
    · next he => simp only [he, bind, Except.bind]
  · split
    · next he => simp only [he, bind, Except.bind]
    · next he => simp only [he, bind, Except.bind]

/-- The tree gets the declarations that are read without it. -/
theorem moduleInto_eq (text : List Char) (tree : SyntaxTree) (tokens : List Token) :
    moduleInto text tree tokens = (declarations text tokens).map fun ds => ds.foldl SyntaxTree.addDecl tree := by
  induction hn : tokens.length using Nat.strong_induction_on generalizing tokens tree with
  | _ n ih =>
    subst hn
    cases tokens with
    | nil => simp [moduleInto, declarations, Except.map]
    | cons t tail =>
      rw [moduleInto_cons, declarations_eq, declarationInto_eq]
      split
      · exact bind_eq_map fun rest hrest => ih _ (annotationStep_length hrest) tree rest rfl
      · cases hd : declaration text t tail with
        | error f => rfl
        | ok r =>
          have hrec := ih _ (declaration_length hd) (r.1.toList.foldl SyntaxTree.addDecl tree) r.2 rfl
          simp only [bind, Except.bind, Except.map] at hrec ⊢
          rw [hrec]
          cases declarations text r.2 with
          | error f => rfl
          | ok ds => exact congrArg Except.ok (List.foldl_append ..).symm

end Parse

/-- The tree of a text is the one that its declarations make. -/
theorem SyntaxTree.parse_eq {text : List Char} {tokens : List Token} (h : tokenize text = .ok tokens) :
    SyntaxTree.parse text = match Parse.declarations text tokens with
      | .error f => .error (f.toError text)
      | .ok ds => .ok (grown (Text.size text) ds) := by
  rw [SyntaxTree.parse, h]
  simp only [Parse.moduleInto_eq]
  cases Parse.declarations text tokens <;> rfl

/-- The module of a text is made of its declarations. -/
theorem Module.parse_eq {text : List Char} {tokens : List Token} (h : tokenize text = .ok tokens) :
    Module.parse text = match Parse.declarations text tokens with
      | .error f => .error (f.toError text)
      | .ok ds => .ok ⟨ds⟩ := by
  rw [Module.parse, SyntaxTree.parse_eq h]
  cases Parse.declarations text tokens with
  | error f => rfl
  | ok ds => exact congrArg Except.ok (SyntaxTree.module_grown _ ds)

theorem Module.parse_eq_error_of_tokenize {text : List Char} {e : ParseError} (h : tokenize text = .error e) :
    Module.parse text = .error e := by
  rw [Module.parse, SyntaxTree.parse, h]
  rfl

theorem Module.parse_eq_ok {text : List Char} {m : Module} (h : Module.parse text = .ok m) :
    ∃ tokens, tokenize text = .ok tokens ∧ Parse.declarations text tokens = .ok m.decls := by
  cases htok : tokenize text with
  | error e =>
    rw [Module.parse_eq_error_of_tokenize htok] at h
    cases h
  | ok tokens =>
    rw [Module.parse_eq htok] at h
    cases hdecls : Parse.declarations text tokens with
    | error f =>
      rw [hdecls] at h
      cases h
    | ok ds =>
      rw [hdecls] at h
      cases h
      exact ⟨tokens, rfl, hdecls⟩

end ServiceLint
