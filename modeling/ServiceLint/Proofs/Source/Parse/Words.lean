import ServiceLint.Proofs.Source.Parse.Faults
import ServiceLint.Proofs.Source.Shape

/-!
# Parsing looks at words only

Two runs of the parser over the same words, at other places of another text. `Follows g R x y` says that the
run `y` over tokens moved by `g` goes the way of the run `x`: both succeed, with results related by `R`, or
both fail at the same tokens. It is kept when one step follows another (`Follows.bind`), so each routine
follows its own run on moved tokens because the steps do that it is made of. The texts never enter: a type is
sliced from the text only into what the shape of a module leaves out. `declarations_follows` is the result
for a whole module.
-/
namespace ServiceLint

/-- The second failure needs the same as the first one, at the place to which `g` takes it. What the two quote is not
compared. -/
def Failure.MovedTo (g : Nat → Nat) : Failure → Failure → Prop
  | .endOfText e, f' => f' = .endOfText e
  | .unexpected e _ offset, f' => ∃ found, f' = .unexpected e found (offset.map g)
  | .unbalanced t, f' => f' = .unbalanced (t.move g)

namespace Parse

/-- Both runs succeed with related results, or the second one fails where `g` takes the first one. -/
def Follows {α β : Type} (g : Nat → Nat) (R : α → β → Prop) : Except Failure α → Except Failure β → Prop
  | .ok a, .ok b => R a b
  | .error f, .error f' => f.MovedTo g f'
  | _, _ => False

/-- The results are related by `R`, and the tokens that are left are moved. -/
def Beside {α β : Type} (g : Nat → Nat) (R : α → β → Prop) (p : α × List Token) (q : β × List Token) :
    Prop :=
  R p.1 q.1 ∧ q.2 = p.2.map (Token.move g)

def MovedToken (g : Nat → Nat) (t t' : Token) : Prop := t' = t.move g

def MovedTokens (g : Nat → Nat) (ts ts' : List Token) : Prop := ts' = ts.map (Token.move g)

variable {g : Nat → Nat}

namespace Follows

variable {α β γ δ : Type} {R : α → β → Prop} {S : γ → δ → Prop} {x : Except Failure α} {y : Except Failure β}

theorem bind {k : α → Except Failure γ} {l : β → Except Failure δ} (h : Follows g R x y)
    (hk : ∀ a b, x = .ok a → R a b → Follows g S (k a) (l b)) : Follows g S (x >>= k) (y >>= l) := by
  match x, y with
  | .ok a, .ok b => exact hk a b rfl h
  | .error f, .error f' => exact h
  | .ok a, .error f' => exact h.elim
  | .error f, .ok b => exact h.elim

theorem ok {a : α} (h : Follows g R x y) (hx : x = .ok a) : ∃ b, y = .ok b ∧ R a b := by
  subst hx
  match y with
  | .ok b => exact ⟨b, rfl, h⟩
  | .error f => exact h.elim

theorem error {f : Failure} (h : Follows g R x y) (hx : x = .error f) : ∃ f', y = .error f' ∧ f.MovedTo g f' := by
  subst hx
  match y with
  | .error f' => exact ⟨f', rfl, h⟩
  | .ok b => exact h.elim

end Follows

/-! ## Steps -/

@[simp]
theorem startsWith_map (s : String) (ts : List Token) :
    startsWith s (ts.map (Token.move g)) = startsWith s ts :=
  startsWith_move List.head?_map

@[simp]
theorem passed_map (ts rest : List Token) :
    passed (ts.map (Token.move g)) (rest.map (Token.move g)) = (passed ts rest).map (Token.move g) := by
  simp [passed, List.map_take]

theorem expect_follows (s : String) (e : Expectation) (ts : List Token) :
    Follows g (Beside g (MovedToken g)) (expect s e ts) (expect s e (ts.map (Token.move g))) := by
  cases ts with
  | nil => rfl
  | cons t ts => by_cases h : t.is s <;> simp [expect, h, Follows, Beside, MovedToken, Failure.MovedTo]

theorem expectName_follows (e : Expectation) (ts : List Token) :
    Follows g (Beside g (MovedToken g)) (expectName e ts) (expectName e (ts.map (Token.move g))) := by
  cases ts with
  | nil => rfl
  | cons t ts => by_cases h : t.isName <;> simp [expectName, h, Follows, Beside, MovedToken, Failure.MovedTo]

theorem nest_follows (stack : List Delimiter) (t : Token) :
    Follows g (fun s s' => s' = s) (nest stack t) (nest stack (t.move g)) := by
  simp only [nest, Token.move_opens?, Token.move_closes?]
  split
  · rfl
  · split
    · rfl
    · split
      · split <;> rfl
      · rfl

theorem nest_move_error {stack : List Delimiter} {t : Token} {f : Failure} (h : nest stack t = .error f) :
    f = .unbalanced t ∧ nest stack (t.move g) = .error (.unbalanced (t.move g)) := by
  obtain ⟨f', hmoved, hf⟩ := (nest_follows (g := g) stack t).error h
  obtain ⟨rfl, -⟩ := nest_error h
  obtain rfl : f' = .unbalanced (t.move g) := hf
  exact ⟨rfl, hmoved⟩

theorem group_follows (e : Expectation) (stack : List Delimiter) (ts : List Token) :
    Follows g (Beside g (MovedToken g)) (group e stack ts) (group e stack (ts.map (Token.move g))) := by
  fun_induction group e stack ts with
  | case1 => rfl
  | case2 stack t rest f hn =>
    obtain ⟨rfl, hn'⟩ := nest_move_error (g := g) hn
    simp [group, hn', Follows, Failure.MovedTo]
  | case3 stack t rest stack' hn hc => simp [group, nest_move hn, hc, Follows, Beside, MovedToken]
  | case4 stack t rest stack' hn hc ih => simpa [group, nest_move hn, hc] using ih

theorem semicolon_follows (e : Expectation) (stack : List Delimiter) (ts : List Token) :
    Follows g (Beside g (MovedToken g)) (semicolon e stack ts)
      (semicolon e stack (ts.map (Token.move g))) := by
  fun_induction semicolon e stack ts with
  | case1 => rfl
  | case2 stack t rest hs => simp [semicolon, hs, Follows, Beside, MovedToken]
  | case3 stack t rest hs f hn =>
    obtain ⟨rfl, hn'⟩ := nest_move_error (g := g) hn
    simp [semicolon, hs, hn', Follows, Failure.MovedTo]
  | case4 stack t rest hs stack' hn ih => simpa [semicolon, hs, nest_move hn] using ih

theorem construct_follows (stack : List Delimiter) (ts : List Token) :
    Follows g (MovedTokens g) (construct stack ts) (construct stack (ts.map (Token.move g))) := by
  fun_induction construct stack ts with
  | case1 stack hs => simp [construct, hs, Follows, MovedTokens]
  | case2 stack hs => simp [construct, hs, Follows, Failure.MovedTo]
  | case3 stack t rest hs => simp [construct, hs, Follows, MovedTokens]
  | case4 stack t rest hs f hn =>
    obtain ⟨rfl, hn'⟩ := nest_move_error (g := g) hn
    simp [construct, hs, hn', Follows, Failure.MovedTo]
  | case5 stack t rest hs stack' hn hc => simp [construct, hs, nest_move hn, hc, Follows, MovedTokens]
  | case6 stack t rest hs stack' hn hc ih => simpa [construct, hs, nest_move hn, hc] using ih

theorem upTo_follows {stop : Token → Bool} (hstop : ∀ t : Token, stop (t.move g) = stop t) (e : Expectation)
    (stack : List Delimiter) (ts : List Token) :
    Follows g (MovedTokens g) (upTo stop e stack ts) (upTo stop e stack (ts.map (Token.move g))) := by
  fun_induction upTo stop e stack ts with
  | case1 => rfl
  | case2 stack t rest hs => simp [upTo, hstop, hs, Follows, MovedTokens]
  | case3 stack t rest hs hc ih => simpa [upTo, hstop, hs, hc] using ih
  | case4 stack t rest hs hc f hn =>
    obtain ⟨rfl, hn'⟩ := nest_move_error (g := g) hn
    simp [upTo, hstop, hs, hc, hn', Follows, Failure.MovedTo]
  | case5 stack t rest hs hc stack' hn ih => simpa [upTo, hstop, hs, hc, nest_move hn] using ih

/-! ## Annotations -/

/-- A step that is only passed over. -/
theorem Follows.drop {α β : Type} {R : α → β → Prop} {x : Except Failure (α × List Token)}
    {y : Except Failure (β × List Token)} (h : Follows g (Beside g R) x y) :
    Follows g (MovedTokens g) (x >>= fun r => pure r.2) (y >>= fun r => pure r.2) :=
  h.bind fun _ _ _ hr => hr.2

theorem annotationTail_follows (ts : List Token) :
    Follows g (MovedTokens g) (annotationTail ts) (annotationTail (ts.map (Token.move g))) := by
  simp only [annotationTail, startsWith_map, ← List.map_tail]
  split
  · exact (expectName_follows _ _).drop
  · rfl

theorem annotationValue_follows (ts : List Token) :
    Follows g (MovedTokens g) (annotationValue ts) (annotationValue (ts.map (Token.move g))) := by
  simp only [annotationValue, startsWith_map]
  split
  · exact (group_follows _ _ _).drop
  · rfl

theorem annotationStep_follows (ts : List Token) :
    Follows g (MovedTokens g) (annotationStep ts) (annotationStep (ts.map (Token.move g))) := by
  refine (expect_follows _ _ ts).bind ?_
  rintro ⟨_, r₁⟩ ⟨_, _⟩ - ⟨-, rfl⟩
  refine (expectName_follows _ r₁).bind ?_
  rintro ⟨_, r₂⟩ ⟨_, _⟩ - ⟨-, rfl⟩
  refine (annotationTail_follows r₂).bind ?_
  rintro r₃ _ - rfl
  exact annotationValue_follows r₃

theorem annotations_follows (ts : List Token) :
    Follows g (MovedTokens g) (annotations ts) (annotations (ts.map (Token.move g))) := by
  fun_induction annotations ts with
  | case1 ts hat f hstep =>
    obtain ⟨f', hstep', hf⟩ := (annotationStep_follows (g := g) ts).error hstep
    rw [annotations, startsWith_map, if_pos hat]
    split
    · next he =>
      rw [hstep'] at he
      cases he
      exact hf
    · next he => rw [hstep'] at he; cases he
  | case2 ts hat rest hstep _ ih =>
    obtain ⟨_, hstep', rfl⟩ := (annotationStep_follows (g := g) ts).ok hstep
    rw [annotations_step (by rwa [startsWith_map]) hstep']
    exact ih
  | case3 ts hat =>
    rw [annotations, startsWith_map, if_neg hat]
    rfl

/-! ## Types -/

theorem leadingType_map (ts : List Token) : leadingType (ts.map (Token.move g)) =
    ((leadingType ts).1, (leadingType ts).2.map (Token.move g)) := by
  rcases ts with _ | ⟨a, _ | ⟨b, _ | ⟨c, ts⟩⟩⟩
  · rfl
  · by_cases ha : a.isName <;> simp [leadingType, ha]
  · by_cases ha : a.isName <;> simp [leadingType, ha]
  · by_cases ha : a.isName
    · by_cases hbc : (b.is ":" && c.isName) = true <;> simp [leadingType, ha, hbc]
    · simp [leadingType, ha]

/-! ## Parameters -/

/-- The results are related by `R`; the token that closes what was read and those after it are moved. -/
def BesideClose {α β : Type} (g : Nat → Nat) (R : α → β → Prop) (p : α × Token × List Token)
    (q : β × Token × List Token) : Prop :=
  R p.1 q.1 ∧ Beside g (MovedToken g) p.2 q.2

/-- Both have the same shape. -/
def Alike {α σ : Type} (shape : α → σ) (a b : α) : Prop := shape b = shape a

theorem paramTokens_follows (stack : List Delimiter) (ts : List Token) :
    Follows g (BesideClose g (MovedTokens g)) (paramTokens stack ts)
      (paramTokens stack (ts.map (Token.move g))) := by
  fun_induction paramTokens stack ts with
  | case1 => rfl
  | case2 stack t rest hs =>
    simp [paramTokens, hs, Follows, BesideClose, Beside, MovedTokens, MovedToken]
  | case3 stack t rest hs f hn =>
    obtain ⟨rfl, hn'⟩ := nest_move_error (g := g) hn
    simp [paramTokens, hs, hn', Follows, Failure.MovedTo]
  | case4 stack t rest hs stack' hn f hrec ih =>
    obtain ⟨f', hrec', hf⟩ := ih.error hrec
    simpa [paramTokens, hs, nest_move hn, hrec', Follows] using hf
  | case5 stack t rest hs stack' hn part stop rest' hrec ih =>
    obtain ⟨⟨_, _, _⟩, hrec', rfl, rfl, rfl⟩ := ih.ok hrec
    simp [paramTokens, hs, nest_move hn, hrec', Follows, BesideClose, Beside, MovedTokens, MovedToken]

/-- The texts enter a parameter only with the text of its type. -/
theorem param?_follows (text text' : List Char) (part : List Token) :
    Follows g (Alike (Option.map Param.shape)) (param? text part)
      (param? text' (part.map (Token.move g))) := by
  cases part with
  | nil => rfl
  | cons first more =>
    have hlast : ((first :: more).map (Token.move g)).getLast?.getD (first.move g) =
        ((first :: more).getLast?.getD first).move g := by
      rw [List.getLast?_map, List.getLast?_cons]
      rfl
    have hdecl := takeWhile_move g "=" (first :: more)
    rw [List.map_cons] at hlast hdecl
    simp only [List.map_cons, param?, hlast, hdecl, ← List.map_reverse, List.length_map, List.length_cons]
    generalize ((first :: more).takeWhile (!·.isPunct "=")).reverse = decl
    rcases decl with _ | ⟨name, _ | ⟨typeLast, front⟩⟩
    · exact ⟨_, rfl⟩
    · exact ⟨_, rfl⟩
    · simp only [List.map_cons]
      have hsame : (!(name.move g).isName || (typeLast.move g).text == ":") =
          (!name.isName || typeLast.text == ":") := rfl
      by_cases hbad : (!name.isName || typeLast.text == ":") = true
      · rw [if_pos hbad, if_pos (hsame.trans hbad)]
        exact ⟨_, rfl⟩
      · rw [if_neg hbad, if_neg (hsame ▸ hbad)]
        rfl

theorem paramsTail_follows (text text' : List Char) (ts : List Token) :
    Follows g (BesideClose g (Alike (List.map Param.shape))) (paramsTail text ts)
      (paramsTail text' (ts.map (Token.move g))) := by
  induction hn : ts.length using Nat.strong_induction_on generalizing ts with
  | _ n ih =>
    subst hn
    rw [paramsTail_eq, paramsTail_eq text']
    refine (paramTokens_follows [] ts).bind ?_
    rintro ⟨part, stop, rest⟩ ⟨_, _, _⟩ hpart ⟨rfl, rfl, rfl⟩
    refine (param?_follows text text' part).bind ?_
    rintro p p' - hp
    by_cases hclose : stop.isPunct ")" = true
    · simp only [Token.move_isPunct, hclose, if_true]
      refine ⟨?_, rfl, rfl⟩
      cases p <;> cases p' <;> simp_all [Alike]
    · simp only [Token.move_isPunct, hclose, Bool.false_eq_true, if_false]
      cases p with
      | none =>
        obtain rfl : p' = none := by simpa [Alike] using hp
        exact ⟨_, rfl⟩
      | some p =>
        obtain ⟨p', rfl, hshape⟩ : ∃ q, p' = some q ∧ q.shape = p.shape := by simpa [Alike] using hp
        refine (ih _ (paramTokens_length hpart) rest rfl).bind ?_
        rintro ⟨ps, close, rest'⟩ ⟨ps', _, _⟩ - ⟨hps, rfl, rfl⟩
        refine ⟨?_, rfl, rfl⟩
        simp only [Alike] at hps
        simp [Alike, hshape, hps]

theorem params_follows (text text' : List Char) (ts : List Token) :
    Follows g (Beside g (Alike fun p => p.1.map Param.shape)) (params text ts)
      (params text' (ts.map (Token.move g))) := by
  refine (expect_follows _ _ ts).bind ?_
  rintro ⟨_, r⟩ ⟨_, _⟩ - ⟨rfl, rfl⟩
  refine (paramsTail_follows text text' r).bind ?_
  rintro ⟨ps, close, rest⟩ ⟨ps', _, _⟩ - ⟨hps, rfl, rfl⟩
  exact ⟨hps, rfl⟩

/-! ## Members -/

theorem qualifiers_map (ts : List Token) : qualifiers (ts.map (Token.move g)) =
    ((qualifiers ts).1.map (Token.move g), (qualifiers ts).2.map (Token.move g)) := by
  have hany : ∀ t : Token, memberQualifiers.any (t.move g).is = memberQualifiers.any t.is := fun _ => rfl
  fun_induction qualifiers ts with
  | case1 => rfl
  | case2 t rest hq found rest' he ih =>
    rw [he] at ih
    simp [qualifiers, hany, hq, ih]
  | case3 t rest hq => simp [qualifiers, hany, hq]

theorem field_follows (first : Token) (ts : List Token) :
    Follows g (Beside g (Alike Member.shape)) (field first ts)
      (field (first.move g) (ts.map (Token.move g))) := by
  refine (semicolon_follows _ _ ts).bind ?_
  rintro ⟨semi, rest⟩ ⟨_, _⟩ - ⟨rfl, rfl⟩
  have hname := fieldName_move g (passed ts rest).dropLast none 0
  rw [Option.map_none, List.map_dropLast] at hname
  refine ⟨?_, rfl⟩
  simp [Alike, Member.shape, MemberBody.shape, hname]

theorem nameTail_follows (quals : List String) (ts : List Token) :
    Follows g (Beside g (MovedTokens g)) (nameTail quals ts)
      (nameTail quals (ts.map (Token.move g))) := by
  simp only [nameTail, resourcePath, List.dropWhile_map, List.takeWhile_map]
  have hparen : ((fun t : Token => !t.is "(") ∘ Token.move g) = fun t => !t.is "(" := rfl
  rw [hparen]
  split
  · cases ts.dropWhile (!·.is "(") with
    | nil => rfl
    | cons t rest => exact ⟨rfl, rfl⟩
  · exact ⟨rfl, rfl⟩

theorem functionEnd_follows (ts : List Token) :
    Follows g (Beside g (MovedToken g)) (functionEnd ts) (functionEnd (ts.map (Token.move g))) := by
  refine (upTo_follows (fun _ => rfl) _ _ ts).bind ?_
  rintro rest _ - rfl
  cases rest with
  | nil => rfl
  | cons t tail =>
    simp only [List.map_cons, Token.move_is]
    split
    · exact ⟨rfl, rfl⟩
    · exact group_follows _ _ (t :: tail)

theorem function_follows (text text' : List Char) (first : Token) (quals : List String) (ts : List Token) :
    Follows g (Beside g (Alike Member.shape)) (function text first quals ts)
      (function text' (first.move g) quals (ts.map (Token.move g))) := by
  refine (expect_follows _ _ ts).bind ?_
  rintro ⟨_, r₁⟩ ⟨_, _⟩ - ⟨-, rfl⟩
  refine (expectName_follows _ r₁).bind ?_
  rintro ⟨name, r₂⟩ ⟨_, _⟩ - ⟨rfl, rfl⟩
  refine (nameTail_follows quals r₂).bind ?_
  rintro ⟨path, r₃⟩ ⟨_, _⟩ - ⟨rfl, rfl⟩
  refine (params_follows text text' r₃).bind ?_
  rintro ⟨⟨ps, span⟩, r₄⟩ ⟨⟨ps', span'⟩, _⟩ - ⟨hps, rfl⟩
  refine (functionEnd_follows r₄).bind ?_
  rintro ⟨last, r₅⟩ ⟨_, _⟩ - ⟨rfl, rfl⟩
  refine ⟨?_, rfl⟩
  simp only [Alike] at hps
  simp [Alike, Member.shape, MemberBody.shape, Method.shape, Method.map, Span.map, hps, Function.comp_def]

theorem member_follows (text text' : List Char) (ts : List Token) :
    Follows g (Beside g (Alike Member.shape)) (member text ts)
      (member text' (ts.map (Token.move g))) := by
  refine (annotations_follows ts).bind ?_
  rintro rest _ - rfl
  cases rest with
  | nil => rfl
  | cons first tail =>
    have hquals := qualifiers_map (g := g) (first :: tail)
    rw [List.map_cons] at hquals ⊢
    simp only [hquals, startsWith_map]
    split
    · have hfun := function_follows (g := g) text text' first ((qualifiers (first :: tail)).1.map (·.text))
        (qualifiers (first :: tail)).2
      simpa [Function.comp_def] using hfun
    · exact field_follows first _

theorem members_follows (text text' : List Char) (ts : List Token) :
    Follows g (BesideClose g (Alike (List.map Member.shape))) (members text ts)
      (members text' (ts.map (Token.move g))) := by
  induction hn : ts.length using Nat.strong_induction_on generalizing ts with
  | _ n ih =>
    subst hn
    cases ts with
    | nil => simp [members, Follows, Failure.MovedTo]
    | cons t tail =>
      rw [List.map_cons, members_eq, members_eq text', Token.move_is, ← List.map_cons]
      split
      · exact ⟨rfl, rfl, rfl⟩
      · refine (member_follows text text' (t :: tail)).bind ?_
        rintro ⟨m, rest⟩ ⟨m', _⟩ hm ⟨hshape, rfl⟩
        refine (ih _ (member_length hm) rest rfl).bind ?_
        rintro ⟨ms, close, rest'⟩ ⟨ms', _, _⟩ - ⟨hms, rfl, rfl⟩
        refine ⟨?_, rfl, rfl⟩
        simp only [Alike] at hshape hms
        simp [Alike, hshape, hms]

/-! ## Imports -/

theorem pathTail_follows (ts : List Token) :
    Follows g (Beside g Eq) (pathTail ts) (pathTail (ts.map (Token.move g))) := by
  fun_induction pathTail ts with
  | case1 dot name rest hdot hname f hrec ih =>
    obtain ⟨f', hrec', hf⟩ := ih.error hrec
    simpa [pathTail, hdot, hname, hrec', Follows] using hf
  | case2 dot name rest hdot hname names rest' hrec ih =>
    obtain ⟨⟨_, _⟩, hrec', rfl, rfl⟩ := ih.ok hrec
    simp [pathTail, hdot, hname, hrec', Follows, Beside]
  | case3 dot name rest hdot hname => simp [pathTail, hdot, hname, Follows, Failure.MovedTo]
  | case4 dot name rest hdot => simp [pathTail, hdot, Follows, Beside]
  | case5 dot hdot => simp [pathTail, hdot, Follows, Failure.MovedTo]
  | case6 dot hdot => simp [pathTail, hdot, Follows, Beside]
  | case7 => exact ⟨rfl, rfl⟩

theorem orgPart_follows (first : Token) (ts : List Token) :
    Follows g (Beside g Eq) (orgPart first ts) (orgPart (first.move g) (ts.map (Token.move g))) := by
  simp only [orgPart, startsWith_map, ← List.map_tail]
  split
  · refine (expectName_follows _ _).bind ?_
    rintro ⟨name, rest⟩ ⟨_, _⟩ - ⟨rfl, rfl⟩
    exact ⟨rfl, rfl⟩
  · exact ⟨rfl, rfl⟩

theorem aliasPart_follows (ts : List Token) :
    Follows g (Beside g Eq) (aliasPart ts) (aliasPart (ts.map (Token.move g))) := by
  simp only [aliasPart, startsWith_map, ← List.map_tail]
  split
  · refine (expectName_follows _ _).bind ?_
    rintro ⟨name, rest⟩ ⟨_, _⟩ - ⟨rfl, rfl⟩
    exact ⟨rfl, rfl⟩
  · exact ⟨rfl, rfl⟩

theorem importDecl_follows (ts : List Token) :
    Follows g (Beside g (Alike (Import.map fun _ => 0))) (importDecl ts)
      (importDecl (ts.map (Token.move g))) := by
  refine (expect_follows _ _ ts).bind ?_
  rintro ⟨keyword, r₁⟩ ⟨_, _⟩ - ⟨rfl, rfl⟩
  refine (expectName_follows _ r₁).bind ?_
  rintro ⟨first, r₂⟩ ⟨_, _⟩ - ⟨rfl, rfl⟩
  refine (orgPart_follows first r₂).bind ?_
  rintro ⟨⟨org, head⟩, r₃⟩ ⟨_, _⟩ - ⟨rfl, rfl⟩
  refine (pathTail_follows r₃).bind ?_
  rintro ⟨path, r₄⟩ ⟨_, _⟩ - ⟨rfl, rfl⟩
  refine (aliasPart_follows r₄).bind ?_
  rintro ⟨alias?, r₅⟩ ⟨_, _⟩ - ⟨rfl, rfl⟩
  refine (expect_follows _ _ r₅).bind ?_
  rintro ⟨semi, r₆⟩ ⟨_, _⟩ - ⟨rfl, rfl⟩
  exact ⟨rfl, rfl⟩

/-! ## Listeners -/

theorem listenerHead_follows (ts : List Token) :
    Follows g (Beside g fun p q => q = (p.1.move g, p.2)) (listenerHead ts)
      (listenerHead (ts.map (Token.move g))) := by
  have hequals : ((fun t : Token => !t.is "=") ∘ Token.move g) = fun t => !t.is "=" := rfl
  simp only [listenerHead, List.dropWhile_map, List.takeWhile_map, hequals, ← List.map_reverse]
  cases ts.dropWhile (!·.is "=") with
  | nil => rfl
  | cons equals rest =>
    cases (ts.takeWhile (!·.is "=")).reverse with
    | nil => exact ⟨_, rfl⟩
    | cons name type =>
      simp only [List.map_cons, ← List.map_reverse, typeRef?_move]
      exact ⟨rfl, rfl⟩

theorem initialType_map (ts : List Token) : initialType (ts.map (Token.move g)) =
    ((initialType ts).1, (initialType ts).2.map (Token.move g)) := by
  simp only [initialType, startsWith_map, ← List.map_tail, leadingType_map]
  split <;> rfl

theorem listenerDecl_follows (start : Nat) (ts : List Token) :
    Follows g (Beside g (Alike (Listener.map fun _ => 0))) (listenerDecl start ts)
      (listenerDecl (g start) (ts.map (Token.move g))) := by
  refine (expect_follows _ _ ts).bind ?_
  rintro ⟨_, r₁⟩ ⟨_, _⟩ - ⟨-, rfl⟩
  refine (listenerHead_follows r₁).bind ?_
  rintro ⟨⟨name, declared⟩, r₂⟩ ⟨_, _⟩ - ⟨rfl, rfl⟩
  refine (expect_follows _ _ r₂).bind ?_
  rintro ⟨_, r₃⟩ ⟨_, _⟩ - ⟨-, rfl⟩
  simp only [initialType_map]
  refine (semicolon_follows _ _ (initialType r₃).2).bind ?_
  rintro ⟨semi, r₄⟩ ⟨_, _⟩ - ⟨rfl, rfl⟩
  exact ⟨rfl, rfl⟩

/-! ## Services -/

theorem serviceHead_follows (ts : List Token) :
    Follows g (Beside g (MovedTokens g)) (serviceHead ts) (serviceHead (ts.map (Token.move g))) := by
  have hstop : ((fun t : Token => !t.is "on" && !t.isPunct "\x7b") ∘ Token.move g) =
      fun t => !t.is "on" && !t.isPunct "\x7b" := rfl
  simp only [serviceHead, List.dropWhile_map, List.takeWhile_map, hstop]
  cases ts.dropWhile (fun t => !t.is "on" && !t.isPunct "\x7b") with
  | nil => rfl
  | cons t rest =>
    by_cases hon : t.is "on" = true
    · simp only [List.map_cons, Token.move_is, hon, if_true]
      exact ⟨rfl, rfl⟩
    · simp only [List.map_cons, Token.move_is, hon, Bool.false_eq_true, if_false]
      exact ⟨_, rfl⟩

theorem classify_alike (first : Token) (more : List Token) :
    Alike (AttachPoint.map fun _ => 0) (classify first more)
      (classify (first.move g) (more.map (Token.move g))) := by
  have htake : typeRef? ((more.map (Token.move g)).takeWhile (·.text != "(")) =
      typeRef? (more.takeWhile (·.text != "(")) := by
    rw [List.takeWhile_map, typeRef?_move]
    rfl
  simp only [Alike, classify, List.isEmpty_map, Token.move_kind, Token.move_text, htake]
  split
  · rfl
  · split <;> rfl

theorem attachPoint_follows (ts : List Token) :
    Follows g (Beside g (Alike (AttachPoint.map fun _ => 0))) (attachPoint ts)
      (attachPoint (ts.map (Token.move g))) := by
  refine (upTo_follows (fun _ => rfl) _ _ ts).bind ?_
  rintro rest _ - rfl
  rw [passed_map]
  cases passed ts rest with
  | cons first more => exact ⟨classify_alike first more, rfl⟩
  | nil => cases rest <;> exact ⟨_, rfl⟩

theorem attachPoints_follows (ts : List Token) :
    Follows g (Beside g (Alike (List.map (AttachPoint.map fun _ => 0)))) (attachPoints ts)
      (attachPoints (ts.map (Token.move g))) := by
  induction hn : ts.length using Nat.strong_induction_on generalizing ts with
  | _ n ih =>
    subst hn
    rw [attachPoints_eq, attachPoints_eq (ts.map _)]
    refine (attachPoint_follows ts).bind ?_
    rintro ⟨a, rest⟩ ⟨a', _⟩ ha ⟨hshape, rfl⟩
    simp only [Alike] at hshape
    simp only [startsWith_map, ← List.map_tail]
    split
    · have hlt : rest.tail.length < ts.length :=
        Nat.lt_of_le_of_lt (by simp) (attachPoint_length ha)
      refine (ih _ hlt rest.tail rfl).bind ?_
      rintro ⟨as, rest'⟩ ⟨as', _⟩ - ⟨has, rfl⟩
      refine ⟨?_, rfl⟩
      simp only [Alike] at has
      simp [Alike, hshape, has]
    · exact ⟨by simp [Alike, hshape], rfl⟩

/-- The texts enter a service only with the text of its type. -/
theorem serviceDecl_follows (text text' : List Char) (start : Nat) (ts : List Token) :
    Follows g (Beside g (Alike Service.shape)) (serviceDecl text start ts)
      (serviceDecl text' (g start) (ts.map (Token.move g))) := by
  refine (expect_follows _ _ ts).bind ?_
  rintro ⟨_, r₁⟩ ⟨_, _⟩ - ⟨-, rfl⟩
  refine (serviceHead_follows r₁).bind ?_
  rintro ⟨type, r₂⟩ ⟨_, _⟩ - ⟨rfl, rfl⟩
  refine (expect_follows _ _ r₂).bind ?_
  rintro ⟨_, r₃⟩ ⟨_, _⟩ - ⟨-, rfl⟩
  refine (attachPoints_follows r₃).bind ?_
  rintro ⟨as, r₄⟩ ⟨as', _⟩ - ⟨has, rfl⟩
  refine (expect_follows _ _ r₄).bind ?_
  rintro ⟨openBrace, r₅⟩ ⟨_, _⟩ - ⟨rfl, rfl⟩
  refine (members_follows text text' r₅).bind ?_
  rintro ⟨ms, close, r₆⟩ ⟨ms', _, _⟩ - ⟨hms, rfl, rfl⟩
  refine ⟨?_, rfl⟩
  simp only [Alike] at has hms
  simp [Alike, Service.shape, Service.map, Span.map, has, hms]

/-! ## Declarations -/

theorem afterQualifiers_map (ts : List Token) :
    afterQualifiers (ts.map (Token.move g)) = (afterQualifiers ts).map (Token.move g) := by
  rw [afterQualifiers, List.dropWhile_map]
  rfl

theorem declaration_follows (text text' : List Char) (first : Token) (tail : List Token) :
    Follows g (Beside g (Alike (Option.map Decl.shape))) (declaration text first tail)
      (declaration text' (first.move g) (tail.map (Token.move g))) := by
  have hafter : afterQualifiers (first.move g :: tail.map (Token.move g)) =
      (afterQualifiers (first :: tail)).map (Token.move g) := afterQualifiers_map (first :: tail)
  simp only [declaration, hafter, startsWith_map, List.length_map, ← List.map_tail, Token.move_start]
  generalize afterQualifiers (first :: tail) = rest
  split
  · refine (importDecl_follows rest).bind ?_
    rintro ⟨d, r⟩ ⟨d', _⟩ - ⟨hd, rfl⟩
    exact ⟨congrArg (some ∘ Decl.importDecl) hd, rfl⟩
  · split
    · refine (listenerDecl_follows first.start rest).bind ?_
      rintro ⟨d, r⟩ ⟨d', _⟩ - ⟨hd, rfl⟩
      exact ⟨congrArg (some ∘ Decl.listenerDecl) hd, rfl⟩
    · split
      · refine (serviceDecl_follows text text' first.start rest).bind ?_
        rintro ⟨s, r⟩ ⟨s', _⟩ - ⟨hs, rfl⟩
        exact ⟨congrArg (some ∘ Decl.serviceDecl) hs, rfl⟩
      · refine (construct_follows [] rest).bind ?_
        rintro r _ - rfl
        exact ⟨rfl, rfl⟩

/-- Over the same words both texts are read to modules of one shape, or reading fails at the same
tokens. -/
theorem declarations_follows (text text' : List Char) (ts : List Token) :
    Follows g (Alike (List.map Decl.shape)) (declarations text ts)
      (declarations text' (ts.map (Token.move g))) := by
  induction hn : ts.length using Nat.strong_induction_on generalizing ts with
  | _ n ih =>
    subst hn
    cases ts with
    | nil => simp [declarations, Follows, Alike]
    | cons t tail =>
      rw [List.map_cons, declarations_eq, declarations_eq text', Token.move_is, ← List.map_cons]
      split
      · refine (annotationStep_follows (t :: tail)).bind ?_
        rintro rest _ hstep rfl
        exact ih _ (annotationStep_length hstep) rest rfl
      · refine (declaration_follows text text' t tail).bind ?_
        rintro ⟨d, rest⟩ ⟨d', _⟩ hd ⟨hshape, rfl⟩
        refine (ih _ (declaration_length hd) rest rfl).bind ?_
        rintro ds ds' - hds
        show List.map Decl.shape (d'.toList ++ ds') = List.map Decl.shape (d.toList ++ ds)
        simp only [Alike] at hshape hds
        cases d <;> cases d' <;> simp_all

end Parse

end ServiceLint
