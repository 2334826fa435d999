import Mathlib.Data.List.Basic
import Mathlib.Data.List.Induction
import ServiceLint.Proofs.Source.Balance
import ServiceLint.Proofs.Source.Layout
import ServiceLint.Proofs.Source.Parse.Faults

/-!
# Groups of tokens

A group is the shortest balanced word at the front of some tokens. Passing over a group needs a stack; what comes
of it is said here without one (`Parse.group_recognises`). There are three ways it can end: at the end of the group,
at the first closing delimiter that does not match, or at the end of the tokens. Which one it is depends on how long
the tokens stay `Unfinished`, since on unfinished tokens the loop goes on with the delimiters that they leave open
(`Parse.group_unfinished`).
-/
namespace ServiceLint

/-- The innermost delimiter that the tokens leave open: what follows it is balanced. -/
def InnermostOpen (ts : List Token) (d : Delimiter) : Prop :=
  ∃ front o inner, ts = front ++ o :: inner ∧ o.opens? = some d ∧ Balanced inner

/-- The token closes a delimiter, which is not the innermost one that the tokens before it leave open. -/
def Mismatches (before : List Token) (t : Token) : Prop :=
  ∃ d, t.closes? = some d ∧ ¬ InnermostOpen before d

/-- No closing delimiter among the tokens is a mismatch. -/
def Matched (ts : List Token) : Prop :=
  ∀ before t after, ts = before ++ t :: after → ¬ Mismatches before t

/-- A balanced word stands at the front of the tokens. -/
def Completes (ts : List Token) : Prop := ∃ word, word <+: ts ∧ word ≠ [] ∧ Balanced word

/-- The shortest balanced word at the front of the tokens. -/
structure IsGroup (word ts : List Token) : Prop where
  front : word <+: ts
  ne_nil : word ≠ []
  balanced : Balanced word
  shortest : ∀ p, p <+: ts → p ≠ [] → Balanced p → word.length ≤ p.length

/-- Nothing is wrong with the tokens so far, and no group is complete. -/
structure Unfinished (ts : List Token) : Prop where
  matched : Matched ts
  incomplete : ¬ Completes ts

variable {ts us before : List Token} {stack : List Delimiter} {t : Token} {d : Delimiter}

/-! ## The stack of open delimiters -/

theorem nestAll_concat (h : nestAll [] us = some stack) :
    nestAll [] (us ++ [t]) = (Parse.nest stack t).toOption := by
  rw [nestAll_append, h, Option.bind_some, nestAll]
  cases Parse.nest stack t with
  | ok stack' => rfl
  | error f => rfl

/-- The delimiter on top of the stack was opened by a token, and what follows that token is balanced. -/
theorem exists_open_of_nestAll (h : nestAll [] ts = some (d :: stack)) :
    ∃ front o inner, ts = front ++ o :: inner ∧ o.opens? = some d ∧ Balanced inner ∧
      nestAll [] front = some stack := by
  -- on the length: a closing delimiter leads back to before the one that it closes
  induction hn : ts.length using Nat.strong_induction_on generalizing ts d stack with
  | _ n ih =>
    obtain rfl | ⟨us, t, rfl⟩ := List.eq_nil_or_concat' ts
    · cases h
    · have hlen : us.length < n := by
        rw [← hn, List.length_append]
        simp
      obtain ⟨s, hus⟩ : ∃ s, nestAll [] us = some s := by
        rw [nestAll_append] at h
        obtain ⟨s, hs, -⟩ := Option.bind_eq_some_iff.1 h
        exact ⟨s, hs⟩
      rw [nestAll_concat hus] at h
      have hnest : Parse.nest s t = .ok (d :: stack) := eq_ok_of_toOption h
      rcases Parse.nest_cases hnest with ⟨d', ho, heq⟩ | ⟨d', -, hc, rfl⟩ | ⟨ho, hc, rfl⟩
      · obtain ⟨rfl, rfl⟩ := List.cons.inj heq
        exact ⟨us, t, [], rfl, ho, .nil, hus⟩
      · obtain ⟨front', o', inner', rfl, ho', hi', hfront'⟩ := ih us.length hlen hus rfl
        have hshort : front'.length < n := by
          rw [List.length_append] at hlen
          omega
        obtain ⟨front, o, inner, rfl, ho, hi, hfront⟩ := ih front'.length hshort hfront' rfl
        refine ⟨front, o, inner ++ o' :: (inner' ++ [t]), by simp, ho, ?_, hfront⟩
        exact hi.append (.group ho' hc hi' .nil)
      · obtain ⟨front, o, inner, rfl, ho', hi, hfront⟩ := ih us.length hlen hus rfl
        exact ⟨front, o, inner ++ [t], by simp, ho', hi.append (.plain ho hc .nil), hfront⟩

theorem innermostOpen_iff (h : nestAll [] ts = some stack) : InnermostOpen ts d ↔ stack.head? = some d := by
  constructor
  · rintro ⟨front, o, inner, rfl, ho, hi⟩
    rw [nestAll_append] at h
    obtain ⟨s, -, hs⟩ := Option.bind_eq_some_iff.1 h
    rw [nestAll_cons (nest_open ho), hi.nestAll] at hs
    obtain rfl := Option.some.inj hs
    rfl
  · intro hd
    obtain ⟨rest, rfl⟩ := List.head?_eq_some_iff.1 hd
    obtain ⟨front, o, inner, hts, ho, hi, -⟩ := exists_open_of_nestAll h
    exact ⟨front, o, inner, hts, ho, hi⟩

/-- A mismatch is what the stack refuses. -/
theorem mismatches_iff (h : nestAll [] us = some stack) :
    Mismatches us t ↔ Parse.nest stack t = .error (.unbalanced t) := by
  constructor
  · rintro ⟨d, hc, hno⟩
    rw [innermostOpen_iff h] at hno
    cases stack with
    | nil => simp [Parse.nest, Token.opens?_of_closes? hc, hc]
    | cons top rest =>
      have hne : top ≠ d := fun heq => hno (congrArg some heq)
      simp [Parse.nest, Token.opens?_of_closes? hc, hc, hne]
  · intro herror
    obtain ⟨-, hclose⟩ := Parse.nest_error herror
    obtain ⟨d, hc⟩ := Option.isSome_iff_exists.1 hclose
    refine ⟨d, hc, fun hopen => ?_⟩
    rw [innermostOpen_iff h] at hopen
    obtain ⟨rest, rfl⟩ := List.head?_eq_some_iff.1 hopen
    rw [nest_close hc] at herror
    cases herror

theorem matched_nil : Matched [] := by
  intro before t after h
  simp at h

theorem matched_concat : Matched (us ++ [t]) ↔ Matched us ∧ ¬ Mismatches us t := by
  constructor
  · intro h
    refine ⟨fun before u after hus => ?_, h us t [] rfl⟩
    exact h before u (after ++ [t]) (by rw [hus]; simp)
  · rintro ⟨h, ht⟩ before u after hsplit
    obtain rfl | ⟨after, x, rfl⟩ := List.eq_nil_or_concat' after
    · obtain ⟨rfl, hu⟩ := List.append_inj' hsplit rfl
      obtain rfl := List.singleton_inj.1 hu
      exact ht
    · rw [← List.cons_append, ← List.append_assoc] at hsplit
      exact h before u after (List.append_inj' hsplit rfl).1

/-- The stack decides whether all closing delimiters match. -/
theorem matched_iff : Matched ts ↔ ∃ stack, nestAll [] ts = some stack := by
  induction ts using List.reverseRecOn with
  | nil => exact ⟨fun _ => ⟨[], rfl⟩, fun _ => matched_nil⟩
  | append_singleton us t ih =>
    rw [matched_concat, ih]
    constructor
    · rintro ⟨⟨stack, hus⟩, ht⟩
      rw [nestAll_concat hus]
      cases hnest : Parse.nest stack t with
      | ok stack' => exact ⟨stack', rfl⟩
      | error f =>
        obtain ⟨rfl, -⟩ := Parse.nest_error hnest
        exact absurd ((mismatches_iff hus).2 hnest) ht
    · rintro ⟨stack', h⟩
      rw [nestAll_append] at h
      obtain ⟨stack, hus, -⟩ := Option.bind_eq_some_iff.1 h
      refine ⟨⟨stack, hus⟩, fun ht => ?_⟩
      rw [← nestAll_append, nestAll_concat hus, (mismatches_iff hus).1 ht] at h
      cases h

theorem Balanced.matched (h : Balanced ts) : Matched ts := matched_iff.2 ⟨[], balanced_iff.1 h⟩

/-! ## Unfinished tokens -/

theorem unfinished_nil : Unfinished [] := by
  refine ⟨matched_nil, ?_⟩
  rintro ⟨word, hword, hne, -⟩
  exact hne (List.prefix_nil.1 hword)

theorem Unfinished.of_concat (h : Unfinished (us ++ [t])) : Unfinished us := by
  refine ⟨(matched_concat.1 h.matched).1, ?_⟩
  rintro ⟨word, hword, hne, hbalanced⟩
  exact h.incomplete ⟨word, hword.trans (List.prefix_append us [t]), hne, hbalanced⟩

/-- One more token leaves the tokens unfinished, or it is a mismatch, or it completes a group. -/
theorem Unfinished.concat (h : Unfinished us) (ht : ¬ Mismatches us t) (hbalanced : ¬ Balanced (us ++ [t])) :
    Unfinished (us ++ [t]) := by
  refine ⟨matched_concat.2 ⟨h.matched, ht⟩, ?_⟩
  rintro ⟨word, hword, hne, hw⟩
  rcases List.prefix_concat_iff.1 hword with rfl | hword
  · exact hbalanced hw
  · exact h.incomplete ⟨word, hword, hne, hw⟩

/-- Unfinished tokens leave a delimiter open. -/
theorem Unfinished.stack_ne_nil (h : Unfinished ts) (hne : ts ≠ []) (hs : nestAll [] ts = some stack) :
    stack ≠ [] := by
  rintro rfl
  exact h.incomplete ⟨ts, List.prefix_rfl, hne, balanced_iff.2 hs⟩

/-- Tokens are unfinished up to their end, or up to a mismatch, or up to the end of a group. -/
theorem unfinished_or (ts : List Token) :
    Unfinished ts ∨ ∃ before t after, ts = before ++ t :: after ∧ Unfinished before ∧
      (Mismatches before t ∨ Balanced (before ++ [t])) := by
  induction ts using List.reverseRecOn with
  | nil => exact Or.inl unfinished_nil
  | append_singleton us t ih =>
    rcases ih with h | ⟨before, u, after, rfl, h, hend⟩
    · by_cases ht : Mismatches us t
      · exact Or.inr ⟨us, t, [], rfl, h, Or.inl ht⟩
      · by_cases hbalanced : Balanced (us ++ [t])
        · exact Or.inr ⟨us, t, [], rfl, h, Or.inr hbalanced⟩
        · exact Or.inl (h.concat ht hbalanced)
    · exact Or.inr ⟨before, u, after ++ [t], by simp, h, hend⟩

/-- A group is complete with its last token and not before. -/
theorem isGroup_concat : IsGroup (us ++ [t]) ts ↔
    us ++ [t] <+: ts ∧ Unfinished us ∧ Balanced (us ++ [t]) := by
  constructor
  · intro h
    refine ⟨h.front, ⟨(matched_concat.1 h.balanced.matched).1, ?_⟩, h.balanced⟩
    rintro ⟨word, hword, hne, hw⟩
    have hfront := hword.trans (List.prefix_append us [t])
    have hshort := h.shortest word (hfront.trans h.front) hne hw
    have := hword.length_le
    rw [List.length_append, List.length_singleton] at hshort
    omega
  · rintro ⟨hfront, hus, hbalanced⟩
    refine ⟨hfront, by simp, hbalanced, fun p hp hne hpb => ?_⟩
    by_contra hlt
    rw [List.length_append, List.length_singleton] at hlt
    have hin : p <+: us :=
      List.prefix_of_prefix_length_le hp ((List.prefix_append us [t]).trans hfront) (by omega)
    exact hus.incomplete ⟨p, hin, hne, hpb⟩

/-! ## Passing over a group -/

namespace Parse

variable {e : Expectation} {rest : List Token}

/-- On unfinished tokens the loop goes on with the delimiters that they leave open. -/
theorem group_unfinished (h : Unfinished us) (hs : nestAll [] us = some stack) :
    group e [] (us ++ rest) = group e stack rest := by
  induction us using List.reverseRecOn generalizing stack rest with
  | nil =>
    cases hs
    rfl
  | append_singleton us t ih =>
    obtain ⟨s, hus⟩ := matched_iff.1 h.of_concat.matched
    have hne := h.stack_ne_nil (by simp) hs
    rw [nestAll_concat hus] at hs
    rw [List.append_assoc, List.singleton_append, ih h.of_concat hus, group, eq_ok_of_toOption hs]
    simp [hne]

theorem group_of_unfinished (h : Unfinished ts) : group e [] ts = .error (.endOfText e) := by
  obtain ⟨stack, hs⟩ := matched_iff.1 h.matched
  have hgroup : group e [] (ts ++ []) = group e stack [] := group_unfinished h hs
  rwa [List.append_nil] at hgroup

theorem group_of_mismatch (h : Unfinished us) (ht : Mismatches us t) :
    group e [] (us ++ t :: rest) = .error (.unbalanced t) := by
  obtain ⟨stack, hs⟩ := matched_iff.1 h.matched
  rw [group_unfinished h hs, group, (mismatches_iff hs).1 ht]

/-- A group that starts with an opening delimiter ends with a closing one. -/
theorem group_of_balanced {first : Token} {more : List Token} (hopen : first.opens?.isSome = true)
    (htokens : first :: more = us ++ t :: rest) (h : Unfinished us) (hbalanced : Balanced (us ++ [t])) :
    group e [] (us ++ t :: rest) = .ok (t, rest) := by
  obtain ⟨stack, hs⟩ := matched_iff.1 h.matched
  have hlast := balanced_iff.1 hbalanced
  rw [nestAll_concat hs] at hlast
  have hnest : nest stack t = .ok [] := eq_ok_of_toOption hlast
  rw [group_unfinished h hs, group, hnest]
  rcases nest_cases hnest with ⟨d, -, hcons⟩ | ⟨d, -, hc, rfl⟩ | ⟨ho, -, rfl⟩
  · cases hcons
  · simp [hc]
  · -- a group without delimiters does not start with an opening one
    cases us with
    | nil =>
      obtain ⟨rfl, -⟩ := List.cons.inj htokens
      simp [ho] at hopen
    | cons u us => exact absurd rfl (h.stack_ne_nil (by simp) hs)

section

variable {first : Token} {more : List Token} (hopen : first.opens?.isSome = true)
include hopen

/-- The three ends that passing over a group can come to. -/
theorem group_cases (e : Expectation) :
    (Unfinished (first :: more) ∧ group e [] (first :: more) = .error (.endOfText e)) ∨
    (∃ us t after, first :: more = us ++ t :: after ∧ Unfinished us ∧ Mismatches us t ∧
      group e [] (first :: more) = .error (.unbalanced t)) ∨
    (∃ us t after, first :: more = us ++ t :: after ∧ Unfinished us ∧ Balanced (us ++ [t]) ∧
      group e [] (first :: more) = .ok (t, after)) := by
  rcases unfinished_or (first :: more) with h | ⟨us, t, after, hsplit, h, ht | hbalanced⟩
  · exact Or.inl ⟨h, group_of_unfinished h⟩
  · refine Or.inr (Or.inl ⟨us, t, after, hsplit, h, ht, ?_⟩)
    rw [hsplit, group_of_mismatch h ht]
  · refine Or.inr (Or.inr ⟨us, t, after, hsplit, h, hbalanced, ?_⟩)
    have hgroup := group_of_balanced (e := e) hopen hsplit h hbalanced
    rw [hsplit, hgroup]

theorem group_eq_ok_iff {closer : Token} : group e [] (first :: more) = .ok (closer, rest) ↔
    ∃ body, first :: more = body ++ closer :: rest ∧ IsGroup (body ++ [closer]) (first :: more) := by
  constructor
  · intro h
    rcases group_cases hopen e with ⟨-, herror⟩ | ⟨_, _, _, -, -, -, herror⟩ | ⟨us, t, after, hsplit, hus, hb, hok⟩
    · rw [herror] at h
      cases h
    · rw [herror] at h
      cases h
    · rw [hok] at h
      cases h
      have hfront : us ++ [closer] <+: first :: more := ⟨rest, by rw [hsplit]; simp⟩
      exact ⟨us, hsplit, isGroup_concat.2 ⟨hfront, hus, hb⟩⟩
  · rintro ⟨body, hsplit, hgroup⟩
    obtain ⟨-, hbody, hb⟩ := isGroup_concat.1 hgroup
    rw [hsplit]
    exact group_of_balanced hopen hsplit hbody hb

theorem group_eq_unbalanced_iff : group e [] (first :: more) = .error (.unbalanced t) ↔
    ∃ before after, first :: more = before ++ t :: after ∧ Mismatches before t ∧ Matched before ∧
      ¬ Completes before := by
  constructor
  · intro h
    rcases group_cases hopen e with ⟨-, herror⟩ | ⟨us, u, after, hsplit, hus, hu, herror⟩ | ⟨_, _, _, -, -, -, hok⟩
    · rw [herror] at h
      cases h
    · rw [herror] at h
      cases h
      exact ⟨us, after, hsplit, hu, hus.matched, hus.incomplete⟩
    · rw [hok] at h
      cases h
  · rintro ⟨before, after, hsplit, ht, hmatched, hincomplete⟩
    rw [hsplit]
    exact group_of_mismatch ⟨hmatched, hincomplete⟩ ht

theorem group_eq_endOfText_iff : group e [] (first :: more) = .error (.endOfText e) ↔
    Matched (first :: more) ∧ ¬ Completes (first :: more) ∧ ∃ d, InnermostOpen (first :: more) d := by
  constructor
  · intro h
    rcases group_cases hopen e with ⟨hall, -⟩ | ⟨_, _, _, -, -, -, herror⟩ | ⟨_, _, _, -, -, -, hok⟩
    · obtain ⟨stack, hs⟩ := matched_iff.1 hall.matched
      obtain ⟨d, rest, rfl⟩ := List.exists_cons_of_ne_nil (hall.stack_ne_nil (by simp) hs)
      exact ⟨hall.matched, hall.incomplete, d, (innermostOpen_iff hs).2 rfl⟩
    · rw [herror] at h
      cases h
    · rw [hok] at h
      cases h
  · rintro ⟨hmatched, hincomplete, -⟩
    exact group_of_unfinished ⟨hmatched, hincomplete⟩

/-- What passing over a group comes to, from an opening delimiter on. It ends with a token, and the tokens after it
are left, exactly when the tokens up to that one are the shortest balanced word at the front. It complains about a
token exactly when that one is the first closing delimiter that does not match the innermost open one, and no group
was complete before. It asks for more exactly when all tokens have been passed without a mismatch and without a
complete group, so that a delimiter is still open. -/
theorem group_recognises (e : Expectation) :
    (∀ closer rest, group e [] (first :: more) = .ok (closer, rest) ↔
      ∃ body, first :: more = body ++ closer :: rest ∧ IsGroup (body ++ [closer]) (first :: more)) ∧
    (∀ t, group e [] (first :: more) = .error (.unbalanced t) ↔
      ∃ before after, first :: more = before ++ t :: after ∧ Mismatches before t ∧ Matched before ∧
        ¬ Completes before) ∧
    (group e [] (first :: more) = .error (.endOfText e) ↔
      Matched (first :: more) ∧ ¬ Completes (first :: more) ∧ ∃ d, InnermostOpen (first :: more) d) :=
  ⟨fun _ _ => group_eq_ok_iff hopen, fun _ => group_eq_unbalanced_iff hopen, group_eq_endOfText_iff hopen⟩

end

/-- Braces around a call with an index, and what follows them; and the same with a bracket that closes the
parenthesis of the call. -/
theorem group_recognises_nested : ∃ first more wrong,
    tokenize "\x7bf(a[0]);\x7d]".toList = .ok (first :: more) ∧
    tokenize "\x7bf(a[0]];\x7d]".toList = .ok (first :: wrong) ∧ first.opens?.isSome = true ∧
    (∃ body closer rest, first :: more = body ++ closer :: rest ∧ rest.map (·.text) = ["]"] ∧
      group .annotationValue [] (first :: more) = .ok (closer, rest) ∧ IsGroup (body ++ [closer]) (first :: more)) ∧
    ∃ before t after, first :: wrong = before ++ t :: after ∧ t.start = 7 ∧
      group .annotationValue [] (first :: wrong) = .error (.unbalanced t) ∧ Mismatches before t := by
  let call : List Token := [⟨.ident, 1, "f"⟩, ⟨.punct, 2, "("⟩, ⟨.ident, 3, "a"⟩, ⟨.punct, 4, "["⟩, ⟨.number, 5, "0"⟩,
    ⟨.punct, 6, "]"⟩]
  let tail : List Token := [⟨.punct, 8, ";"⟩, ⟨.punct, 9, "\x7d"⟩, ⟨.punct, 10, "]"⟩]
  let first : Token := ⟨.punct, 0, "\x7b"⟩
  have hmore : tokenize "\x7bf(a[0]);\x7d]".toList = .ok (first :: (call ++ ⟨.punct, 7, ")"⟩ :: tail)) :=
    eq_ok_of_toOption (by decide +kernel)
  have hwrong : tokenize "\x7bf(a[0]];\x7d]".toList = .ok (first :: (call ++ ⟨.punct, 7, "]"⟩ :: tail)) :=
    eq_ok_of_toOption (by decide +kernel)
  have hok : group .annotationValue [] (first :: (call ++ ⟨.punct, 7, ")"⟩ :: tail)) =
      .ok (⟨.punct, 9, "\x7d"⟩, [⟨.punct, 10, "]"⟩]) := rfl
  have herror : group .annotationValue [] (first :: (call ++ ⟨.punct, 7, "]"⟩ :: tail)) =
      .error (.unbalanced ⟨.punct, 7, "]"⟩) := rfl
  have hopen : first.opens?.isSome = true := rfl
  obtain ⟨body, hsplit, hgroup⟩ := ((group_recognises hopen .annotationValue).1 _ _).1 hok
  obtain ⟨before, after, hsplit', hmismatch, -⟩ :=
    ((group_recognises hopen .annotationValue).2.1 _).1 herror
  exact ⟨first, _, _, hmore, hwrong, hopen, ⟨body, _, _, hsplit, rfl, hok, hgroup⟩,
    before, _, after, hsplit', rfl, herror, hmismatch⟩

end Parse

end ServiceLint
