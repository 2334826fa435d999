import ServiceLint.Proofs.Source.Parse.Steps

/-!
# Balanced delimiters

`Balanced` says of tokens that their delimiters match, without a word on how this is found out. It is what
the stack of `Parse.nest` decides (`balanced_iff`): a balanced stretch leaves the stack as it was, whatever is
open around it (`Balanced.nestAll`), and tokens after which nothing is open consist of balanced stretches and
of what closes the delimiters that were open before (`closesAll_of_nestAll`).
-/
namespace ServiceLint

/-! ## Balanced tokens -/

/-- Every delimiter of the tokens has its match: each closing one closes the innermost open one, of its own
kind, and none is left open. -/
inductive Balanced : List Token → Prop
  | nil : Balanced []
  | plain {t : Token} {ts : List Token} (ho : t.opens? = none) (hc : t.closes? = none) (h : Balanced ts) :
      Balanced (t :: ts)
  | group {a b : Token} {d : Delimiter} {inner ts : List Token} (ha : a.opens? = some d)
      (hb : b.closes? = some d) (hi : Balanced inner) (h : Balanced ts) : Balanced (a :: (inner ++ b :: ts))

/-- The open delimiters after some tokens, innermost first; none when a closing one has no match. -/
def nestAll (stack : List Delimiter) : List Token → Option (List Delimiter)
  | [] => some stack
  | t :: ts => match Parse.nest stack t with
    | .ok stack' => nestAll stack' ts
    | .error _ => none

/-- A closing delimiter opens none. -/
theorem Token.opens?_of_closes? {t : Token} {d : Delimiter} (h : t.closes? = some d) : t.opens? = none := by
  simp only [Token.closes?, Token.isPunct] at h
  simp only [Token.opens?, Token.isPunct]
  grind

section Nesting

variable {stack stack' : List Delimiter} {t : Token} {ts us : List Token} {d : Delimiter}

theorem nestAll_cons (h : Parse.nest stack t = .ok stack') : nestAll stack (t :: ts) = nestAll stack' ts := by
  rw [nestAll, h]

theorem nest_plain (ho : t.opens? = none) (hc : t.closes? = none) : Parse.nest stack t = .ok stack := by
  simp [Parse.nest, ho, hc]

theorem nest_open (h : t.opens? = some d) : Parse.nest stack t = .ok (d :: stack) := by
  simp [Parse.nest, h]

theorem nest_close (h : t.closes? = some d) : Parse.nest (d :: stack) t = .ok stack := by
  simp [Parse.nest, Token.opens?_of_closes? h, h]

theorem nestAll_append : nestAll stack (ts ++ us) = (nestAll stack ts).bind fun s => nestAll s us := by
  induction ts generalizing stack with
  | nil => rfl
  | cons t ts ih =>
    rw [List.cons_append, nestAll, nestAll]
    cases Parse.nest stack t with
    | ok stack' => exact ih
    | error f => rfl

/-- A balanced stretch leaves the open delimiters as they were. -/
theorem Balanced.nestAll (h : Balanced ts) (stack : List Delimiter) : nestAll stack ts = some stack := by
  induction h generalizing stack with
  | nil => rfl
  | plain ho hc _ ih => rw [nestAll_cons (nest_plain ho hc), ih]
  | group ha hb _ _ ihi ih =>
    rw [nestAll_cons (nest_open ha), nestAll_append, ihi, Option.bind_some, nestAll_cons (nest_close hb), ih]

theorem Balanced.append (h : Balanced ts) (h' : Balanced us) : Balanced (ts ++ us) := by
  induction h with
  | nil => exact h'
  | plain ho hc _ ih => exact .plain ho hc ih
  | group ha hb hi _ _ ih =>
    rw [List.cons_append, List.append_assoc, List.cons_append]
    exact .group ha hb hi ih

/-- A balanced stretch, then the token that closes the innermost open delimiter, and so on for each of the
others, and a balanced stretch at the end. -/
def ClosesAll : List Delimiter → List Token → Prop
  | [], ts => Balanced ts
  | d :: stack, ts => ∃ inner b rest, ts = inner ++ b :: rest ∧ Balanced inner ∧ b.closes? = some d ∧
      ClosesAll stack rest

theorem ClosesAll.prepend (h : Balanced ts) (h' : ClosesAll stack us) : ClosesAll stack (ts ++ us) := by
  cases stack with
  | nil => exact h.append h'
  | cons d stack =>
    obtain ⟨inner, b, rest, rfl, hi, hb, hrest⟩ := h'
    exact ⟨ts ++ inner, b, rest, (List.append_assoc ..).symm, h.append hi, hb, hrest⟩

/-- Tokens that leave nothing open close what was open. -/
theorem closesAll_of_nestAll (h : nestAll stack ts = some []) : ClosesAll stack ts := by
  induction ts generalizing stack with
  | nil =>
    cases h
    exact .nil
  | cons t ts ih =>
    rw [nestAll] at h
    split at h
    · next stack₁ hnest =>
      have hnext := ih h
      rcases Parse.nest_cases hnest with ⟨d, ho, rfl⟩ | ⟨d, -, hc, rfl⟩ | ⟨ho, hc, rfl⟩
      · obtain ⟨inner, b, rest, rfl, hi, hb, hrest⟩ := hnext
        have hgroup : Balanced (t :: (inner ++ [b])) := .group ho hb hi .nil
        have := hrest.prepend hgroup
        rwa [List.cons_append, List.append_assoc] at this
      · exact ⟨[], t, ts, rfl, .nil, hc, hnext⟩
      · exact hnext.prepend (.plain ho hc .nil)
    · cases h

/-- The stack decides whether tokens are balanced. -/
theorem balanced_iff : Balanced ts ↔ nestAll [] ts = some [] :=
  ⟨fun h => h.nestAll [], closesAll_of_nestAll⟩

instance (ts : List Token) : Decidable (Balanced ts) := decidable_of_iff _ balanced_iff.symm

end Nesting

end ServiceLint
