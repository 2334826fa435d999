import ServiceLint.Source.Parse.Param
import ServiceLint.Proofs.Source.Move
import ServiceLint.Proofs.Stretch

/-!
# What a parsing step reads

A parsing step reads an initial part of the tokens and leaves the rest. For each step, the theorem
`…_reads` names that part and says that the step does the same whatever comes after it, and wherever the
part is moved. A few steps look at the next token without reading it; they do the same when that token
is moved along.
-/
namespace ServiceLint

/-- A delimiter is closed by the mark of its kind. -/
theorem Token.isPunct_of_closes? {t : Token} {d : Delimiter} (h : t.closes? = some d) :
    d = .paren ∧ t.isPunct ")" = true ∨ d = .bracket ∧ t.isPunct "]" = true ∨
      d = .brace ∧ t.isPunct "\x7d" = true := by
  unfold Token.closes? at h
  split at h
  · next hs => cases h; exact Or.inl ⟨rfl, hs⟩
  · split at h
    · next hs => cases h; exact Or.inr (Or.inl ⟨rfl, hs⟩)
    · split at h
      · next hs => cases h; exact Or.inr (Or.inr ⟨rfl, hs⟩)
      · cases h

namespace Parse

/-! ## Single tokens -/

@[simp]
theorem startsWith_cons (s : String) (t : Token) (ts : List Token) :
    startsWith s (t :: ts) = t.is s := rfl

/-- Whether a list starts with a word depends on which word its first token is. -/
theorem startsWith_move {g : Nat → Nat} {s : String} {ts us : List Token}
    (h : us.head? = ts.head?.map (Token.move g)) : startsWith s us = startsWith s ts := by
  cases ts with
  | nil =>
    obtain rfl := List.head?_eq_none_iff.1 h
    rfl
  | cons t ts =>
    obtain ⟨us, rfl⟩ := List.head?_eq_some_iff.1 h
    rfl

/-- The first token of a moved list is the moved first token. -/
theorem head?_move_append {g : Nat → Nat} {rest rest' : List Token} (used : List Token)
    (h : rest'.head? = rest.head?.map (Token.move g)) :
    (used.map (Token.move g) ++ rest').head? = (used ++ rest).head?.map (Token.move g) := by
  cases used <;> simp [h]

theorem expect_eq_ok {s : String} {e : Expectation} {tokens rest : List Token} {t : Token} :
    expect s e tokens = .ok (t, rest) ↔ tokens = t :: rest ∧ t.is s = true := by
  cases tokens with
  | nil => simp [expect]
  | cons u us => by_cases h : u.is s <;> simp [expect, h] <;> rintro rfl <;> simp [h]

theorem expectName_eq_ok {e : Expectation} {tokens rest : List Token} {t : Token} :
    expectName e tokens = .ok (t, rest) ↔ tokens = t :: rest ∧ t.isName = true := by
  cases tokens with
  | nil => simp [expectName]
  | cons u us => by_cases h : u.isName <;> simp [expectName, h] <;> rintro rfl <;> simp [h]

/-- A word that was looked at, and the name after it. -/
theorem expectName_tail_eq_ok {s : String} {e : Expectation} {tokens rest : List Token} {name : Token}
    (hword : startsWith s tokens = true) (h : expectName e tokens.tail = .ok (name, rest)) :
    ∃ word, tokens = word :: name :: rest ∧ word.is s = true ∧ name.isName = true := by
  cases tokens with
  | nil => cases hword
  | cons word tail =>
    obtain ⟨rfl, hname⟩ := expectName_eq_ok.1 h
    exact ⟨word, rfl, hword, hname⟩

/-! ## Nested delimiters -/

/-- A token opens a delimiter, closes the innermost one, or is no delimiter. -/
theorem nest_cases {stack stack' : List Delimiter} {t : Token} (h : nest stack t = .ok stack') :
    (∃ d, t.opens? = some d ∧ stack' = d :: stack) ∨
    (∃ d, t.opens? = none ∧ t.closes? = some d ∧ stack = d :: stack') ∨
    (t.opens? = none ∧ t.closes? = none ∧ stack' = stack) := by
  unfold nest at h
  split at h
  · next d hd => cases h; exact Or.inl ⟨d, hd, rfl⟩
  · next ho =>
    split at h
    · next hc => cases h; exact Or.inr (Or.inr ⟨ho, hc, rfl⟩)
    · next d hd =>
      split at h
      · next top rest =>
        split at h
        · next htop => cases h; exact Or.inr (Or.inl ⟨d, ho, hd, by rw [htop]⟩)
        · cases h
      · cases h

/-- Where a token stands does not matter for what it opens and closes. -/
theorem nest_move {stack stack' : List Delimiter} {t : Token} (h : nest stack t = .ok stack')
    (g : Nat → Nat) : nest stack (t.move g) = .ok stack' := by
  simp only [nest, Token.move_opens?, Token.move_closes?]
  rcases nest_cases h with ⟨d, ho, rfl⟩ | ⟨d, ho, hc, rfl⟩ | ⟨ho, hc, rfl⟩
  · simp [ho]
  · simp [ho, hc]
  · simp [ho, hc]

theorem group_reads {e : Expectation} {stack : List Delimiter} {tokens rest : List Token} {t : Token}
    (h : group e stack tokens = .ok (t, rest)) :
    ∃ body, tokens = body ++ t :: rest ∧ ∀ g rest',
      group e stack (body.map (Token.move g) ++ t.move g :: rest') = .ok (t.move g, rest') := by
  fun_induction group e stack tokens with
  | case1 => cases h
  | case2 => cases h
  | case3 stack t rest stack' hn hc =>
    cases h
    exact ⟨[], rfl, fun g rest' => by simp [group, nest_move hn, hc]⟩
  | case4 stack u us stack' hn hc ih =>
    obtain ⟨body, rfl, hbody⟩ := ih h
    exact ⟨u :: body, rfl, fun g rest' => by simp [group, nest_move hn, hc, hbody]⟩

/-- A group is closed by the delimiter of the kind that opened it. -/
theorem group_closes {e : Expectation} {stack : List Delimiter} {tokens rest : List Token} {t : Token}
    {d : Delimiter} (hd : stack.getLast? = some d) (h : group e stack tokens = .ok (t, rest)) :
    t.closes? = some d := by
  fun_induction group e stack tokens with
  | case1 => cases h
  | case2 => cases h
  | case3 stack t rest stack' hn hc =>
    cases h
    simp only [Bool.and_eq_true, List.isEmpty_iff] at hc
    obtain ⟨hsome, rfl⟩ := hc
    rcases nest_cases hn with ⟨_, _, he⟩ | ⟨c, _, hclose, rfl⟩ | ⟨_, hnone, _⟩
    · cases he
    · rw [hclose]
      exact hd
    · simp [hnone] at hsome
  | case4 stack u us stack' hn hc ih =>
    -- the outermost open delimiter stays until the group is closed
    refine ih ?_ h
    rcases nest_cases hn with ⟨c, _, rfl⟩ | ⟨c, _, hclose, rfl⟩ | ⟨_, _, rfl⟩
    · rw [List.getLast?_cons, hd]; rfl
    · cases stack' with
      | nil => simp [hclose] at hc
      | cons d' stack' => rwa [List.getLast?_cons_cons] at hd
    · exact hd

/-- A group that starts with an opening delimiter ends with the closing one of that kind. -/
theorem group_opened {e : Expectation} {tokens rest : List Token} {t u : Token} {d : Delimiter}
    (hu : u.opens? = some d) (h : group e [] (u :: tokens) = .ok (t, rest)) : t.closes? = some d := by
  simp only [group, nest, hu, List.isEmpty_cons, Bool.and_false, Bool.false_eq_true, if_false] at h
  exact group_closes rfl h

theorem semicolon_reads {e : Expectation} {stack : List Delimiter} {tokens rest : List Token}
    {t : Token} (h : semicolon e stack tokens = .ok (t, rest)) :
    ∃ body, tokens = body ++ t :: rest ∧ t.isPunct ";" = true ∧ ∀ g rest',
      semicolon e stack (body.map (Token.move g) ++ t.move g :: rest') = .ok (t.move g, rest') := by
  fun_induction semicolon e stack tokens with
  | case1 => cases h
  | case2 stack t rest hs =>
    cases h
    simp only [Bool.and_eq_true] at hs
    exact ⟨[], rfl, hs.2, fun g rest' => by simp [semicolon, hs]⟩
  | case3 => cases h
  | case4 stack u us hs stack' hn ih =>
    obtain ⟨body, rfl, ht, hbody⟩ := ih h
    exact ⟨u :: body, rfl, ht, fun g rest' => by simp [semicolon, hs, nest_move hn, hbody]⟩

/-- A declaration that is passed over ends with a token of its own, or with the text. -/
theorem construct_reads {stack : List Delimiter} {tokens rest : List Token}
    (h : construct stack tokens = .ok rest) :
    ∃ used, tokens = used ++ rest ∧ ∀ g rest', (rest = [] → rest' = []) →
      construct stack (used.map (Token.move g) ++ rest') = .ok rest' := by
  fun_induction construct stack tokens with
  | case1 stack hs =>
    cases h
    refine ⟨[], rfl, fun g rest' hr => ?_⟩
    rw [hr rfl]
    simp [construct, hs]
  | case2 => cases h
  | case3 stack t rest hs =>
    cases h
    refine ⟨[t], rfl, fun g rest' _ => ?_⟩
    simp [construct, hs]
  | case4 => cases h
  | case5 stack t rest hs stack' hn hc =>
    cases h
    refine ⟨[t], rfl, fun g rest' _ => ?_⟩
    simp [construct, hs, nest_move hn, hc]
  | case6 stack u us hs stack' hn hc ih =>
    obtain ⟨used, rfl, hused⟩ := ih h
    refine ⟨u :: used, rfl, fun g rest' hr => ?_⟩
    simp [construct, hs, nest_move hn, hc, hused _ _ hr]

theorem upTo_reads {stop : Token → Bool} {e : Expectation} {stack : List Delimiter}
    {tokens rest : List Token} (h : upTo stop e stack tokens = .ok rest) :
    ∃ used t tail, tokens = used ++ t :: tail ∧ rest = t :: tail ∧ stop t = true ∧
      ∀ g tail', (∀ u : Token, stop (u.move g) = stop u) →
        upTo stop e stack (used.map (Token.move g) ++ t.move g :: tail') =
          .ok (t.move g :: tail') := by
  fun_induction upTo stop e stack tokens with
  | case1 => cases h
  | case2 stack t tail hs =>
    cases h
    simp only [Bool.and_eq_true] at hs
    refine ⟨[], t, tail, rfl, rfl, hs.2, fun g tail' hg => ?_⟩
    simp [upTo, hg, hs]
  | case3 stack u us hs hc ih =>
    obtain ⟨used, t, tail, rfl, rfl, ht, hused⟩ := ih h
    refine ⟨u :: used, t, tail, rfl, rfl, ht, fun g tail' hg => ?_⟩
    simp only [List.map_cons, List.cons_append, upTo, hg, hs, Token.move_closes?, Bool.false_eq_true,
      if_false, hc, if_true, hused g tail' hg]
  | case4 => cases h
  | case5 stack u us hs hc stack' hn ih =>
    obtain ⟨used, t, tail, rfl, rfl, ht, hused⟩ := ih h
    refine ⟨u :: used, t, tail, rfl, rfl, ht, fun g tail' hg => ?_⟩
    simp only [List.map_cons, List.cons_append, upTo, hg, hs, Token.move_closes?, Bool.false_eq_true,
      if_false, hc, nest_move hn, hused g tail' hg]

/-- Tokens that are cut before the first one that fails a condition are cut there when they are moved,
whatever follows that token. -/
theorem cut_move {p : Token → Bool} (hp : ∀ g t, p (Token.move g t) = p t) {tokens tail : List Token}
    {t : Token} (h : tokens.dropWhile p = t :: tail) (g : Nat → Nat) (tail' : List Token) :
    ((tokens.takeWhile p).map (Token.move g) ++ t.move g :: tail').takeWhile p =
        (tokens.takeWhile p).map (Token.move g) ∧
      ((tokens.takeWhile p).map (Token.move g) ++ t.move g :: tail').dropWhile p = t.move g :: tail' := by
  have hfront : ∀ x ∈ (tokens.takeWhile p).map (Token.move g), p x = true := by
    intro x hx
    obtain ⟨y, hy, rfl⟩ := List.mem_map.1 hx
    rw [hp]
    exact List.mem_takeWhile_imp hy
  have hstop : ∀ x ∈ (t.move g :: tail').head?, p x = false := by
    rintro x ⟨rfl⟩
    rw [hp]
    exact dropWhile_cons_neg h
  exact ⟨takeWhile_stretch hfront hstop, dropWhile_stretch hfront hstop⟩

@[simp]
theorem passed_append (used rest : List Token) : passed (used ++ rest) rest = used := by
  simp [passed]

/-! ## Annotations -/

theorem annotationTail_reads {tokens rest : List Token} (h : annotationTail tokens = .ok rest) :
    ∃ used, tokens = used ++ rest ∧ ∀ g rest', rest'.head? = rest.head?.map (Token.move g) →
      annotationTail (used.map (Token.move g) ++ rest') = .ok rest' := by
  unfold annotationTail at h
  split at h
  · next hcolon =>
    obtain ⟨⟨name, r⟩, hname, h⟩ := bind_eq_ok.1 h
    cases h
    obtain ⟨colon, rfl, hc, hn⟩ := expectName_tail_eq_ok hcolon hname
    refine ⟨[colon, name], rfl, fun g rest' _ => ?_⟩
    simp [annotationTail, hc, expectName, hn, bind, Except.bind, pure, Except.pure]
  · next hcolon =>
    cases h
    refine ⟨[], rfl, fun g rest' hr => ?_⟩
    rw [List.map_nil, List.nil_append, annotationTail, startsWith_move hr, if_neg hcolon]

theorem annotationValue_reads {tokens rest : List Token} (h : annotationValue tokens = .ok rest) :
    ∃ used, tokens = used ++ rest ∧ ∀ g rest', rest'.head? = rest.head?.map (Token.move g) →
      annotationValue (used.map (Token.move g) ++ rest') = .ok rest' := by
  unfold annotationValue at h
  split at h
  · next hbrace =>
    obtain ⟨⟨close, r⟩, hg, h⟩ := bind_eq_ok.1 h
    cases h
    obtain ⟨body, rfl, hbody⟩ := group_reads hg
    refine ⟨body ++ [close], by simp, fun g rest' _ => ?_⟩
    have hb : startsWith "\x7b" (body.map (Token.move g) ++ close.move g :: rest') = true := by
      rw [← hbrace]
      exact startsWith_move (g := g) (by cases body <;> simp)
    rw [List.map_append, List.append_assoc, List.map_singleton, List.singleton_append, annotationValue,
      if_pos hb, hbody]
    rfl
  · next hbrace =>
    cases h
    refine ⟨[], rfl, fun g rest' hr => ?_⟩
    rw [List.map_nil, List.nil_append, annotationValue, startsWith_move hr, if_neg hbrace]

/-- An annotation is read the same way as long as the token after it stays. -/
theorem annotationStep_reads {tokens rest : List Token} (h : annotationStep tokens = .ok rest) :
    ∃ used, tokens = used ++ rest ∧ used ≠ [] ∧
      ∀ g rest', rest'.head? = rest.head?.map (Token.move g) →
        annotationStep (used.map (Token.move g) ++ rest') = .ok rest' := by
  obtain ⟨⟨sign, r₁⟩, h₁, h⟩ := bind_eq_ok.1 h
  obtain ⟨⟨name, r₂⟩, h₂, h⟩ := bind_eq_ok.1 h
  obtain ⟨r₃, h₃, h₄⟩ := bind_eq_ok.1 h
  obtain ⟨rfl, hsign⟩ := expect_eq_ok.1 h₁
  obtain ⟨rfl, hname⟩ := expectName_eq_ok.1 h₂
  obtain ⟨tail, rfl, htail⟩ := annotationTail_reads h₃
  obtain ⟨value, rfl, hvalue⟩ := annotationValue_reads h₄
  refine ⟨sign :: name :: (tail ++ value), by simp, by simp, fun g rest' hr => ?_⟩
  have hmid := head?_move_append value hr
  simp [annotationStep, expect, hsign, expectName, hname, htail _ _ hmid, hvalue _ _ hr, bind,
    Except.bind]

theorem annotations_step {tokens rest : List Token} (hat : startsWith "@" tokens = true)
    (h : annotationStep tokens = .ok rest) : annotations tokens = annotations rest := by
  rw [annotations, if_pos hat]
  split
  · next he => rw [h] at he; cases he
  · next he =>
    rw [h] at he
    cases he
    rfl

theorem annotations_reads {tokens rest : List Token} (h : annotations tokens = .ok rest) :
    ∃ used, tokens = used ++ rest ∧ startsWith "@" rest = false ∧
      ∀ g rest', rest'.head? = rest.head?.map (Token.move g) →
        annotations (used.map (Token.move g) ++ rest') = .ok rest' := by
  fun_induction annotations tokens with
  | case1 => cases h
  | case2 tokens hat r hstep _ ih =>
    obtain ⟨used, rfl, hrest, hused⟩ := ih h
    obtain ⟨one, rfl, hne, hone⟩ := annotationStep_reads hstep
    refine ⟨one ++ used, by simp, hrest, fun g rest' hr => ?_⟩
    have hmid := head?_move_append used hr
    have hat' : startsWith "@" (one.map (Token.move g) ++ (used.map (Token.move g) ++ rest')) = true := by
      rw [← hat]
      exact startsWith_move (head?_move_append one hmid)
    rw [List.map_append, List.append_assoc, annotations_step hat' (hone _ _ hmid)]
    exact hused _ _ hr
  | case3 tokens hat =>
    cases h
    refine ⟨[], rfl, by simpa using hat, fun g rest' hr => ?_⟩
    rw [List.map_nil, List.nil_append, annotations, startsWith_move hr, if_neg hat]

/-! ## Types -/

theorem leadingType_suffix (tokens : List Token) : (leadingType tokens).2 <:+ tokens := by
  rcases tokens with _ | ⟨a, _ | ⟨b, _ | ⟨c, tokens⟩⟩⟩
  · exact List.suffix_refl _
  · by_cases ha : a.isName <;> simp [leadingType, ha]
  · by_cases ha : a.isName <;> simp [leadingType, ha, List.suffix_cons]
  · by_cases ha : a.isName
    · by_cases hbc : (b.is ":" && c.isName) = true
      · exact ⟨[a, b, c], by simp [leadingType, ha, hbc]⟩
      · exact ⟨[a], by simp [leadingType, ha, hbc]⟩
    · exact ⟨[], by simp [leadingType, ha]⟩

/-- The type at the front is read the same way whatever follows the next semicolon. -/
theorem leadingType_append {s : Token} (hs : s.isPunct ";" = true) (g : Nat → Nat)
    (used rest rest' : List Token) :
    ∃ body, (leadingType (used ++ s :: rest)).2 = body ++ s :: rest ∧
      leadingType (used.map (Token.move g) ++ s.move g :: rest') =
        ((leadingType (used ++ s :: rest)).1, body.map (Token.move g) ++ s.move g :: rest') := by
  simp only [Token.isPunct, Bool.and_eq_true, beq_iff_eq] at hs
  have hname : s.isName = false := by simp [Token.isName, hs.1]
  have hcolon : s.is ":" = false := by simp [Token.is, hs.2]
  rcases used with _ | ⟨a, _ | ⟨b, _ | ⟨c, used⟩⟩⟩
  · exact ⟨[], by simp [leadingType, hname]⟩
  · by_cases ha : a.isName
    · exact ⟨[], by cases rest <;> cases rest' <;> simp [leadingType, ha, hcolon]⟩
    · exact ⟨[a], by simp [leadingType, ha]⟩
  · by_cases ha : a.isName
    · exact ⟨[b], by simp [leadingType, ha, hname]⟩
    · exact ⟨[a, b], by simp [leadingType, ha]⟩
  · by_cases ha : a.isName
    · by_cases hbc : (b.is ":" && c.isName) = true
      · exact ⟨used, by simp [leadingType, ha, hbc]⟩
      · exact ⟨b :: c :: used, by simp [leadingType, ha, hbc]⟩
    · exact ⟨a :: b :: c :: used, by simp [leadingType, ha]⟩

theorem typeRef?_move (g : Nat → Nat) (ts : List Token) :
    typeRef? (ts.map (Token.move g)) = typeRef? ts := by
  rcases ts with _ | ⟨a, _ | ⟨b, _ | ⟨c, _ | ⟨d, ts⟩⟩⟩⟩ <;> rfl

end Parse

end ServiceLint
