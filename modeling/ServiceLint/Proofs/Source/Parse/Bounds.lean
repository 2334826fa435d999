import ServiceLint.Proofs.Source.Parse.Places
import ServiceLint.Proofs.Source.Parse.Progress

/-!
# Accesses in range

What the parser takes out of the list of tokens and out of the text at places that it has computed is there: indices are
in range and in order, and offsets are boundaries of the text. `Parse.between?` and `Token.slice?` are the accesses with
their conditions; `Parse.InBounds` says that the parser meets these, wherever its cursor stands. Together with
the facts on routines and loops this is `Module.parse_advances`.
-/
namespace ServiceLint

/-- The source text from the first to the last of some tokens, unless the offsets are out of range, out of order or
inside a character. -/
def Token.slice? (text : List Char) (first last : Token) : Option String :=
  if first.start ≤ last.stop ∧ last.stop ≤ Text.size text ∧ Text.isBoundary first.start text = true ∧
      Text.isBoundary last.stop text = true then
    some (Token.slice text first last)
  else none

/-- From the first to the last of some tokens there is text. -/
theorem Laid.slice? {text : List Char} {lo hi : Nat} {part : List Token} {first last : Token}
    (h : Laid text lo part hi) (hfirst : part.head? = some first) (hlast : part.getLast? = some last) :
    Token.slice? text first last = some (Token.slice text first last) := by
  have hfit := h.span hfirst hlast
  exact if_pos ⟨Nat.le_of_lt hfit.lt, hfit.stop.le_size, hfit.start.isBoundary, hfit.stop.isBoundary⟩

/-- Between two tokens of a list, too, unless the second stands before the first. -/
theorem Laid.slice?_getElem {text : List Char} {lo hi i j : Nat} {tokens : List Token} {first last : Token}
    (h : Laid text lo tokens hi) (hij : i ≤ j) (hi : tokens[i]? = some first) (hj : tokens[j]? = some last) :
    Token.slice? text first last = some (Token.slice text first last) := by
  have hin : ((tokens.drop i).take (j - i + 1)).Sublist tokens :=
    (List.take_sublist _ _).trans (List.drop_sublist _ _)
  refine (h.sublist hin).slice? ?_ ?_
  · rw [List.head?_take, if_neg (Nat.succ_ne_zero _), List.head?_drop, hi]
  · rw [List.getLast?_take, if_neg (Nat.succ_ne_zero _), Nat.add_sub_cancel, List.getElem?_drop,
      Nat.add_sub_cancel' hij, hj]
    rfl

theorem Token.Stands.slice? {text : List Char} {t : Token} (h : t.Stands text) :
    Token.slice? text t t = some t.text := by
  have hlaid : Laid text t.start [t] t.stop := ⟨Nat.le_refl _, h, Nat.le_refl _⟩
  have hslice : Token.slice? text t t = some (Token.slice text t t) := hlaid.slice? rfl rfl
  rw [hslice, Token.slice, h.slice, Token.chars, String.ofList_toList]

namespace Parse

/-! ## Cursors -/

/-- The tokens from index `i` up to index `j`, unless the indices are out of range or out of order. -/
def between? (tokens : List Token) (i j : Nat) : Option (List Token) :=
  if i ≤ j ∧ j ≤ tokens.length then some ((tokens.drop i).take (j - i)) else none

variable {text : List Char} {tokens part rest : List Token} {t : Token} {c : Nat}

/-- What is left from a cursor on is left from a cursor that is not before it. -/
theorem exists_cursor (hc : c ≤ tokens.length) (h : rest <:+ tokens.drop c) :
    ∃ c', c ≤ c' ∧ c' ≤ tokens.length ∧ rest = tokens.drop c' := by
  obtain ⟨used, hused⟩ := h
  have hlength := congrArg List.length hused
  simp only [List.length_append, List.length_drop] at hlength
  refine ⟨c + used.length, by omega, by omega, ?_⟩
  rw [← List.drop_drop, ← hused, List.drop_left]

/-- What is passed over up to a token stands between two cursors, the second of which is at that token. -/
theorem between?_eq_some (h : tokens.drop c = part ++ t :: rest) :
    between? tokens c (c + part.length) = some part ∧ tokens[c + part.length]? = some t ∧
      tokens.drop (c + part.length) = t :: rest := by
  have hat : tokens[c + part.length]? = some t := by
    rw [← List.getElem?_drop, h, List.getElem?_append_right (Nat.le_refl _), Nat.sub_self]
    rfl
  have hlt := (List.getElem?_eq_some_iff.1 hat).1
  refine ⟨?_, hat, by rw [← List.drop_drop, h, List.drop_left]⟩
  rw [between?, if_pos ⟨Nat.le_add_right _ _, Nat.le_of_lt hlt⟩, Nat.add_sub_cancel_left, h, List.take_left]

theorem sublist_of_drop (h : tokens.drop c = part ++ rest) : part.Sublist tokens :=
  ((List.sublist_append_left part rest).trans (h ▸ List.Sublist.refl _)).trans (List.drop_sublist c tokens)

/-! ## What is said of a text -/

/-- Wherever a routine starts, it leaves what stands from a cursor on that is not before its own, or it fails at tokens
that stand from its cursor on. -/
structure RoutinesAdvance (text : List Char) (tokens : List Token) : Prop where
  ok : ∀ (r : Routine) c rest, c ≤ tokens.length → r.left text (tokens.drop c) = .ok rest →
    ∃ c', c ≤ c' ∧ c' ≤ tokens.length ∧ rest = tokens.drop c'
  error : ∀ (r : Routine) c f, r.left text (tokens.drop c) = .error f → f.PointsInto text (tokens.drop c)

/-- Every loop passes over a token with each iteration that goes on, and ends as its routine does. -/
structure LoopsEnd (text : List Char) (tokens : List Token) : Prop where
  group : ∀ e, (groupLoop e).Progresses fun s => (Routine.group e s.1).left text s.2
  semicolon : ∀ e, (semicolonLoop e).Progresses fun s => (Routine.semicolon e s.1).left text s.2
  construct : constructLoop.Progresses fun s => (Routine.construct s.1).left text s.2
  upTo : ∀ stop e, (upToLoop stop e).Progresses fun s => (Routine.upTo stop e s.1).left text s.2
  paramTokens : paramTokensLoop.Progresses fun s => (Routine.paramTokens s.1).left text s.2
  annotations : annotationsLoop.Progresses fun ts => Routine.annotations.left text ts
  path : pathLoop.Progresses fun ts => Routine.pathTail.left text ts
  qualifiers : qualifiersLoop.Progresses fun ts => Routine.qualifiers.left text ts
  params : (paramsLoop text).Progresses fun ts => Routine.paramsTail.left text ts
  attachPoints : attachPointsLoop.Progresses fun ts => Routine.attachPoints.left text ts
  members : (membersLoop text).Progresses fun ts => Routine.members.left text ts
  module : (moduleLoop text).Progresses fun ts => Routine.declarations.left text ts
  membersInto : ∀ service,
    (membersIntoLoop text service).Progresses fun s => (Routine.membersInto service s.1).left text s.2
  moduleInto : (moduleIntoLoop text).Progresses fun s => (Routine.moduleInto s.1).left text s.2
  /-- The text is parsed in at most as many iterations as there are tokens: if one of them fails, there is a token left
  for it. -/
  parse : ∃ n left, (moduleLoop text).Goes n tokens left ∧ n + left.length ≤ tokens.length ∧
    (left = [] ∧ (∃ m, Module.parse text = .ok m) ∨
      left ≠ [] ∧ ∃ f, (moduleLoop text).step left = .error f ∧ Module.parse text = .error (f.toError text))

/-- What is taken out of the tokens and out of the text is there. -/
structure InBounds (text : List Char) (tokens : List Token) : Prop where
  /-- The first token of a declaration: an iteration of the loop over a module has a token at the cursor. -/
  declaration : ∀ n left, (moduleLoop text).Goes n tokens left → left ≠ [] →
    ∃ c t, tokens[c]? = some t ∧ left = t :: tokens.drop (c + 1)
  /-- The tokens of a field without the semicolon, which is the last token that was passed over. -/
  field : ∀ c first m rest, Parse.field first (tokens.drop c) = .ok (m, rest) →
    ∃ c' semi part, tokens[c']? = some semi ∧ semi.isPunct ";" = true ∧ rest = tokens.drop (c' + 1) ∧
      between? tokens c c' = some part ∧ m.body = .field (fieldName none 0 part)
  /-- The tokens of an attach point, and of these the ones after `new` and before the parenthesis. -/
  attachPoint : ∀ c a rest, Parse.attachPoint (tokens.drop c) = .ok (a, rest) →
    ∃ c' part, between? tokens c c' = some part ∧ rest = tokens.drop c' ∧ part ≠ [] ∧
      ∀ type span, a = .new type span → part.head?.map (·.text) = some "new" ∧
        ∃ inner, between? part 1 (part.findIdx (·.text == "(")) = some inner ∧ type = typeRef? inner
  /-- The tokens of a parameter, the text of its type, and the text of all of it, which an error quotes. -/
  param : ∀ c part stop rest, Parse.paramTokens [] (tokens.drop c) = .ok (part, stop, rest) →
    ∃ c', between? tokens c c' = some part ∧
      (∀ p, param? text part = .ok (some p) →
        ∃ first last, part.head? = some first ∧ last ∈ part ∧ Token.slice? text first last = some p.typeText) ∧
      ∀ first last, part.head? = some first → part.getLast? = some last →
        Token.slice? text first last = some (Token.slice text first last)
  /-- The text of the type of a service. -/
  serviceType : ∀ c type rest, Parse.serviceHead (tokens.drop c) = .ok (type, rest) → type ≠ [] →
    ∃ first last, type.head? = some first ∧ type.getLast? = some last ∧
      Token.slice? text first last = textOf? text type ∧ (textOf? text type).isSome = true
  /-- The text that an error quotes: it stands between two tokens, and the error points at the first of them. -/
  error : ∀ (r : Routine) c e found offset, r.left text (tokens.drop c) = .error (.unexpected e found offset) →
    ∃ first ∈ tokens.drop c, ∃ last ∈ tokens.drop c, Token.slice? text first last = some found ∧
      (Failure.unexpected e found offset).toError text = .expected e found first.start
  /-- The text of a token. -/
  token : ∀ t ∈ tokens, Token.slice? text t t = some t.text
  /-- The text between any two tokens that stand in this order. -/
  between : ∀ (i j : Nat) first last, i ≤ j → tokens[i]? = some first → tokens[j]? = some last →
    Token.slice? text first last = some (Token.slice text first last)

/-! ## Routines and loops -/

theorem routinesAdvance (text : List Char) (tokens : List Token) : RoutinesAdvance text tokens := by
  constructor
  · intro r c rest hc h
    exact exists_cursor hc ((r.left_within text (tokens.drop c)).suffix h)
  · intro r c f h
    exact (r.left_within text (tokens.drop c)).error h

/-- An iteration that ends with a routine goes on or fails. -/
theorem map_inl_ne_inr {α : Type} (x : Except Failure α) (left : α → List Token) :
    (x.map fun a => (.inl (left a) : List Token ⊕ List Token)) ≠ .ok (.inr rest) := by
  intro h
  cases x with
  | error f => cases h
  | ok a => cases h

/-- The loop over a module does not return while there is a token. -/
theorem moduleLoop_step_cons {tail : List Token} : (moduleLoop text).step (t :: tail) ≠ .ok (.inr rest) := by
  simp only [moduleLoop]
  split
  · exact map_inl_ne_inr (annotationStep (t :: tail)) id
  · exact map_inl_ne_inr (declaration text t tail) Prod.snd

/-- A module is parsed when its loop has passed over all tokens. -/
theorem moduleLoop_parse (htok : tokenize text = .ok tokens) :
    ∃ n left, (moduleLoop text).Goes n tokens left ∧ n + left.length ≤ tokens.length ∧
      (left = [] ∧ (∃ m, Module.parse text = .ok m) ∨
        left ≠ [] ∧ ∃ f, (moduleLoop text).step left = .error f ∧ Module.parse text = .error (f.toError text)) := by
  obtain ⟨n, left, hgoes, hend, hle⟩ :=
    Loop.ends (moduleLoop_advances text) (moduleLoop_computes text) tokens
  refine ⟨n, left, hgoes, hle, ?_⟩
  cases hdecls : declarations text tokens with
  | error f =>
    rw [hdecls] at hend
    refine Or.inr ⟨?_, f, hend, by rw [Module.parse_eq htok, hdecls]⟩
    rintro rfl
    cases hend
  | ok ds =>
    rw [hdecls] at hend
    refine Or.inl ⟨?_, ⟨ds⟩, by rw [Module.parse_eq htok, hdecls]⟩
    cases left with
    | nil => rfl
    | cons t tail =>
      exact absurd hend moduleLoop_step_cons

theorem loopsEnd (htok : tokenize text = .ok tokens) : LoopsEnd text tokens where
  group e := (groupLoop_computes e).progresses (groupLoop_advances e)
  semicolon e := (semicolonLoop_computes e).progresses (semicolonLoop_advances e)
  construct := constructLoop_computes.progresses constructLoop_advances
  upTo stop e := (upToLoop_computes stop e).progresses (upToLoop_advances stop e)
  paramTokens := paramTokensLoop_computes.progresses paramTokensLoop_advances
  annotations := annotationsLoop_computes.progresses annotationsLoop_advances
  path := pathLoop_computes.progresses pathLoop_advances
  qualifiers := qualifiersLoop_computes.progresses qualifiersLoop_advances
  params := (paramsLoop_computes text).progresses (paramsLoop_advances text)
  attachPoints := attachPointsLoop_computes.progresses attachPointsLoop_advances
  members := (membersLoop_computes text).progresses (membersLoop_advances text)
  module := (moduleLoop_computes text).progresses (moduleLoop_advances text)
  membersInto service := (membersIntoLoop_computes text service).progresses (membersIntoLoop_advances text service)
  moduleInto := (moduleIntoLoop_computes text).progresses (moduleIntoLoop_advances text)
  parse := moduleLoop_parse htok

/-! ## Accesses -/

theorem moduleLoop_first {n : Nat} {left : List Token} (h : (moduleLoop text).Goes n tokens left) (hne : left ≠ []) :
    ∃ c t, tokens[c]? = some t ∧ left = t :: tokens.drop (c + 1) := by
  obtain ⟨used, hused⟩ := (h.le (moduleLoop_advances text)).1
  obtain ⟨t, tail, rfl⟩ := List.exists_cons_of_ne_nil hne
  obtain rfl : used ++ t :: tail = tokens := hused
  exact ⟨used.length, t, by simp, by simp [List.drop_append]⟩

theorem field_between {first : Token} {m : Member} (h : field first (tokens.drop c) = .ok (m, rest)) :
    ∃ c' semi part, tokens[c']? = some semi ∧ semi.isPunct ";" = true ∧ rest = tokens.drop (c' + 1) ∧
      between? tokens c c' = some part ∧ m.body = .field (fieldName none 0 part) := by
  obtain ⟨part, semi, hsplit, hsemi, rfl, -⟩ := field_reads h
  obtain ⟨hpart, hat, hdrop⟩ := between?_eq_some hsplit
  refine ⟨_, semi, part, hat, hsemi, ?_, hpart, rfl⟩
  rw [← List.drop_drop, hdrop]
  rfl

/-- The type after `new` is read up to the parenthesis. -/
theorem classify_new {first : Token} {more : List Token} {type : Option TypeRef} {span : Span}
    (h : classify first more = .new type span) :
    first.text = "new" ∧ ∃ inner,
      between? (first :: more) 1 ((first :: more).findIdx (·.text == "(")) = some inner ∧ type = typeRef? inner := by
  unfold classify at h
  dsimp only at h
  split at h
  · cases h
  · split at h
    · next hnew =>
      cases h
      have htext : first.text = "new" := beq_iff_eq.1 hnew
      have hfirst : (first.text == "(") = false := by rw [htext]; rfl
      have hlt : more.findIdx (·.text == "(") ≤ more.length := List.findIdx_le_length
      refine ⟨htext, more.takeWhile (·.text != "("), ?_, rfl⟩
      rw [List.findIdx_cons, hfirst, cond_false, between?, if_pos ⟨by omega, by simpa using hlt⟩,
        List.takeWhile_eq_take_findIdx_not]
      simp [bne]
    · cases h

theorem attachPoint_between {a : AttachPoint} (h : attachPoint (tokens.drop c) = .ok (a, rest)) :
    ∃ c' part, between? tokens c c' = some part ∧ rest = tokens.drop c' ∧ part ≠ [] ∧
      ∀ type span, a = .new type span → part.head?.map (·.text) = some "new" ∧
        ∃ inner, between? part 1 (part.findIdx (·.text == "(")) = some inner ∧ type = typeRef? inner := by
  obtain ⟨first, more, t, tail, hsplit, rfl, -, rfl, -⟩ := attachPoint_reads h
  rw [← List.cons_append] at hsplit
  obtain ⟨hpart, -, hdrop⟩ := between?_eq_some hsplit
  refine ⟨_, first :: more, hpart, hdrop.symm, List.cons_ne_nil _ _, fun type span hnew => ?_⟩
  obtain ⟨htext, hinner⟩ := classify_new hnew
  exact ⟨by rw [← htext]; rfl, hinner⟩

section

variable {hi : Nat} (hl : Laid text 0 tokens hi)
include hl

theorem paramTokens_between {stop : Token} (h : paramTokens [] (tokens.drop c) = .ok (part, stop, rest)) :
    ∃ c', between? tokens c c' = some part ∧
      (∀ p, param? text part = .ok (some p) →
        ∃ first last, part.head? = some first ∧ last ∈ part ∧ Token.slice? text first last = some p.typeText) ∧
      ∀ first last, part.head? = some first → part.getLast? = some last →
        Token.slice? text first last = some (Token.slice text first last) := by
  obtain ⟨hsplit, -, -⟩ := paramTokens_reads h
  obtain ⟨hpart, -, -⟩ := between?_eq_some hsplit
  refine ⟨_, hpart, fun p hp => ?_, fun first last => (hl.sublist (sublist_of_drop hsplit)).slice?⟩
  rcases param?_eq_ok hp with ⟨-, hnone⟩ | ⟨first, _, name, last, front, hfirst, -, htake, -, -, hsome⟩
  · cases hnone
  · obtain rfl := Option.some.inj hsome
    -- the type ends before the name, so it stands in front of a part of the tokens
    have htype : front ++ [last] <+: part := by
      have hprefix : front ++ [last, name] <+: part := htake ▸ List.takeWhile_prefix _
      exact ⟨name :: part.drop (front.length + 2), by
        obtain ⟨after, rfl⟩ := hprefix
        simp [List.drop_append]⟩
    have hin : (front ++ [last]).Sublist tokens := htype.sublist.trans (sublist_of_drop hsplit)
    have hhead : (front ++ [last]).head? = some first := by
      obtain ⟨after, rfl⟩ := htype
      rw [← hfirst]
      cases front <;> simp
    exact ⟨first, last, hfirst, htype.subset (by simp), (hl.sublist hin).slice? hhead List.getLast?_concat⟩

theorem serviceHead_between {type : List Token} (h : serviceHead (tokens.drop c) = .ok (type, rest)) (hne : type ≠ []) :
    ∃ first last, type.head? = some first ∧ type.getLast? = some last ∧
      Token.slice? text first last = textOf? text type ∧ (textOf? text type).isSome = true := by
  obtain ⟨on, tail, hsplit, -, -⟩ := serviceHead_reads h
  have hin := sublist_of_drop hsplit
  obtain ⟨first, hfirst⟩ := Option.isSome_iff_exists.1 (List.isSome_head?.2 hne)
  obtain ⟨last, hlast⟩ : ∃ last, type.getLast? = some last := ⟨_, List.getLast?_eq_some_getLast hne⟩
  have htext : textOf? text type = some (Token.slice text first last) := by rw [textOf?, hfirst, hlast]
  exact ⟨first, last, hfirst, hlast, by rw [htext, (hl.sublist hin).slice? hfirst hlast], by rw [htext]; rfl⟩

theorem left_error_slice {r : Routine} {e : Expectation} {found : String} {offset : Option Nat}
    (h : r.left text (tokens.drop c) = .error (.unexpected e found offset)) :
    ∃ first ∈ tokens.drop c, ∃ last ∈ tokens.drop c, Token.slice? text first last = some found ∧
      (Failure.unexpected e found offset).toError text = .expected e found first.start := by
  obtain ⟨part, first, last, hpart, hfirst, hlast, rfl, hfound⟩ := (r.left_within text (tokens.drop c)).error h
  have hin := hpart.subset (List.mem_of_head? hfirst)
  rcases hfound with rfl | rfl
  · have hstands := hl.stands (List.mem_of_mem_drop hin)
    exact ⟨first, hin, first, hin, hstands.slice?, rfl⟩
  · have hslice := (hl.sublist (hpart.sublist.trans (List.drop_sublist c tokens))).slice? hfirst hlast
    exact ⟨first, hin, last, hpart.subset (List.mem_of_getLast? hlast), hslice, rfl⟩

theorem inBounds : InBounds text tokens where
  declaration _ _ := moduleLoop_first
  field _ _ _ _ := field_between
  attachPoint _ _ _ := attachPoint_between
  param _ _ _ _ := paramTokens_between hl
  serviceType _ _ _ := serviceHead_between hl
  error _ _ _ _ _ := left_error_slice hl
  token _ ht := (hl.stands ht).slice?
  between _ _ _ _ := hl.slice?_getElem

end

end Parse

/-- Parsing goes forward through the tokens of a text, ends, and takes nothing out of the tokens or the text that is not
there. -/
theorem Module.parse_advances {text : List Char} {tokens : List Token} (h : tokenize text = .ok tokens) :
    Parse.RoutinesAdvance text tokens ∧ Parse.LoopsEnd text tokens ∧ Parse.InBounds text tokens :=
  ⟨Parse.routinesAdvance text tokens, Parse.loopsEnd h, Parse.inBounds (tokenize_laid h)⟩

/-- An annotation with a value, an attach point with `new`, a field, a function, characters of several bytes, and an
annotation right before a closing brace, where parsing fails. -/
theorem Module.parse_advances_annotation : ∃ text tokens,
    text = "@a\x7bx: 1\x7d service on new m:L(\"ß\"), l \x7b int[] n = [1]; function f('ö a = 1) \x7b;\x7d @d \x7d".toList ∧
    tokenize text = .ok tokens ∧ tokens.length = 42 ∧ Module.parse text = .error (.unbalanced "\x7d" 83) ∧
    Parse.RoutinesAdvance text tokens ∧ Parse.LoopsEnd text tokens ∧ Parse.InBounds text tokens := by
  generalize htext :
    "@a\x7bx: 1\x7d service on new m:L(\"ß\"), l \x7b int[] n = [1]; function f('ö a = 1) \x7b;\x7d @d \x7d".toList = text
  have hchars : text = _ := htext.symm.trans String.toList_ofList
  have hcheck : (tokenize text).toOption.map (·.length) = some 42 := by
    rw [hchars]
    decide +kernel
  have herror : Module.parse text = .error (.unbalanced "\x7d" 83) := by
    rw [hchars]
    exact eq_error_of_decide (by decide +kernel)
  obtain ⟨tokens, htokens, hlength⟩ := Option.map_eq_some_iff.1 hcheck
  have htok := eq_ok_of_toOption htokens
  exact ⟨text, tokens, rfl, htok, hlength, herror, Module.parse_advances htok⟩

end ServiceLint
