import ServiceLint.Proofs.Source.Layout
import ServiceLint.Proofs.Source.Parse.Faults
import ServiceLint.Proofs.Source.Parse.Build
import ServiceLint.Proofs.Source.Parse.Words

/-!
# A module is parsed from its words

Layout does not matter to parsing: white space and comments between the tokens of a text decide nothing.
Texts with the same words have tokens that are moved copies of each other (`exists_move`), and parsing follows
from the tokens of one text to those of the other (`Parse.declarations_follows`). What can be seen of the two
results is `ParsedAlike`: modules of one shape with the same outline, or the same complaint about the
same-numbered token.
-/
namespace ServiceLint

/-- What a token says, apart from where it stands. -/
def Token.word (t : Token) : TokenKind × String := (t.kind, t.text)

/-- The two errors say that the same is needed, and point at the tokens of one number of the two texts or at
both ends. The texts they quote are not compared. -/
inductive ParseError.SameFault (text text' : List Char) (tokens tokens' : List Token) :
    ParseError → ParseError → Prop
  | atEnd (e : Expectation) :
      SameFault text text' tokens tokens' (.unexpectedEnd e (Text.size text))
        (.unexpectedEnd e (Text.size text'))
  | unexpected {i : Nat} {t t' : Token} (e : Expectation) (found found' : String)
      (ht : tokens[i]? = some t) (ht' : tokens'[i]? = some t') :
      SameFault text text' tokens tokens' (.expected e found t.start) (.expected e found' t'.start)
  | unbalanced {i : Nat} {t t' : Token} (delimiter : String)
      (ht : tokens[i]? = some t) (ht' : tokens'[i]? = some t') :
      SameFault text text' tokens tokens' (.unbalanced delimiter t.start) (.unbalanced delimiter t'.start)

/-- Both texts are accepted, with modules of one shape whose nodes are numbered and linked the same way, or
both are rejected for the same fault. -/
def ParsedAlike (text text' : List Char) (tokens tokens' : List Token) :
    Except ParseError Module → Except ParseError Module → Prop
  | .ok m, .ok m' => m.shape = m'.shape ∧
      (m.outline (Text.size text)).map Node.shape = (m'.outline (Text.size text')).map Node.shape
  | .error e, .error e' => e.SameFault text text' tokens tokens' e'
  | _, _ => False

/-! ## Tokens with the same words -/

theorem Laid.pairwise_start {text : List Char} {lo hi : Nat} {tokens : List Token}
    (h : Laid text lo tokens hi) : tokens.Pairwise fun a b => a.start < b.start := by
  induction tokens generalizing lo with
  | nil => exact .nil
  | cons t ts ih =>
    obtain ⟨-, ht, hts⟩ := h
    refine .cons (fun b hb => ?_) (ih hts)
    obtain ⟨as, bs, rfl⟩ := List.append_of_mem hb
    have := hts.cut.1.le
    have := ht.lt
    omega

/-- Tokens that start at different places are taken to any tokens with the same words. -/
theorem exists_move {ts us : List Token} (hstarts : ts.Pairwise fun a b => a.start < b.start)
    (hwords : ts.map Token.word = us.map Token.word) : ∃ g, us = ts.map (Token.move g) := by
  induction ts generalizing us with
  | nil => exact ⟨id, List.map_eq_nil_iff.1 hwords.symm⟩
  | cons t ts ih =>
    cases us with
    | nil => cases hwords
    | cons u us =>
      obtain ⟨hword, hwords⟩ := List.cons.inj hwords
      obtain ⟨hkind, htext⟩ := Prod.mk.inj hword
      obtain ⟨hfirst, hrest⟩ := List.pairwise_cons.1 hstarts
      obtain ⟨g, rfl⟩ := ih hrest hwords
      refine ⟨Function.update g t.start u.start, ?_⟩
      have hhead : u = t.move (Function.update g t.start u.start) := by
        obtain ⟨kind, start, text⟩ := u
        simp only [Token.move, Function.update_self]
        simp_all
      have htail : ts.map (Token.move g) = ts.map (Token.move (Function.update g t.start u.start)) := by
        refine List.map_congr_left fun v hv => ?_
        have hne : v.start ≠ t.start := Nat.ne_of_gt (hfirst v hv)
        rw [Token.move, Token.move, Function.update_of_ne hne]
      rw [List.map_cons, ← hhead, ← htail]

/-! ## Parsing -/

/-- A failure at some of the tokens, and the failure at the moved ones. -/
theorem Failure.PointsInto.sameFault {g : Nat → Nat} {text text' : List Char} {tokens : List Token} {f f' : Failure}
    (h : f.PointsInto text tokens) (hmove : f.MovedTo g f') :
    (f.toError text).SameFault text text' tokens (tokens.map (Token.move g)) (f'.toError text') := by
  have hmoved : ∀ {i : Nat} {t : Token}, tokens[i]? = some t → (tokens.map (Token.move g))[i]? = some (t.move g) := by
    intro i t ht
    rw [List.getElem?_map, ht]
    rfl
  cases f with
  | endOfText e =>
    obtain rfl : f' = .endOfText e := hmove
    exact .atEnd e
  | unexpected e found offset =>
    obtain ⟨part, first, last, hpart, hfirst, -, rfl, -⟩ := h
    obtain ⟨found', rfl⟩ := hmove
    obtain ⟨i, hi⟩ := List.mem_iff_getElem?.1 (hpart.subset (List.mem_of_head? hfirst))
    exact .unexpected e _ _ hi (hmoved hi)
  | unbalanced t =>
    obtain rfl : f' = .unbalanced (t.move g) := hmove
    obtain ⟨i, hi⟩ := List.mem_iff_getElem?.1 h.1
    exact .unbalanced t.text hi (hmoved hi)

/-- Parsing depends on the words of a text alone. -/
theorem Module.parse_alike {text text' : List Char} {tokens tokens' : List Token}
    (htok : tokenize text = .ok tokens) (htok' : tokenize text' = .ok tokens')
    (hwords : tokens.map Token.word = tokens'.map Token.word) :
    ParsedAlike text text' tokens tokens' (Module.parse text) (Module.parse text') := by
  obtain ⟨g, rfl⟩ := exists_move (tokenize_laid htok).pairwise_start hwords
  have hfollows := Parse.declarations_follows (g := g) text text' tokens
  rw [Module.parse_eq htok, Module.parse_eq htok']
  cases hdecls : Parse.declarations text tokens with
  | ok decls =>
    obtain ⟨decls', hdecls', hshape⟩ := hfollows.ok hdecls
    have hmodule : Module.shape ⟨decls⟩ = Module.shape ⟨decls'⟩ := congrArg Module.mk hshape.symm
    rw [hdecls']
    exact ⟨hmodule, Module.outline_shape hmodule _ _⟩
  | error f =>
    obtain ⟨f', hdecls', hmove⟩ := hfollows.error hdecls
    rw [hdecls']
    exact (Parse.declarations_pointsInto hdecls).sameFault hmove

/-- A service on one line, and on three with a comment. -/
theorem Module.parse_alike_comment : ∃ text text' tokens tokens',
    text = "service on l \x7b int n; \x7d".toList ∧
    text' = "service on\tl \x7b\r\n  int n // größe\r\n;\x7d".toList ∧
    tokenize text = .ok tokens ∧ tokenize text' = .ok tokens' ∧
    tokens.map Token.word = tokens'.map Token.word ∧
    ParsedAlike text text' tokens tokens' (Module.parse text) (Module.parse text') := by
  have htok : tokenize "service on l \x7b int n; \x7d".toList = .ok
      [⟨.ident, 0, "service"⟩, ⟨.ident, 8, "on"⟩, ⟨.ident, 11, "l"⟩, ⟨.punct, 13, "\x7b"⟩, ⟨.ident, 15, "int"⟩,
        ⟨.ident, 19, "n"⟩, ⟨.punct, 20, ";"⟩, ⟨.punct, 22, "\x7d"⟩] :=
    eq_ok_of_toOption (by decide +kernel)
  have htok' : tokenize "service on\tl \x7b\r\n  int n // größe\r\n;\x7d".toList = .ok
      [⟨.ident, 0, "service"⟩, ⟨.ident, 8, "on"⟩, ⟨.ident, 11, "l"⟩, ⟨.punct, 13, "\x7b"⟩, ⟨.ident, 18, "int"⟩,
        ⟨.ident, 22, "n"⟩, ⟨.punct, 36, ";"⟩, ⟨.punct, 37, "\x7d"⟩] :=
    eq_ok_of_toOption (by decide +kernel)
  exact ⟨_, _, _, _, rfl, rfl, htok, htok', rfl, parse_alike htok htok' rfl⟩

end ServiceLint
