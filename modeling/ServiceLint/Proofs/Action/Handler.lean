import ServiceLint.Proofs.Action.Execute
import ServiceLint.Proofs.Source.Insert
import ServiceLint.Proofs.Text.Replace

/-!
# The text of a handler

A built-in template is rendered as a text of known pieces (`render_template`), whatever the file calls the
module. Such a text is read as the tokens of those pieces (`handlerPieces_readable`), and they are parsed
as one remote function (`readsMember_handler`): `handler` is that function without its spans.
-/
namespace ServiceLint

/-! ## Lines -/

namespace Text

theorem splitAll_ne_nil (c : Char) (cs : List Char) : splitAll c cs ≠ [] := by
  cases cs with
  | nil => simp [splitAll]
  | cons d ds =>
    unfold splitAll
    split
    · simp
    · split <;> simp

theorem splitAll_of_notMem {c : Char} {cs : List Char} (h : c ∉ cs) : splitAll c cs = [cs] := by
  induction cs with
  | nil => rfl
  | cons d ds ih =>
    simp only [List.mem_cons, not_or] at h
    simp [splitAll, Ne.symm h.1, ih h.2]

theorem splitAll_append {c : Char} {line : List Char} (h : c ∉ line) (rest : List Char) :
    splitAll c (line ++ c :: rest) = line :: splitAll c rest := by
  induction line with
  | nil => simp [splitAll]
  | cons d ds ih =>
    simp only [List.mem_cons, not_or] at h
    simp [splitAll, Ne.symm h.1, ih h.2]

theorem lines_of_notMem {line : List Char} (h : '\n' ∉ line) (hne : line ≠ []) : lines line = [line] := by
  simp [lines, splitAll_of_notMem h, hne]

/-- The first line of a text, and the lines after it. -/
theorem lines_append {line : List Char} (h : '\n' ∉ line) (rest : List Char) :
    lines (line ++ '\n' :: rest) = dropReturn line :: lines rest := by
  obtain ⟨front, last, hsplit⟩ := (List.eq_nil_or_concat' (splitAll '\n' rest)).resolve_left
    (splitAll_ne_nil '\n' rest)
  simp [lines, splitAll_append h, hsplit]

end Text

namespace Placement

theorem dropWhile_spaces (n : Nat) {c : Char} (hc : c ≠ ' ') (cs : List Char) :
    (spaces n ++ c :: cs).dropWhile (· == ' ') = c :: cs := by
  refine dropWhile_stretch (fun x hx => ?_) (fun x hx => ?_)
  · simp [(List.mem_replicate.1 hx).2]
  · obtain rfl : c = x := by simpa using hx
    simpa using hc

/-- The spaces before a line are scaled, and what follows them stays. -/
theorem indentLine_spaces (p : Placement) (n : Nat) {c : Char} (hc : c ≠ ' ') (cs : List Char) :
    p.indentLine (spaces n ++ c :: cs) =
      spaces (p.base + n / Template.unit * p.unit + n % Template.unit) ++ c :: cs := by
  have hlength : (spaces n ++ c :: cs).length - (c :: cs).length = n := by simp [spaces]
  simp only [indentLine, dropWhile_spaces n hc, hlength]

theorem indentLine_flush (p : Placement) {c : Char} (hc : c ≠ ' ') (cs : List Char) :
    p.indentLine (c :: cs) = spaces p.base ++ c :: cs := by
  simpa [spaces] using p.indentLine_spaces 0 hc cs

end Placement

/-! ## Pieces -/

def paramPieces (quoting : TokenKind) (q type name : String) : List Piece :=
  [.token quoting q, .token .punct ":", .token .ident type, .blank [' '], .token .ident name]

def headPieces (base : Nat) : List Piece :=
  [.blank (Placement.spaces base), .token .ident "remote", .blank [' '], .token .ident "function",
    .blank [' '], .token .ident "onMessage", .token .punct "("]

/-- The pieces of a handler from its parameters to the first line of its body. -/
def returnPieces (ending : List Char) : List Piece :=
  [.token .punct ")", .blank [' '], .token .ident "returns", .blank [' '], .token .ident "error",
    .token .punct "?", .blank [' '], .token .punct "\x7b", .blank ending]

def paramsPieces (quoting : TokenKind) (q : String) : TemplateKind → List Piece
  | .withCaller => paramPieces quoting q "Message" "message" ++ ([.token .punct ",", .blank [' ']] ++
      paramPieces quoting q "Caller" "caller")
  | .withoutCaller => paramPieces quoting q "Message" "message"

/-- The pieces of a handler's body: a statement that completes the message, if there is a caller. -/
def bodyPieces (column : Nat) (ending : List Char) : TemplateKind → List Piece
  | .withCaller => [.blank (Placement.spaces column), .token .ident "check", .blank [' '],
      .token .ident "caller", .token .punct "->", .token .ident "complete", .token .punct "(",
      .token .punct ")", .token .punct ";", .blank ending]
  | .withoutCaller => []

def closePieces (base : Nat) : List Piece := [.blank (Placement.spaces base), .token .punct "\x7d"]

def handlerPieces (p : Placement) (quoting : TokenKind) (kind : TemplateKind) : List Piece :=
  headPieces p.base ++ (paramsPieces quoting p.qualifier kind ++ (returnPieces p.lineEnding ++
    (bodyPieces (p.base + p.unit) p.lineEnding kind ++ closePieces p.base)))

/-! ## Rendering -/

theorem mark_toList : Template.mark = '$' :: "\x7bprefix\x7d".toList := by
  unfold Template.mark
  rw [String.toList_ofList, String.toList_ofList]

/-- The text with a caller, with the module's name in it. -/
theorem replace_withCaller (q : List Char) :
    Text.replace Template.mark q TemplateKind.withCaller.template.body.toList =
      ("remote function onMessage(".toList ++ q ++ ":Message message, ".toList ++ q ++
        ":Caller caller) returns error? ".toList ++ ['\x7b']) ++ '\n' ::
        (("    check caller->complete()".toList ++ [';']) ++ '\n' :: ['\x7d']) := by
  have hbody : TemplateKind.withCaller.template.body.toList =
      "remote function onMessage(".toList ++ (Template.mark ++ (":Message message, ".toList ++
        (Template.mark ++ (":Caller caller) returns error? \x7b\n".toList ++
          ("    check caller->complete();\n\x7d".toList ++ []))))) := by
    unfold TemplateKind.template Template.builtinWithCaller Template.mark
    rw [String.toList_append]
    repeat rw [String.toList_ofList]
    rfl
  rw [hbody, Text.replace, mark_toList]
  repeat rw [String.toList_ofList]
  rw [Text.replaceFrom_stretch (by decide), Text.replaceFrom_word, Text.replaceFrom_stretch (by decide),
    Text.replaceFrom_word, Text.replaceFrom_stretch (by decide), Text.replaceFrom_stretch (by decide)]
  simp [Text.replaceFrom]

/-- The text without a caller, with the module's name in it. -/
theorem replace_withoutCaller (q : List Char) :
    Text.replace Template.mark q TemplateKind.withoutCaller.template.body.toList =
      ("remote function onMessage(".toList ++ q ++ ":Message message) returns error? ".toList ++ ['\x7b']) ++
        '\n' :: ['\x7d'] := by
  have hbody : TemplateKind.withoutCaller.template.body.toList =
      "remote function onMessage(".toList ++ (Template.mark ++
        (":Message message) returns error? \x7b\n\x7d".toList ++ [])) := by
    unfold TemplateKind.template Template.builtinWithoutCaller Template.mark
    repeat rw [String.toList_ofList]
    rfl
  rw [hbody, Text.replace, mark_toList]
  repeat rw [String.toList_ofList]
  rw [Text.replaceFrom_stretch (by decide), Text.replaceFrom_word, Text.replaceFrom_stretch (by decide)]
  simp [Text.replaceFrom]

/-- A built-in template is rendered as the pieces of its handler. -/
theorem render_template (p : Placement) (quoting : TokenKind) (kind : TemplateKind)
    (hq : '\n' ∉ p.qualifier.toList) :
    p.render kind.template.body.toList = written (handlerPieces p quoting kind) := by
  have hlast : Text.lines ['\x7d'] = [['\x7d']] := Text.lines_of_notMem (by decide) (by simp)
  have hclose : p.indentLine ['\x7d'] = Placement.spaces p.base ++ ['\x7d'] :=
    p.indentLine_flush (by decide) []
  have hfirst : ∀ line, p.indentLine ('r' :: line) = Placement.spaces p.base ++ 'r' :: line :=
    p.indentLine_flush (by decide)
  have hcomplete : ∀ line, p.indentLine (' ' :: ' ' :: ' ' :: ' ' :: 'c' :: line) =
      Placement.spaces (p.base + p.unit) ++ 'c' :: line := fun line => by
    simpa [Template.unit, Placement.spaces] using p.indentLine_spaces 4 (show 'c' ≠ ' ' by decide) line
  rw [Placement.render]
  cases kind with
  | withCaller =>
    rw [replace_withCaller]
    simp only [handlerPieces, headPieces, paramsPieces, paramPieces, returnPieces, bodyPieces, closePieces,
      written_cons, written_append, Piece.chars]
    repeat rw [String.toList_ofList]
    rw [Text.lines_append (by simp [hq]), Text.lines_append (by simp), hlast, Text.dropReturn_concat (by decide),
      Text.dropReturn_concat (by decide)]
    simp [hfirst, hcomplete, hclose, List.intercalate]
  | withoutCaller =>
    rw [replace_withoutCaller]
    simp only [handlerPieces, headPieces, paramsPieces, paramPieces, returnPieces, bodyPieces, closePieces,
      written_cons, written_append, Piece.chars]
    repeat rw [String.toList_ofList]
    rw [Text.lines_append (by simp [hq]), hlast, Text.dropReturn_concat (by decide)]
    simp [hfirst, hclose, List.intercalate]

/-! ## Tokens -/

/-- The name of the module is read as one token before any character that cannot continue it. -/
def ReadsName (quoting : TokenKind) (q : String) : Prop :=
  (quoting = .ident ∨ quoting = .quotedIdent) ∧
    ∀ rest : List Char, (∀ x ∈ rest.head?, isIdentPart x = false) → ReadsAs quoting q.toList rest

def handlerWords : List String :=
  ["remote", "function", "onMessage", "Message", "message", "Caller", "caller", "returns", "error", "check",
    "complete"]

theorem handlerWords_isIdentifier : ∀ w ∈ handlerWords, IsIdentifier w.toList := by
  simp only [handlerWords, List.forall_mem_cons, List.not_mem_nil, false_implies, implies_true, and_true]
  repeat rw [String.toList_ofList]
  decide

theorem readsAs_word {w : String} {rest : List Char} (hw : w ∈ handlerWords)
    (hr : ∀ x ∈ rest.head?, isIdentPart x = false) : ReadsAs .ident w.toList rest :=
  (handlerWords_isIdentifier w hw).readsAs hr

theorem paramPieces_readable {quoting : TokenKind} {q type name : String} (hq : ReadsName quoting q)
    (htype : type ∈ handlerWords) (hname : name ∈ handlerWords) {rest : List Char}
    (hr : ∀ x ∈ rest.head?, isIdentPart x = false) : Readable (paramPieces quoting q type name) rest := by
  simp only [paramPieces, Readable, written_cons, written_nil, Piece.chars]
  refine ⟨hq.2 _ ?_, readsAs_mark (by decide) _, readsAs_word htype ?_, ?_, readsAs_word hname hr, trivial⟩
  · simp; decide
  · simp; decide
  · simp; decide

theorem spaces_blank (n : Nat) : ∀ c ∈ Placement.spaces n, Text.isWhiteSpace c = true := by
  intro c hc
  rw [(List.mem_replicate.1 hc).2]
  decide

theorem headPieces_readable (base : Nat) (rest : List Char) : Readable (headPieces base) rest := by
  have hspace : ∀ c ∈ [' '], Text.isWhiteSpace c = true := spaces_blank 1
  simp only [headPieces, Readable, written_cons, written_nil, Piece.chars]
  refine ⟨spaces_blank base, readsAs_word (by simp [handlerWords]) ?_, hspace,
    readsAs_word (by simp [handlerWords]) ?_, hspace, readsAs_word (by simp [handlerWords]) ?_,
    readsAs_mark (by decide) _, trivial⟩
  · simp; decide
  · simp; decide
  · simp; decide

theorem returnPieces_readable {ending : List Char} (he : ∀ c ∈ ending, Text.isWhiteSpace c = true)
    (rest : List Char) : Readable (returnPieces ending) rest := by
  have hspace : ∀ c ∈ [' '], Text.isWhiteSpace c = true := spaces_blank 1
  simp only [returnPieces, Readable, written_cons, written_nil, Piece.chars]
  refine ⟨readsAs_mark (by decide) _, hspace, readsAs_word (by simp [handlerWords]) ?_, hspace,
    readsAs_word (by simp [handlerWords]) ?_, readsAs_mark (by decide) _, hspace,
    readsAs_mark (by decide) _, he, trivial⟩
  · simp; decide
  · simp; decide

theorem paramsPieces_readable {quoting : TokenKind} {q : String} (kind : TemplateKind)
    (hq : ReadsName quoting q) {rest : List Char} (hr : ∀ x ∈ rest.head?, isIdentPart x = false) :
    Readable (paramsPieces quoting q kind) rest := by
  cases kind with
  | withCaller =>
    refine readable_append.2 ⟨?_, readable_append.2 ⟨⟨readsAs_mark (by decide) _, spaces_blank 1, trivial⟩, ?_⟩⟩
    · refine paramPieces_readable hq (by simp [handlerWords]) (by simp [handlerWords]) ?_
      simp [Piece.chars]; decide
    · exact paramPieces_readable hq (by simp [handlerWords]) (by simp [handlerWords]) hr
  | withoutCaller => exact paramPieces_readable hq (by simp [handlerWords]) (by simp [handlerWords]) hr

theorem bodyPieces_readable (column : Nat) {ending : List Char} (kind : TemplateKind)
    (he : ∀ c ∈ ending, Text.isWhiteSpace c = true) (rest : List Char) :
    Readable (bodyPieces column ending kind) rest := by
  cases kind with
  | withCaller =>
    simp only [bodyPieces, Readable, written_cons, written_nil, Piece.chars]
    refine ⟨spaces_blank column, readsAs_word (by simp [handlerWords]) ?_, spaces_blank 1,
      readsAs_word (by simp [handlerWords]) ?_, readsAs_arrow _,
      readsAs_word (by simp [handlerWords]) ?_, readsAs_mark (by decide) _, readsAs_mark (by decide) _,
      readsAs_mark (by decide) _, he, trivial⟩
    · simp; decide
    · simp; decide
    · simp; decide
  | withoutCaller => exact trivial

/-- A handler is read as its tokens, whatever follows it. -/
theorem handlerPieces_readable {p : Placement} {quoting : TokenKind} (kind : TemplateKind)
    (hq : ReadsName quoting p.qualifier) (he : ∀ c ∈ p.lineEnding, Text.isWhiteSpace c = true)
    (rest : List Char) : Readable (handlerPieces p quoting kind) rest := by
  simp only [handlerPieces, readable_append]
  refine ⟨headPieces_readable _ _, paramsPieces_readable kind hq ?_, returnPieces_readable he _,
    bodyPieces_readable _ kind he _, spaces_blank _, readsAs_mark (by decide) _, trivial⟩
  simp [returnPieces, Piece.chars]; decide

/-! ## Parsing -/

/-- A parameter of the module's type, without its span. -/
def handlerParam (q type name : String) : Param := ⟨q ++ ":" ++ type, name, ⟨0, 0⟩, false⟩

def handlerParams (q : String) : TemplateKind → List Param
  | .withCaller => [handlerParam q "Message" "message", handlerParam q "Caller" "caller"]
  | .withoutCaller => [handlerParam q "Message" "message"]

/-- The function that a template declares, without its spans. -/
def handler (q : String) (kind : TemplateKind) : Member where
  span := ⟨0, 0⟩
  body := .method {
    qualifiers := ["remote"]
    name := "onMessage"
    nameSpan := ⟨0, 0⟩
    params := handlerParams q kind
    paramsSpan := ⟨0, 0⟩ }

namespace Parse

/-- Tokens that neither open nor close anything are read up to a comma or parenthesis. -/
theorem paramTokens_flat {part : List Token} {stop : Token}
    (h : ∀ t ∈ part, t.opens? = none ∧ t.closes? = none ∧ t.isPunct "," = false)
    (hstop : (stop.isPunct ")" || stop.isPunct ",") = true) (rest : List Token) :
    paramTokens [] (part ++ stop :: rest) = .ok (part, stop, rest) := by
  induction part with
  | nil => simp [paramTokens, hstop]
  | cons t part ih =>
    obtain ⟨hopen, hclose, hcomma⟩ := h t List.mem_cons_self
    have hparen : t.isPunct ")" = false := by
      by_contra hp
      rw [Bool.not_eq_false] at hp
      simp [Token.closes?, hp] at hclose
    have hrest := ih fun u hu => h u (List.mem_cons_of_mem _ hu)
    simp [paramTokens, hparen, hcomma, nest, hopen, hclose, hrest]

variable {quoting : TokenKind} {q type name : String}

theorem paramTokens_paramPieces (hq : quoting = .ident ∨ quoting = .quotedIdent) (o : Nat) {stop : Token}
    (hstop : (stop.isPunct ")" || stop.isPunct ",") = true) (rest : List Token) :
    paramTokens [] (tokensOf o (paramPieces quoting q type name) ++ stop :: rest) =
      .ok (tokensOf o (paramPieces quoting q type name), stop, rest) := by
  refine paramTokens_flat ?_ hstop rest
  rcases hq with rfl | rfl <;>
    simp [paramPieces, tokensOf, Piece.token?, Token.opens?, Token.closes?, Token.isPunct]

/-- A qualified type and a name declare a parameter. -/
theorem param?_qualified {text : List Char} {first colon type name : Token}
    (h : ∀ t ∈ [first, colon, type, name], t.isPunct "=" = false) (hname : name.isName = true)
    (htype : type.text ≠ ":") :
    param? text [first, colon, type, name] =
      .ok (some ⟨Token.slice text first type, name.text, ⟨first.start, name.stop⟩, false⟩) := by
  simp only [List.mem_cons, List.not_mem_nil, or_false, forall_eq_or_imp, forall_eq] at h
  simp [param?, h, hname, htype]

/-- The tokens of a parameter of the module's type declare such a parameter. -/
theorem param?_paramPieces (hq : quoting = .ident ∨ quoting = .quotedIdent) (htype : type ≠ ":")
    {text a c : List Char} {o : Nat} (htext : text = a ++ (written (paramPieces quoting q type name) ++ c))
    (ho : o = Text.size a) :
    ∃ p, param? text (tokensOf o (paramPieces quoting q type name)) = .ok (some p) ∧
      p.map (fun _ => 0) = handlerParam q type name := by
  subst ho
  have hslice : Text.slice text (Text.size a) (Text.size a + Text.size (q.toList ++ ':' :: type.toList)) =
      q.toList ++ ':' :: type.toList := by
    have := Text.slice_mid a (q.toList ++ ':' :: type.toList) (' ' :: (name.toList ++ c))
    rw [htext]
    simpa [paramPieces, Piece.chars] using this
  refine ⟨_, param?_qualified ?_ rfl htype, ?_⟩
  · rcases hq with rfl | rfl <;> simp [Token.isPunct]
  · simp only [Text.size_append, Text.size_cons, ← Nat.add_assoc] at hslice
    simp only [Param.map, handlerParam, Token.slice, Token.stop, Span.map, Piece.chars]
    have hcolon : Text.size ":".toList = ':'.utf8Size := by simp
    have htext : String.ofList (q.toList ++ ':' :: type.toList) = q ++ ":" ++ type := by
      rw [← String.toList_inj]
      simp
    rw [hcolon, hslice, htext]

/-- The parameters of a handler, without their spans. -/
theorem paramsTail_paramsPieces (kind : TemplateKind) (hq : quoting = .ident ∨ quoting = .quotedIdent)
    {text a c : List Char} {o : Nat} (htext : text = a ++ (written (paramsPieces quoting q kind) ++ c))
    (ho : o = Text.size a) {close : Token} (hclose : close.isPunct ")" = true) (rest : List Token) :
    ∃ ps, paramsTail text (tokensOf o (paramsPieces quoting q kind) ++ close :: rest) =
        .ok (ps, close, rest) ∧ ps.map (Param.map fun _ => 0) = handlerParams q kind := by
  have hstop : (close.isPunct ")" || close.isPunct ",") = true := by simp [hclose]
  cases kind with
  | withCaller =>
    let message := paramPieces quoting q "Message" "message"
    let caller := paramPieces quoting q "Caller" "caller"
    have htext₁ : text = a ++ (written message ++ (',' :: ' ' :: (written caller ++ c))) := by
      rw [htext]
      simp [paramsPieces, Piece.chars, message, caller]
    have htext₂ : text = (a ++ (written message ++ [',', ' '])) ++ (written caller ++ c) := by
      rw [htext₁]
      simp
    have htokens : tokensOf o (paramsPieces quoting q .withCaller) ++ close :: rest =
        tokensOf o message ++ ⟨.punct, o + Text.size (written message), ","⟩ ::
          (tokensOf (Text.size (a ++ (written message ++ [',', ' ']))) caller ++ close :: rest) := by
      simp [paramsPieces, tokensOf_append, tokensOf, Piece.token?, Piece.chars, ho, message, caller,
        Nat.add_assoc]
    obtain ⟨p₁, hp₁, hbare₁⟩ := param?_paramPieces hq (by decide) htext₁ ho
    obtain ⟨p₂, hp₂, hbare₂⟩ := param?_paramPieces hq (by decide) htext₂ rfl
    have hlast := paramsTail_last (paramTokens_paramPieces hq _ hstop rest) hp₂ hclose
    refine ⟨[p₁, p₂], ?_, by simp [handlerParams, hbare₁, hbare₂]⟩
    rw [htokens, paramsTail_more (paramTokens_paramPieces hq o rfl _) hp₁ rfl, hlast]
    rfl
  | withoutCaller =>
    obtain ⟨p, hp, hbare⟩ := param?_paramPieces hq (by decide) htext ho
    exact ⟨_, paramsTail_last (paramTokens_paramPieces hq o hstop rest) hp hclose,
      by simp [handlerParams, hbare]⟩

/-- What follows the parameters of a handler, up to the end of its body. -/
theorem functionEnd_handler (o₁ o₂ o₃ column base : Nat) (ending : List Char) (kind : TemplateKind)
    (rest : List Token) :
    ∃ last, functionEnd ((tokensOf o₁ (returnPieces ending)).tail ++
      (tokensOf o₂ (bodyPieces column ending kind) ++ (tokensOf o₃ (closePieces base) ++ rest))) =
        .ok (last, rest) := by
  cases kind <;>
    simp [functionEnd, returnPieces, bodyPieces, closePieces, tokensOf, Piece.token?, upTo, group, nest,
      Token.is, Token.isPunct, Token.opens?, Token.closes?, bind, Except.bind]

theorem member_headPieces {o base : Nat} {text : List Char} {tokens rest rest' : List Token} {ps : List Param}
    {close last : Token} (hparams : paramsTail text tokens = .ok (ps, close, rest))
    (hend : functionEnd rest = .ok (last, rest')) :
    ∃ m, member text (tokensOf o (headPieces base) ++ tokens) = .ok (m, rest') ∧
      m.bare = ⟨⟨0, 0⟩, .method ⟨["remote"], "onMessage", ⟨0, 0⟩, ps.map (Param.map fun _ => 0), ⟨0, 0⟩⟩⟩ := by
  obtain ⟨span, nameSpan, paramsSpan, h⟩ : ∃ span nameSpan paramsSpan,
      member text (tokensOf o (headPieces base) ++ tokens) =
        .ok (⟨span, .method ⟨["remote"], "onMessage", nameSpan, ps, paramsSpan⟩⟩, rest') := by
    simp [headPieces, tokensOf, Piece.token?, member, annotations, startsWith, qualifiers, memberQualifiers,
      Token.is, function, expect, expectName, Token.isName, nameTail, params, hparams, hend, bind, Except.bind,
      pure, Except.pure]
  exact ⟨_, h, by simp [Member.bare, Member.map, MemberBody.map, Method.map, Span.map]⟩

/-- The tokens of a handler are read as that handler. -/
theorem member_handlerPieces {p : Placement} {quoting : TokenKind} (kind : TemplateKind)
    (hq : quoting = .ident ∨ quoting = .quotedIdent) {text a c : List Char} {o : Nat}
    (htext : text = a ++ (written (handlerPieces p quoting kind) ++ c)) (ho : o = Text.size a)
    (rest : List Token) :
    ∃ m, member text (tokensOf o (handlerPieces p quoting kind) ++ rest) = .ok (m, rest) ∧
      m.bare = handler p.qualifier kind := by
  have hparamsText : text = (a ++ written (headPieces p.base)) ++
      (written (paramsPieces quoting p.qualifier kind) ++ (written (returnPieces p.lineEnding ++
        (bodyPieces (p.base + p.unit) p.lineEnding kind ++ closePieces p.base)) ++ c)) := by
    rw [htext]
    simp only [handlerPieces, written_append, List.append_assoc]
  have hreturn : ∀ o, tokensOf o (returnPieces p.lineEnding) =
      ⟨.punct, o, ")"⟩ :: (tokensOf o (returnPieces p.lineEnding)).tail := fun _ => rfl
  have hclose : ∀ o, (⟨.punct, o, ")"⟩ : Token).isPunct ")" = true := fun _ => rfl
  simp only [handlerPieces, tokensOf_append, List.append_assoc]
  rw [hreturn, List.cons_append]
  obtain ⟨last, hend⟩ := functionEnd_handler _ _ _ (p.base + p.unit) p.base p.lineEnding kind rest
  have ho' : o + Text.size (written (headPieces p.base)) = Text.size (a ++ written (headPieces p.base)) := by
    rw [Text.size_append, ho]
  obtain ⟨ps, hparams, hbare⟩ := paramsTail_paramsPieces kind hq hparamsText ho' (hclose _) _
  obtain ⟨m, hm, hmbare⟩ := member_headPieces hparams hend
  exact ⟨m, hm, by rw [hmbare, hbare]; rfl⟩

end Parse

theorem ReadsName.of_isNameText {q : String} (h : IsNameText q.toList) : ∃ quoting, ReadsName quoting q := by
  obtain ⟨quoting, hquoting, hread⟩ := h.readsAs
  exact ⟨quoting, hquoting, hread⟩

/-- The text of a handler is read as that handler at the end of a service. -/
theorem readsMember_handler {p : Placement} {quoting : TokenKind} (kind : TemplateKind)
    (hq : ReadsName quoting p.qualifier) (he : IsLineEnding p.lineEnding) :
    ReadsMember (handlerPieces p quoting kind) (handler p.qualifier kind) := by
  refine ⟨handlerPieces_readable kind hq he.blank, ?_⟩
  intro text a c htext close rest hclose
  obtain ⟨m, hm, hbare⟩ := Parse.member_handlerPieces kind hq.1 htext rfl (close :: rest)
  obtain ⟨t, tail, htokens, ht⟩ : ∃ t tail, tokensOf (Text.size a) (handlerPieces p quoting kind) = t :: tail ∧
      t.is "\x7d" = false := ⟨_, _, rfl, rfl⟩
  refine ⟨m, ?_, hbare⟩
  rw [htokens, List.cons_append] at hm ⊢
  rw [Parse.members_step ht hm, Parse.members, if_pos hclose]
  rfl

end ServiceLint
