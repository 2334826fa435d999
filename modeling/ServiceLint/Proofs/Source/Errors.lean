import ServiceLint.Command.Report
import ServiceLint.Package.Default
import ServiceLint.Proofs.Source.Parse.Faults
import ServiceLint.Proofs.Source.Parse.Places
import ServiceLint.Proofs.Source.Positions

/-!
# Where parse errors point

A parse error quotes the text that it points at: `ParseError.PointsAt`, which is what a reader of the
message relies on. A literal that is left open is found where it starts (`scan_error`). Any other failure
points at tokens of the text (`declarations_pointsInto`), and these stand in the text where they say, so the
words of the error are those of the text (`Failure.toError_pointsAt`).
-/
namespace ServiceLint

/-- The character that opens the literal and has to close it. -/
def Literal.delimiter : Literal → Char
  | .string => '"'
  | .template => '\x60'

/-- The text is, at the offset of the error, what the error says of it. -/
def ParseError.PointsAt (text : List Char) : ParseError → Prop
  | .unterminated literal o => (Text.dropBytes o text).head? = some literal.delimiter
  | .unexpectedEnd _ o => o = Text.size text
  | .expected _ found o => found ≠ "" ∧ found.toList <+: Text.dropBytes o text
  | .unbalanced d o => (d = ")" ∨ d = "]" ∨ d = "\x7d") ∧ d.toList <+: Text.dropBytes o text

/-! ## Open literals -/

theorem lexeme_error {c : Char} {cs : List Char} {literal : Literal} (h : lexeme c cs = .error literal) :
    c = literal.delimiter := by
  unfold lexeme at h
  split at h
  · next hc =>
    split at h <;> cases h
    exact hc
  · split at h
    · next hc =>
      split at h <;> cases h
      exact hc
    · split at h
      · cases h
      · split at h
        · cases h
        · split at h <;> cases h

/-- Reading tokens fails at the first character of a literal. -/
theorem scan_error {o : Nat} {cs : List Char} {e : ParseError} (h : scan o cs = .error e) :
    ∃ literal pre rest, e = .unterminated literal (o + Text.size pre) ∧
      cs = pre ++ literal.delimiter :: rest := by
  fun_induction scan o cs with
  | case1 => cases h
  | case2 o c cs _ ih =>
    obtain ⟨literal, pre, rest, rfl, rfl⟩ := ih h
    exact ⟨literal, c :: pre, rest, by rw [Text.size_cons, Nat.add_assoc], rfl⟩
  | case3 o c cs _ _ ih =>
    obtain ⟨literal, pre, rest, rfl, hpre⟩ := ih h
    refine ⟨literal, c :: (cs.takeWhile (· ≠ '\n') ++ pre), rest, ?_, ?_⟩
    · rw [Nat.add_assoc, ← Text.size_append, List.cons_append]
    · rw [List.cons_append, List.append_assoc, ← hpre, List.takeWhile_append_dropWhile]
  | case4 o c cs _ _ literal hl =>
    cases h
    exact ⟨literal, [], cs, rfl, by rw [lexeme_error hl]; rfl⟩
  | case5 o c cs _ _ kind chars rest hl _ e hrec ih =>
    cases h
    obtain ⟨literal, pre, rest', rfl, rfl⟩ := ih hrec
    refine ⟨literal, chars ++ pre, rest', by rw [Text.size_append, Nat.add_assoc], ?_⟩
    rw [List.append_assoc, lexeme_append hl]
  | case6 => cases h

/-! ## Failures at tokens -/

/-- The text from a clean cut up to a later one stands at the first one. -/
theorem CleanCut.slice_prefix {text : List Char} {i j : Nat} (hi : CleanCut text i) (hj : CleanCut text j)
    (hij : i < j) : Text.slice text i j ≠ [] ∧ Text.slice text i j <+: Text.dropBytes i text := by
  obtain ⟨a, b, rfl, rfl, -⟩ := hi
  obtain ⟨a', b', htext, rfl, -⟩ := hj
  obtain ⟨mid, rfl, rfl⟩ : ∃ mid, a' = a ++ mid ∧ b = mid ++ b' := by
    rcases List.append_eq_append_iff.1 htext with ⟨mid, hmid⟩ | ⟨mid, rfl, -⟩
    · exact ⟨mid, hmid⟩
    · rw [Text.size_append] at hij
      omega
  rw [Text.size_append, Text.slice_mid, Text.dropBytes_size]
  refine ⟨?_, List.prefix_append mid b'⟩
  rintro rfl
  rw [List.append_nil] at hij
  omega

theorem Token.text_of_closes? {t : Token} (h : t.closes?.isSome = true) :
    t.text = ")" ∨ t.text = "]" ∨ t.text = "\x7d" := by
  obtain ⟨d, hd⟩ := Option.isSome_iff_exists.1 h
  obtain ⟨-, hs⟩ | ⟨-, hs⟩ | ⟨-, hs⟩ := Token.isPunct_of_closes? hd
  · exact Or.inl (Token.text_of_isPunct hs)
  · exact Or.inr (Or.inl (Token.text_of_isPunct hs))
  · exact Or.inr (Or.inr (Token.text_of_isPunct hs))

/-- A token stands, in full, where it starts. -/
theorem Token.Stands.in_text {text : List Char} {t : Token} (h : t.Stands text) :
    t.text ≠ "" ∧ t.text.toList <+: Text.dropBytes t.start text := by
  obtain ⟨hne, hprefix⟩ := h.start.slice_prefix h.stop h.lt
  rw [h.slice] at hne hprefix
  exact ⟨fun hempty => hne (by rw [Token.chars, hempty]; rfl), hprefix⟩

/-- A failure at tokens of a text says of the text what is so, at a boundary of the text. -/
theorem Failure.toError_pointsAt {text : List Char} {tokens : List Token} {f : Failure}
    (hl : Laid text 0 tokens (Text.size text)) (hf : f.PointsInto text tokens) :
    (f.toError text).PointsAt text ∧ (f.toError text).offset ≤ Text.size text ∧
      Text.isBoundary (f.toError text).offset text = true := by
  cases f with
  | endOfText e =>
    have hend := Text.isBoundary_size text []
    rw [List.append_nil] at hend
    exact ⟨rfl, Nat.le_refl _, hend⟩
  | unexpected e found offset =>
    obtain ⟨part, first, last, ⟨pre, post, rfl⟩, hfirst, hlast, rfl, hfound⟩ := hf
    obtain ⟨mid, hfront, -⟩ := laid_append.1 hl
    obtain ⟨lo, -, hpart⟩ := laid_append.1 hfront
    have hspan := hpart.span hfirst hlast
    refine ⟨?_, hspan.start.le_size, hspan.start.isBoundary⟩
    rcases hfound with rfl | rfl
    · exact (hpart.stands (List.mem_of_head? hfirst)).in_text
    · obtain ⟨hne, hprefix⟩ := hspan.start.slice_prefix hspan.stop hspan.lt
      refine ⟨fun hempty => hne (String.ofList_injective hempty), ?_⟩
      rwa [Token.slice, String.toList_ofList]
  | unbalanced t =>
    obtain ⟨hmem, hclose⟩ := hf
    have ht := hl.stands hmem
    exact ⟨⟨Token.text_of_closes? hclose, ht.in_text.2⟩, ht.start.le_size, ht.start.isBoundary⟩

/-! ## Errors of a text -/

theorem Module.parse_error_pointsAt {text : List Char} {e : ParseError} (h : Module.parse text = .error e) :
    e.PointsAt text ∧ e.offset ≤ Text.size text ∧ Text.isBoundary e.offset text = true := by
  cases htok : tokenize text with
  | error e' =>
    rw [Module.parse_eq_error_of_tokenize htok] at h
    cases h
    obtain ⟨literal, pre, rest, rfl, rfl⟩ := scan_error htok
    rw [Nat.zero_add]
    refine ⟨?_, by simp [ParseError.offset], Text.isBoundary_size pre _⟩
    show (Text.dropBytes (Text.size pre) (pre ++ literal.delimiter :: rest)).head? = _
    rw [Text.dropBytes_size]
    rfl
  | ok tokens =>
    rw [Module.parse_eq htok] at h
    cases hdecls : Parse.declarations text tokens with
    | error f =>
      rw [hdecls] at h
      cases h
      exact Failure.toError_pointsAt (tokenize_laid htok) (Parse.declarations_pointsInto hdecls)
    | ok ds =>
      rw [hdecls] at h
      cases h

theorem SourceFile.parse_eq_error {name : String} {text : List Char} {e : ParseError}
    (h : SourceFile.parse name text = .error e) : Module.parse text = .error e := by
  unfold SourceFile.parse at h
  cases hm : Module.parse text with
  | error e' =>
    rw [hm] at h
    cases h
    rfl
  | ok m =>
    rw [hm] at h
    cases h

/-- A parse error points at what it reports, at an offset that has a position: a report of the file always
gives that position. -/
theorem SourceFile.parse_error_position [Similarity] {name : String} {text : List Char} {e : ParseError}
    (h : SourceFile.parse name text = .error e) :
    e.PointsAt text ∧ e.offset ≤ Text.size text ∧ Text.isBoundary e.offset text = true ∧
      ∀ config, Command.FileReport.ofText config name text =
        { path := name, parseError := some ⟨(LineIndex.ofText text).position e.offset, e⟩ } := by
  obtain ⟨hpoints, hle, hboundary⟩ := Module.parse_error_pointsAt (SourceFile.parse_eq_error h)
  refine ⟨hpoints, hle, hboundary, fun config => ?_⟩
  have hposition : (LineIndex.ofText text).position? (min e.offset (Text.size text)) =
      .ok ((LineIndex.ofText text).position e.offset) := by
    rw [Nat.min_eq_left hle]
    exact LineIndex.position?_eq_ok_iff.2 ⟨hboundary, rfl⟩
  rw [Command.FileReport.ofText, h]
  dsimp only
  rw [hposition]

/-- A parameter without a name, on a line after characters of several bytes. -/
theorem SourceFile.parse_error_position_param :
    ∃ text e, text = ("// größe\r\nservice on l \x7b remote function f(mqtt : Message) \x7b\x7d \x7d").toList ∧
      SourceFile.parse "m.bal" text = .error e ∧ e = .expected .paramTypeAndName "mqtt : Message" 45 ∧
      e.PointsAt text ∧ e.offset ≤ Text.size text ∧ Text.isBoundary e.offset text = true ∧
      ∀ config, Command.FileReport.ofText config "m.bal" text =
        { path := "m.bal", parseError := some ⟨(LineIndex.ofText text).position e.offset, e⟩ } := by
  let text := ("// größe\r\nservice on l \x7b remote function f(mqtt : Message) \x7b\x7d \x7d").toList
  have hcheck : (match SourceFile.parse "m.bal" text with
      | .error e => decide (e = .expected .paramTypeAndName "mqtt : Message" 45)
      | .ok _ => false) = true := by
    decide +kernel
  cases hparse : SourceFile.parse "m.bal" text with
  | error e =>
    rw [hparse] at hcheck
    exact ⟨text, e, rfl, hparse, of_decide_eq_true hcheck, SourceFile.parse_error_position hparse⟩
  | ok file =>
    rw [hparse] at hcheck
    cases hcheck

end ServiceLint
