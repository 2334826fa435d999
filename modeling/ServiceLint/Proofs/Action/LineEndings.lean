import Mathlib.Data.List.Chain
import ServiceLint.Proofs.Action.Insertion

/-!
# Line endings stay uniform

Carrying out an action leaves a file whose lines all end alike with lines that all end alike
(`CodeAction.execute_lineEndings`). In both cases the new text is the old one with something put in after a
character that is no carriage return, so what counts is each pair of neighbours: whether a carriage return
stands before a line feed (`Text.Feeds`).
-/
namespace ServiceLint

namespace Text

/-- Every line feed follows a carriage return. -/
def OnlyReturnFeeds (cs : List Char) : Prop :=
  ∀ front rest, cs = front ++ '\n' :: rest → front.getLast? = some '\r'

/-- A line feed has a carriage return before it exactly when lines end that way. -/
def Feeds (returns : Prop) (c d : Char) : Prop := d = '\n' → (c = '\r' ↔ returns)

instance (returns : Prop) [Decidable returns] (c d : Char) : Decidable (Feeds returns c d) :=
  inferInstanceAs (Decidable (d = '\n' → (c = '\r' ↔ returns)))

theorem isChain_feeds_iff {returns : Prop} {cs : List Char} :
    (' ' :: cs).IsChain (Feeds returns) ↔
      (∀ rest, cs = '\n' :: rest → ¬ returns) ∧
        ∀ front c rest, cs = front ++ c :: '\n' :: rest → (c = '\r' ↔ returns) := by
  rw [List.isChain_iff_forall_rel_of_append_cons_cons]
  constructor
  · intro h
    refine ⟨fun rest hcs hreturns => ?_, fun front c rest hcs => ?_⟩
    · have hpair : ' ' :: cs = [] ++ ' ' :: '\n' :: rest := by rw [hcs, List.nil_append]
      exact absurd ((h hpair rfl).2 hreturns) (by decide)
    · have hpair : ' ' :: cs = (' ' :: front) ++ c :: '\n' :: rest := by rw [hcs, List.cons_append]
      exact h hpair rfl
  · rintro ⟨hfirst, hrest⟩ c d front rest hpair rfl
    cases front with
    | nil =>
      obtain ⟨rfl, rfl⟩ := List.cons.inj hpair
      simp [hfirst rest rfl]
    | cons e front => exact hrest front c rest (List.cons.inj hpair).2

theorem isChain_returns_iff {cs : List Char} : (' ' :: cs).IsChain (Feeds True) ↔ OnlyReturnFeeds cs := by
  rw [isChain_feeds_iff]
  constructor
  · rintro ⟨hfirst, hrest⟩ front rest hcs
    rcases List.eq_nil_or_concat' front with rfl | ⟨front, c, rfl⟩
    · exact absurd trivial (hfirst rest hcs)
    · rw [List.getLast?_concat, (hrest front c rest (by rw [hcs]; simp)).2 trivial]
  · intro h
    refine ⟨fun rest hcs => ?_, fun front c rest hcs => ?_⟩
    · cases h [] rest hcs
    · have hlast := h (front ++ [c]) rest (by rw [hcs]; simp)
      rw [List.getLast?_concat] at hlast
      simpa using hlast

theorem isChain_bare_iff {cs : List Char} :
    (' ' :: cs).IsChain (Feeds False) ↔ ¬ ['\r', '\n'] <:+: cs := by
  rw [isChain_feeds_iff]
  constructor
  · rintro ⟨-, hrest⟩ ⟨front, rest, hcs⟩
    exact (hrest front '\r' rest (by rw [← hcs]; simp)).1 rfl
  · intro h
    refine ⟨fun _ _ => id, fun front c rest hcs => iff_of_false ?_ id⟩
    rintro rfl
    exact h ⟨front, rest, by rw [hcs]; simp⟩

/-! ## What can be put in -/

/-- The text can stand after any character but a carriage return, and it does not end with one. -/
def Fills (returns : Prop) (cs : List Char) : Prop :=
  ∀ c ≠ '\r', (c :: cs).IsChain (Feeds returns) ∧ ∃ front last, c :: cs = front ++ [last] ∧ last ≠ '\r'

variable {returns : Prop} {u v : List Char}

theorem Fills.append (hu : Fills returns u) (hv : Fills returns v) : Fills returns (u ++ v) := by
  intro c hc
  obtain ⟨hchain, front, d, hfront, hd⟩ := hu c hc
  obtain ⟨hchain', front', last, hfront', hlast⟩ := hv d hd
  have hall : c :: (u ++ v) = front ++ d :: v := by rw [← List.cons_append, hfront]; simp
  refine ⟨?_, front ++ front', last, ?_, hlast⟩
  · rw [hall, List.isChain_split, ← hfront]
    exact ⟨hchain, hchain'⟩
  · rw [hall, hfront', List.append_assoc]

/-- A text without line breaks can be put in. -/
theorem Fills.plain (h : ∀ c ∈ u, c ≠ '\n' ∧ c ≠ '\r') : Fills returns u := by
  induction u with
  | nil => exact fun c hc => ⟨.singleton c, [], c, rfl, hc⟩
  | cons d u ih =>
    intro c hc
    obtain ⟨⟨hfeed, hreturn⟩, hrest⟩ := List.forall_mem_cons.1 h
    obtain ⟨hchain, front, last, hfront, hlast⟩ := ih hrest d hreturn
    exact ⟨.cons_cons (fun hd => absurd hd hfeed) hchain, c :: front, last, by rw [hfront, List.cons_append],
      hlast⟩

theorem Fills.returnFeed (h : returns) : Fills returns ['\r', '\n'] := by
  intro c hc
  refine ⟨?_, [c, '\r'], '\n', rfl, by decide⟩
  simp [Feeds, h]

theorem Fills.feed (h : ¬ returns) : Fills returns ['\n'] := by
  intro c hc
  refine ⟨?_, [c], '\n', rfl, by decide⟩
  simp [Feeds, h, hc]

/-- A text is put in after a character that is no carriage return, and before a later part of what followed
it. -/
theorem Fills.insert {a b c : List Char} {last : Char} (hu : Fills returns u)
    (h : (' ' :: (a ++ last :: b)).IsChain (Feeds returns)) (hlast : last ≠ '\r') (hc : c <:+ b)
    (hjoin : ∀ rest, c = '\n' :: rest → ¬ returns) :
    (' ' :: (a ++ last :: (u ++ c))).IsChain (Feeds returns) := by
  rw [← List.cons_append, List.isChain_split] at h ⊢
  obtain ⟨hchain, front, d, hfront, hd⟩ := hu last hlast
  have hall : last :: (u ++ c) = front ++ d :: c := by rw [← List.cons_append, hfront]; simp
  refine ⟨h.1, ?_⟩
  rw [hall, List.isChain_split, ← hfront]
  refine ⟨hchain, (h.2.tail.suffix hc).cons fun y hy => ?_⟩
  rintro rfl
  obtain ⟨rest, hrest⟩ := List.head?_eq_some_iff.1 hy
  exact iff_of_false hd (hjoin rest hrest)

theorem hasReturnFeed_iff {cs : List Char} :
    SourceFile.hasReturnFeed cs = true ↔ ['\r', '\n'] <:+: cs := by
  fun_induction SourceFile.hasReturnFeed cs with
  | case1 cs => exact iff_of_true rfl ⟨[], cs, rfl⟩
  | case2 c cs hne ih =>
    rw [ih, List.infix_cons_iff]
    refine (or_iff_right ?_).symm
    rintro ⟨rest, hrest⟩
    obtain ⟨rfl, rfl⟩ := List.cons.inj hrest
    exact hne rest rfl rfl
  | case3 => simp

end Text

/-! ## Handlers -/

/-- The lines of a file end with a carriage return and a line feed, or with a line feed. -/
theorem SourceFile.fills_lineEnding {returns : Prop} {file : SourceFile}
    (h : ['\r', '\n'] <:+: file.text ↔ returns) : Text.Fills returns file.lineEnding := by
  rw [← Text.hasReturnFeed_iff] at h
  unfold SourceFile.lineEnding
  split
  · next hyes => exact .returnFeed (h.1 hyes)
  · next hno => exact .feed fun hreturns => hno (h.2 hreturns)

theorem fills_spaces (returns : Prop) (n : Nat) : Text.Fills returns (Placement.spaces n) := by
  refine .plain fun c hc => ?_
  rw [(List.mem_replicate.1 hc).2]
  decide

theorem fills_written {returns : Prop} {ps : List Piece} (h : ∀ p ∈ ps, Text.Fills returns p.chars) :
    Text.Fills returns (written ps) := by
  induction ps with
  | nil => exact .plain (by simp)
  | cons p ps ih =>
    obtain ⟨hp, hps⟩ := List.forall_mem_cons.1 h
    exact hp.append (ih hps)

/-- The lines of a handler end as the placement says. -/
theorem fills_handlerPieces {returns : Prop} {p : Placement} (he : Text.Fills returns p.lineEnding)
    (hq : IsNameText p.qualifier.toList) (quoting : TokenKind) (kind : TemplateKind) :
    Text.Fills returns (written (handlerPieces p quoting kind)) := by
  have hname : Text.Fills returns p.qualifier.toList := .plain fun c hc => by
    have hspace := hq.not_whiteSpace c hc
    constructor <;> (rintro rfl; revert hspace; decide)
  refine fills_written ?_
  cases kind
  all_goals
    simp only [handlerPieces, headPieces, paramsPieces, paramPieces, returnPieces, bodyPieces, closePieces,
      Piece.chars, List.cons_append, List.nil_append, List.forall_mem_cons, List.not_mem_nil, false_implies,
      implies_true, true_and, and_true, hname, he, fills_spaces]
    and_intros
    all_goals exact .plain (by simp)

/-! ## Services -/

/-- A brace or semicolon stands before the end of the body. -/
theorem Module.bodyEnd_last {text : List Char} {ds₁ ds₂ : List Decl} {s : Service}
    (h : Module.parse text = .ok ⟨ds₁ ++ .serviceDecl s :: ds₂⟩) {front v : List Char} (htext : text = front ++ v)
    (hsize : Text.size front = s.bodyEnd) :
    ∃ a mark, front = a ++ [mark] ∧ (mark = ';' ∨ mark = '\x7b' ∨ mark = '\x7d') := by
  obtain ⟨tokens, htok, hdecls⟩ := Module.parse_eq_ok h
  have hscan := scan_eq_ok_iff.1 htok
  have hstands : ∀ t ∈ tokens, t.Stands text := fun t ht => hscan.stands [] rfl rfl ht
  obtain ⟨x, rfl, hx, -⟩ := Parse.declarations_insert hdecls
  obtain ⟨us, last, hus, hmark, hend⟩ := hx.last hstands
  have hlast : last.Stands text := hstands last (by simp [x.tokens_eq, hus])
  obtain ⟨mark, -, hmarkText, hmark⟩ := hmark.exists_char
  have hcut := Text.takeBytes_append_slice hlast.start.isBoundary (Nat.le_of_lt hlast.lt)
  rw [hlast.slice, Token.chars, hmarkText, String.toList_ofList, hend, ← hsize, htext, Text.takeBytes_size] at hcut
  exact ⟨_, mark, hcut.symm, hmark⟩

section

variable {returns : Prop} {text ending rendered : List Char} {ds₁ ds₂ : List Decl} {s : Service}

/-- What stays before a member that is put in an empty body ends with the brace or with the last comment. -/
theorem Module.bodyEnd_trimEnd {front v : List Char} (h : Module.parse text = .ok ⟨ds₁ ++ .serviceDecl s :: ds₂⟩)
    (htext : text = front ++ v) (hsize : Text.size front = s.bodyEnd) (gap : List Char) :
    ∃ b last, front ++ Text.trimEnd gap = b ++ [last] ∧ last ≠ '\r' := by
  obtain ⟨a, mark, hfront, hmark⟩ := Module.bodyEnd_last h htext hsize
  rcases List.eq_nil_or_concat' (Text.trimEnd gap) with hnil | ⟨c, last, hc⟩
  · refine ⟨a, mark, by rw [hnil, List.append_nil, hfront], ?_⟩
    rcases hmark with rfl | rfl | rfl <;> decide
  · refine ⟨front ++ c, last, by rw [hc, List.append_assoc], ?_⟩
    have hspace : Text.isWhiteSpace last = false := Text.trimEnd_last (by rw [hc, List.getLast?_concat])
    rintro rfl
    revert hspace
    decide

/-- Line endings stay as they are where an empty body gets its first member. -/
theorem Module.isChain_splice_fill (h : Module.parse text = .ok ⟨ds₁ ++ .serviceDecl s :: ds₂⟩)
    (hs : s.WellLaid text) (hspan : s.span.Fits text 0 (Text.size text)) (hempty : s.members = [])
    (hold : (' ' :: text).IsChain (Text.Feeds returns)) (he : Text.Fills returns ending)
    (hr : Text.Fills returns rendered) (column : Nat) :
    (' ' :: TextEdit.splice text s.anchor (s.withMember text ending column rendered)).IsChain
      (Text.Feeds returns) := by
  obtain ⟨front, gap, post, htext, hend, -, hnew⟩ := Service.splice_fill hs hspan hempty
  obtain ⟨b, last, hlast, hreturn⟩ := Module.bodyEnd_trimEnd h htext hend gap
  obtain ⟨w, hw⟩ := Text.trimEnd_prefix gap
  have htext' : text = b ++ last :: (w ++ '\x7d' :: post) := by
    rw [htext, ← hw, List.append_assoc, ← List.append_assoc front, hlast]
    simp
  have hsplice : TextEdit.splice text s.anchor (s.withMember text ending column rendered) =
      b ++ last :: ((ending ++ (rendered ++ (ending ++ Placement.spaces column))) ++ '\x7d' :: post) := by
    rw [hnew, List.append_assoc (Text.trimEnd gap), ← List.append_assoc front, hlast]
    simp
  rw [htext'] at hold
  rw [hsplice]
  refine Text.Fills.insert (he.append (hr.append (he.append (fills_spaces returns column)))) hold hreturn
    (List.suffix_append w _) fun rest hrest => ?_
  cases (List.cons.inj hrest).1

/-- Line endings stay as they are where a member is put after the last one. -/
theorem Module.isChain_splice_append (h : Module.parse text = .ok ⟨ds₁ ++ .serviceDecl s :: ds₂⟩)
    (hs : s.WellLaid text) (hspan : s.span.Fits text 0 (Text.size text)) (hmembers : s.members ≠ [])
    (hold : (' ' :: text).IsChain (Text.Feeds returns)) (he : Text.Fills returns ending)
    (hr : Text.Fills returns rendered) (column : Nat) :
    (' ' :: TextEdit.splice text s.anchor (s.withMember text ending column rendered)).IsChain
      (Text.Feeds returns) := by
  obtain ⟨front, v, htext, hend, hnew⟩ := Service.splice_append hs hspan hmembers
  obtain ⟨a, mark, rfl, hmark⟩ := Module.bodyEnd_last h htext hend
  have hreturn : mark ≠ '\r' := by rcases hmark with rfl | rfl | rfl <;> decide
  have hsplice : TextEdit.splice text s.anchor (s.withMember text ending column rendered) =
      a ++ mark :: ((ending ++ (ending ++ rendered)) ++ v) := by
    rw [hnew]
    simp
  rw [List.append_assoc, List.singleton_append] at htext
  rw [htext] at hold
  rw [hsplice]
  refine Text.Fills.insert (he.append (he.append hr)) hold hreturn List.suffix_rfl fun rest hrest => ?_
  -- the line feed followed the mark before
  have hpair := (Text.isChain_feeds_iff.1 hold).2 a mark rest (by rw [hrest])
  exact fun hreturns => hreturn (hpair.2 hreturns)

/-- Line endings stay as they are where a service gets a new member. -/
theorem Module.isChain_splice (h : Module.parse text = .ok ⟨ds₁ ++ .serviceDecl s :: ds₂⟩)
    (hold : (' ' :: text).IsChain (Text.Feeds returns)) (he : Text.Fills returns ending)
    (hr : Text.Fills returns rendered) (column : Nat) :
    (' ' :: TextEdit.splice text s.anchor (s.withMember text ending column rendered)).IsChain
      (Text.Feeds returns) := by
  obtain ⟨horder, hwell⟩ := Module.parse_laid h
  have hmem : Decl.serviceDecl s ∈ ds₁ ++ .serviceDecl s :: ds₂ := by simp
  have hspan : s.span.Fits text 0 (Text.size text) := horder.fits (List.mem_map_of_mem (f := Decl.span) hmem)
  have hs : s.WellLaid text := hwell _ hmem
  by_cases hempty : s.members = []
  · exact Module.isChain_splice_fill h hs hspan hempty hold he hr column
  · exact Module.isChain_splice_append h hs hspan hempty hold he hr column

end

/-! ## Actions -/

/-- The text after an action is the old one with a handler in a service. -/
theorem CodeAction.apply_execute {name : String} {text : List Char} {file : SourceFile} {config : Config}
    {a : CodeAction} {edit : TextEdit} (hparse : SourceFile.parse name text = .ok file)
    (h : a.execute file config TemplateStore.builtin = .ok edit) :
    ∃ (b : Binding) (s : Service) (ds₁ ds₂ : List Decl) (column : Nat) (quoting : TokenKind),
      b.file.text = text ∧ IsNameText b.qualifier.toList ∧
      Module.parse text = .ok ⟨ds₁ ++ .serviceDecl s :: ds₂⟩ ∧
      TextEdit.apply text edit = .ok (TextEdit.splice text s.anchor (s.withMember text b.file.lineEnding column
        (written (handlerPieces (b.place column) quoting a.provider.template)))) := by
  obtain ⟨template, b, s, hget, hb, hs, -, happly⟩ := CodeAction.apply_store hparse h
  obtain rfl := Option.some.inj ((TemplateStore.builtin_get? _).symm.trans hget)
  have hq := Binding.qualifier_isNameText hparse hb
  obtain ⟨quoting, -⟩ := ReadsName.of_isNameText hq
  obtain ⟨m, hm, rfl⟩ := SourceFile.parse_eq_ok hparse
  obtain ⟨hfile, -, -⟩ := Binding.resolve_eq_some hb
  have hmem := Binding.mem_decls hs
  rw [hfile] at hmem
  obtain ⟨ds₁, ds₂, hsplit⟩ := List.append_of_mem hmem
  refine ⟨b, s, ds₁, ds₂, edit.location.start.character.toNat, quoting, by rw [hfile], hq, by rw [hm, ← hsplit], ?_⟩
  rw [happly, render_template _ quoting _ (hq.notMem (by decide) (by decide))]

/-- A file whose lines all end with a carriage return and a line feed stays so, and a file in which no line
ends that way stays so too. -/
theorem CodeAction.execute_lineEndings {name : String} {text : List Char} {file : SourceFile} {config : Config}
    {a : CodeAction} {edit : TextEdit} (hparse : SourceFile.parse name text = .ok file)
    (h : a.execute file config TemplateStore.builtin = .ok edit) :
    ∃ text', TextEdit.apply text edit = .ok text' ∧
      ('\n' ∈ text → Text.OnlyReturnFeeds text → Text.OnlyReturnFeeds text') ∧
      (¬ ['\r', '\n'] <:+: text → ¬ ['\r', '\n'] <:+: text') := by
  obtain ⟨b, s, ds₁, ds₂, column, quoting, htext, hq, hmodule, happly⟩ := CodeAction.apply_execute hparse h
  have hkeeps : ∀ returns : Prop, (['\r', '\n'] <:+: text ↔ returns) →
      (' ' :: text).IsChain (Text.Feeds returns) →
      (' ' :: TextEdit.splice text s.anchor (s.withMember text b.file.lineEnding column
        (written (handlerPieces (b.place column) quoting a.provider.template)))).IsChain (Text.Feeds returns) := by
    intro returns hreturns hold
    have hending : Text.Fills returns b.file.lineEnding := SourceFile.fills_lineEnding (by rwa [htext])
    exact Module.isChain_splice hmodule hold hending
      (fills_handlerPieces (p := b.place column) hending hq quoting a.provider.template) column
  refine ⟨_, happly, fun hfeed hreturns => ?_, fun hnone => ?_⟩
  · obtain ⟨front, rest, hfront⟩ := List.append_of_mem hfeed
    obtain ⟨line, hline⟩ := List.getLast?_eq_some_iff.1 (hreturns front rest hfront)
    have hpair : ['\r', '\n'] <:+: text := ⟨line, rest, by rw [hfront, hline]; simp⟩
    exact Text.isChain_returns_iff.1 (hkeeps True (iff_of_true hpair trivial)
      (Text.isChain_returns_iff.2 hreturns))
  · exact Text.isChain_bare_iff.1 (hkeeps False (iff_of_false hnone id) (Text.isChain_bare_iff.2 hnone))

/-- A service that is empty but for a comment, in a file whose lines end with a carriage return. -/
theorem CodeAction.execute_lineEndings_comment : ∃ text file a edit text',
    text = "import a/m;\r\nservice on new m:Listener() \x7b // x \r\n\x7d".toList ∧
    SourceFile.parse "m.bal" text = .ok file ∧
    CodeAction.execute a file { module := "a/m" } TemplateStore.builtin = .ok edit ∧
    TextEdit.apply text edit = .ok text' ∧ '\n' ∈ text ∧ Text.OnlyReturnFeeds text ∧ Text.OnlyReturnFeeds text' := by
  generalize htext : "import a/m;\r\nservice on new m:Listener() \x7b // x \r\n\x7d".toList = text
  have hchars : text = _ := htext.symm.trans String.toList_ofList
  let a : CodeAction := ⟨"", ⟨"a/m", .withCaller⟩, [Argument.ofLocation ⟨"m.bal", ⟨1, 0⟩, ⟨2, 1⟩⟩]⟩
  have hcheck : ((SourceFile.parse "m.bal" text).toOption.bind fun file =>
      (a.execute file { module := "a/m" } TemplateStore.builtin).toOption).isSome = true := by
    rw [hchars]
    decide +kernel
  have hfeed : '\n' ∈ text := by
    rw [hchars]
    decide +kernel
  have hreturns : Text.OnlyReturnFeeds text := by
    rw [← Text.isChain_returns_iff, hchars]
    decide +kernel
  obtain ⟨edit, hsome⟩ := Option.isSome_iff_exists.1 hcheck
  obtain ⟨file, hfile, hedit⟩ := Option.bind_eq_some_iff.1 hsome
  have hparse := eq_ok_of_toOption hfile
  have hexecute := eq_ok_of_toOption hedit
  obtain ⟨text', happly, hkeeps, -⟩ := CodeAction.execute_lineEndings hparse hexecute
  exact ⟨text, file, a, edit, text', rfl, hparse, hexecute, happly, hfeed, hreturns, hkeeps hfeed hreturns⟩

end ServiceLint
