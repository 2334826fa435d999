import ServiceLint.Action.Edit
import ServiceLint.Proofs.Source.Parse.Places
import ServiceLint.Proofs.Source.Relocate

/-!
# Adding a member to a service

A member is added to a service by a change of the text: after the last member, or in place of an empty
body. The new text declares the same module as before, with the member at the end of the service
(`Module.parse_withMember`), and everything after the service is moved.

The change is made after a brace or semicolon (`members_last`), so nothing before it is read in another
way, and what follows is read at another offset. Both kinds of changes are instances of
`Module.parse_insert`.
-/
namespace ServiceLint

namespace Parse

/-! ## The last token of a member -/

theorem not_isNameText {c : Char} (h : isIdentStart c = false) (hc : c ≠ '\x27') :
    ¬ IsNameText [c] := by
  rintro (hname | ⟨v, hv, -⟩)
  · rw [hname.1] at h
    cases h
  · exact hc (List.cons.inj hv).1

/-- A member ends with a brace or semicolon. -/
theorem member_last {text : List Char} {tokens rest : List Token} {m : Member}
    (h : member text tokens = .ok (m, rest)) (hstands : ∀ t ∈ tokens, t.Stands text) :
    ∃ front last, tokens = front ++ last :: rest ∧ last.isMark ∧ m.span.stop = last.stop := by
  obtain ⟨notes, quals, t, more, first, -, rfl, -, -, hbody⟩ := member_cases h
  rcases hbody with ⟨-, hbody⟩ | ⟨-, hbody⟩
  · obtain ⟨p, ps, htokens, -, -, hend, rfl, -⟩ := function_reads hbody
    obtain ⟨body, hsplit, hlast, -⟩ := functionEnd_reads hend
    rw [htokens] at hstands ⊢
    have hmem : ∀ u ∈ body ++ [p.last], u.Stands text := by
      intro u hu
      have hu' : u ∈ p.body ++ p.last :: rest := by
        rw [hsplit, ← List.singleton_append, ← List.append_assoc]
        exact List.mem_append_left _ hu
      refine hstands u ?_
      simp only [FunctionParts.front, List.mem_append, List.mem_cons] at hu' ⊢
      rcases hu' with hu' | hu' | hu' <;> simp [hu']
    refine ⟨notes ++ (quals ++ p.front), p.last, by simp, ?_, rfl⟩
    rcases hlast with hsemi | ⟨u, hu, hopen, hclose⟩
    · exact Or.inl ((hmem p.last (by simp)).isPunct (not_isNameText (c := ';') (by decide) (by decide)) hsemi)
    · have hbrace : u.isPunct "\x7b" = true :=
        (hmem u hu).isPunct (not_isNameText (c := '\x7b') (by decide) (by decide)) hopen
      have hopens : u.opens? = some .brace := by
        simp only [Token.isPunct, Bool.and_eq_true, beq_iff_eq] at hbrace
        simp [Token.opens?, Token.isPunct, hbrace]
      have hcloses := hclose hopens
      obtain ⟨hparen, -⟩ | ⟨hbracket, -⟩ | ⟨-, hend⟩ := Token.isPunct_of_closes? hcloses
      · cases hparen
      · cases hbracket
      · exact Or.inr (Or.inr hend)
  · obtain ⟨body, semi, htokens, hsemi, rfl, -⟩ := field_reads hbody
    exact ⟨notes ++ (quals ++ body), semi, by simp [htokens], Or.inl hsemi, rfl⟩

/-- The members of a service end with a brace or semicolon, if there are any. -/
theorem members_last {text : List Char} {tokens rest : List Token} {ms : List Member} {close : Token}
    (h : members text tokens = .ok (ms, close, rest)) (hstands : ∀ t ∈ tokens, t.Stands text) :
    ∃ body, tokens = body ++ close :: rest ∧ (ms = [] ∧ body = [] ∨
      ∃ m front last, ms.getLast? = some m ∧ body = front ++ [last] ∧ last.isMark ∧
        m.span.stop = last.stop) := by
  fun_induction members text tokens generalizing ms with
  | case1 => cases h
  | case2 t tail hclose =>
    cases h
    exact ⟨[], rfl, Or.inl ⟨rfl, rfl⟩⟩
  | case3 => cases h
  | case4 => cases h
  | case5 t tail hclose m r hmember _ ms close rest' hrec ih =>
    cases h
    obtain ⟨front, last, htokens, hmark, hstop⟩ := member_last hmember hstands
    rw [htokens] at hstands ⊢
    obtain ⟨body, rfl, hbody⟩ := ih hrec fun u hu => hstands u (by simp [hu])
    refine ⟨front ++ last :: body, by simp, Or.inr ?_⟩
    rcases hbody with ⟨rfl, rfl⟩ | ⟨m', front', last', hlast', rfl, hmark', hstop'⟩
    · exact ⟨m, front, last, rfl, rfl, hmark, hstop⟩
    · exact ⟨m', front ++ last :: front', last', by simp [List.getLast?_cons, hlast'], by simp, hmark', hstop'⟩

end Parse

/-! ## Inserting -/

/-- Where further members of the service go: after its last member, else after its opening brace. -/
def Service.bodyEnd (s : Service) : Nat :=
  match s.lastMember? with
  | none => s.openBrace.stop
  | some last => last.span.stop

theorem Module.parse_of_scans {text : List Char} {tokens : List Token} {ds : List Decl}
    (h : Scans 0 text tokens (Text.size text) []) (hds : Parse.declarations text tokens = .ok ds) :
    Module.parse text = .ok ⟨ds⟩ := by
  have htok : tokenize text = .ok tokens := scan_eq_ok_iff.2 (by rwa [Nat.zero_add])
  rw [Module.parse_eq htok, hds]

/-- The token before the closing brace of a service is a brace or semicolon. -/
theorem Parse.Surrounds.last {text : List Char} {s : Service} {x : Surroundings} (hx : Surrounds text s x)
    (hstands : ∀ t ∈ x.tokens, t.Stands text) :
    ∃ us last, x.before = us ++ [last] ∧ last.isMark ∧ last.stop = s.bodyEnd := by
  obtain ⟨body, hbody, hlast⟩ := members_last hx.members fun t ht => hstands t (by
    simp only [Surroundings.tokens, List.mem_append, List.mem_cons] at ht ⊢
    rcases ht with ht | ht | ht <;> simp [ht])
  obtain rfl : x.body = body := List.append_cancel_right hbody
  have hopen : x.openBrace.isPunct "\x7b" = true :=
    (hstands _ (by simp [Surroundings.tokens])).isPunct
      (not_isNameText (c := '\x7b') (by decide) (by decide)) hx.opens
  rcases hlast with ⟨hms, hnil⟩ | ⟨m, front, last, hm, hfront, hmark, hstop⟩
  · refine ⟨x.front, x.openBrace, by simp [Surroundings.before, hnil], Or.inr (Or.inl hopen), ?_⟩
    simp [Service.bodyEnd, Service.lastMember?, hms, hx.openBrace, Token.span]
  · refine ⟨x.front ++ x.openBrace :: front, last, by simp [Surroundings.before, hfront], hmark, ?_⟩
    simp [Service.bodyEnd, Service.lastMember?, hm, hstop]

/-- After a text that is read in the same way whatever follows, pieces are read as their tokens, and then what
follows them. -/
theorem Scans.insert {front lead tail : List Char} {before after : List Token} {ps : List Piece} {stop : Nat}
    (hframe : ∀ rest, Scans 0 (front ++ rest) before (Text.size front) rest) (hlead : Skips lead)
    (hps : Readable ps tail) (hafter : Scans (Text.size (front ++ (lead ++ written ps))) tail after stop []) :
    Scans 0 (front ++ (lead ++ (written ps ++ tail)))
      (before ++ (tokensOf (Text.size (front ++ lead)) ps ++ after)) stop [] := by
  have hskip := hlead (Text.size front) (written ps ++ tail)
  have hwritten := scans_written hps (Text.size (front ++ lead))
  have hend : Text.size (front ++ lead) + Text.size (written ps) =
      Text.size (front ++ (lead ++ written ps)) := by simp [Nat.add_assoc]
  rw [hend] at hwritten
  rw [← Text.size_append] at hskip
  exact (hframe _).trans (hskip.trans (hwritten.trans hafter))

/-- A text can be changed where the members of a service end. The pieces of a member are read there as
that member when what follows them is what followed the members, at another offset. -/
theorem Module.parse_insert {text : List Char} {ds₁ ds₂ : List Decl} {s : Service}
    (h : Module.parse text = .ok ⟨ds₁ ++ .serviceDecl s :: ds₂⟩) :
    ∃ front v close rest, text = front ++ v ∧ Text.size front = s.bodyEnd ∧
      s.closeBrace = close.span ∧ s.span.stop = close.stop ∧ close.isPunct "\x7d" = true ∧
      Scans (Text.size front) v (close :: rest) (Text.size text) [] ∧
      ∀ g text' lead ps tail close' m, text' = front ++ (lead ++ (written ps ++ tail)) → Skips lead →
        Readable ps tail →
        Scans (Text.size (front ++ (lead ++ written ps))) tail (close' :: rest.map (Token.move g))
          (Text.size text') [] →
        Moves g text text' rest →
        Parse.members text' (tokensOf (Text.size (front ++ lead)) ps ++
          close' :: rest.map (Token.move g)) = .ok ([m], close', rest.map (Token.move g)) →
        Module.parse text' = .ok ⟨ds₁ ++
          .serviceDecl (Parse.extended id s.span.start s [m] close') :: ds₂.map (Decl.map g)⟩ := by
  obtain ⟨tokens, htok, hdecls⟩ := Module.parse_eq_ok h
  have hscan := scan_eq_ok_iff.1 htok
  have hstands : ∀ t ∈ tokens, t.Stands text := fun t ht => hscan.stands [] rfl rfl ht
  obtain ⟨x, rfl, hx, hread⟩ := Parse.declarations_insert hdecls
  have hclose : x.closeBrace.isPunct "\x7d" = true :=
    (hstands _ (by simp [Parse.Surroundings.tokens])).isPunct
      (Parse.not_isNameText (c := '\x7d') (by decide) (by decide)) hx.closes
  obtain ⟨us, last, hus, hmark, hend⟩ := hx.last hstands
  have htokens : x.tokens = us ++ last :: (x.closeBrace :: x.rest) := by
    rw [x.tokens_eq, hus]
    simp
  rw [htokens, Nat.zero_add] at hscan
  obtain ⟨front, v, htext, hsize, hafter, hframe⟩ := Scans.cut hmark hscan
  rw [Nat.zero_add] at hsize
  rw [← hus, ← hsize] at hframe
  rw [← hsize] at hafter
  refine ⟨front, v, x.closeBrace, x.rest, htext, hsize.trans hend, hx.closeBrace, hx.stop, hclose, hafter, ?_⟩
  intro g text' lead ps tail close' m htext' hlead hps htail hrest hmembers
  have hprefix : Scans 0 front x.before (Text.size front) [] := by simpa using hframe []
  have hmoves : Moves id text text' x.before := by
    rw [htext, htext']
    exact .same_front hprefix
  have hall := Scans.insert hframe hlead hps htail
  rw [← htext'] at hall
  exact Module.parse_of_scans hall (hread g text' _ [m] close' hmoves hrest hmembers)

structure ReadsMember (ps : List Piece) (new : Member) : Prop where
  readable : ∀ rest, Readable ps rest
  member : ∀ {text a c : List Char}, text = a ++ (written ps ++ c) →
    ∀ (close : Token) (rest : List Token), close.is "\x7d" = true →
      ∃ m, Parse.members text (tokensOf (Text.size a) ps ++ close :: rest) = .ok ([m], close, rest) ∧
        m.bare = new

def Service.push (s : Service) (m : Member) : Service := { s with members := s.members ++ [m] }

theorem Parse.extended_bare {s : Service} {m new : Member} {start : Nat} {close : Token}
    (h : m.bare = new) : (extended id start s [m] close).bare = s.bare.push new := by
  simp [extended, Service.bare, Service.map, Service.push, Span.map, AttachPoint.map_map, Member.map_map,
    ← h, Member.bare, Function.comp_def]

/-- The first token of what follows is a closing brace, and stands where one was looked for. -/
theorem Scans.closing {front gap post : List Char} {close : Token} {rest : List Token} {stop : Nat}
    (h : Scans (Text.size front) (gap ++ '\x7d' :: post) (close :: rest) stop [])
    (hclose : close.isPunct "\x7d" = true) (hstart : close.start = Text.size (front ++ gap)) :
    Scans (Text.size front) (gap ++ '\x7d' :: post) [] (Text.size (front ++ gap)) ('\x7d' :: post) ∧
      Scans (Text.size (front ++ (gap ++ ['\x7d']))) post rest stop [] := by
  obtain ⟨post', hgapscan, -, hafter⟩ := h.split (List.nil_append _).symm
  have hchars : close.chars = ['\x7d'] := by
    simp only [Token.isPunct, Bool.and_eq_true, beq_iff_eq] at hclose
    rw [Token.chars, hclose.2]
    rfl
  obtain ⟨gap', hsplit, hskipped⟩ := hgapscan.suffix
  have hgap : Text.size gap = Text.size gap' := by
    rw [hstart, Text.size_append] at hskipped
    omega
  rw [hchars, List.singleton_append] at hsplit hgapscan
  obtain ⟨rfl, hpost⟩ := Text.append_inj_size hsplit hgap
  obtain rfl : post = post' := (List.cons.inj hpost).2
  have hstop : close.stop = Text.size (front ++ (gap ++ ['\x7d'])) := by
    rw [Token.stop_eq, hchars, hstart]
    simp [Nat.add_assoc]
  rw [hstop] at hafter
  rw [hstart] at hgapscan
  exact ⟨hgapscan, hafter⟩

section

variable {text front ending : List Char} {ds₁ ds₂ : List Decl} {s : Service} {ps : List Piece} {new : Member}

/-- A member can be written after the last one of a service. -/
theorem Module.parse_append {v lead : List Char}
    (h : Module.parse text = .ok ⟨ds₁ ++ .serviceDecl s :: ds₂⟩) (hps : ReadsMember ps new)
    (htext : text = front ++ v) (hfront : Text.size front = s.bodyEnd) (hlead : Skips lead) :
    ∃ g s', Module.parse (front ++ (lead ++ (written ps ++ v))) =
        .ok ⟨ds₁ ++ .serviceDecl s' :: ds₂.map (Decl.map g)⟩ ∧
      s'.span.start = s.span.start ∧ s'.bare = s.bare.push new := by
  obtain ⟨front', v', close, rest, htext', hsize, -, -, hclose, hscan, hinsert⟩ := Module.parse_insert h
  obtain ⟨rfl, rfl⟩ := Text.append_inj_size (htext.symm.trans htext') (hfront.trans hsize.symm)
  let before := front ++ (lead ++ written ps)
  let g := fun n => n + Text.size before - Text.size front
  have hnew : front ++ (lead ++ (written ps ++ v)) = before ++ v := by simp [before]
  rw [htext] at hscan
  have htail : Scans (Text.size before) v (close.move g :: rest.map (Token.move g))
      (Text.size (before ++ v)) [] := hscan.relocate before
  have hrest : Moves g text (before ++ v) rest := by
    rw [htext]
    exact (Moves.same_end hscan).mono (List.subset_cons_self _ _)
  obtain ⟨m, hm, hbare⟩ := hps.member (show before ++ v = (front ++ lead) ++ (written ps ++ v) by simp [before])
    (close.move g) (rest.map (Token.move g)) (Parse.is_of_isPunct hclose)
  rw [hnew]
  exact ⟨g, _, hinsert g _ lead ps v _ m hnew.symm hlead (hps.readable v) htail hrest hm, rfl,
    Parse.extended_bare hbare⟩

/-- A member can be written in an empty body, after the comments that stand there. -/
theorem Module.parse_fill {gap post blank : List Char}
    (h : Module.parse text = .ok ⟨ds₁ ++ .serviceDecl s :: ds₂⟩) (hps : ReadsMember ps new)
    (htext : text = front ++ (gap ++ '\x7d' :: post)) (hfront : Text.size front = s.bodyEnd)
    (hgap : Text.size (front ++ gap) = s.closeBrace.start) (he : IsLineEnding ending)
    (hblank : ∀ c ∈ blank, Text.isWhiteSpace c = true) :
    ∃ g s', Module.parse (front ++ (Text.trimEnd gap ++ ending ++ (written ps ++ (blank ++ '\x7d' :: post)))) =
        .ok ⟨ds₁ ++ .serviceDecl s' :: ds₂.map (Decl.map g)⟩ ∧
      s'.span.start = s.span.start ∧ s'.bare = s.bare.push new := by
  obtain ⟨front', v', close, rest, htext', hsize, hbrace, -, hclose, hscan, hinsert⟩ := Module.parse_insert h
  obtain ⟨rfl, rfl⟩ := Text.append_inj_size (htext.symm.trans htext') (hfront.trans hsize.symm)
  have hstart : close.start = Text.size (front ++ gap) := by rw [hgap, hbrace, Token.span]
  obtain ⟨hgapscan, hafter⟩ := hscan.closing hclose hstart
  let lead := Text.trimEnd gap ++ ending
  let before := front ++ (lead ++ (written ps ++ blank))
  let close' : Token := ⟨.punct, Text.size before, String.ofList ['\x7d']⟩
  let g := fun n => n + Text.size (before ++ ['\x7d']) - Text.size (front ++ (gap ++ ['\x7d']))
  have hlead : Skips lead := hgapscan.skips_trimEnd rfl rfl he
  have hold : text = (front ++ (gap ++ ['\x7d'])) ++ post := by
    rw [htext]
    simp
  have hnew : front ++ (lead ++ (written ps ++ (blank ++ '\x7d' :: post))) = (before ++ ['\x7d']) ++ post := by
    simp [before]
  have hrest : Moves g text ((before ++ ['\x7d']) ++ post) rest := by
    rw [hold]
    exact .same_end hafter
  rw [hold] at hafter
  have hmoved : Scans (Text.size (before ++ ['\x7d'])) post (rest.map (Token.move g))
      (Text.size ((before ++ ['\x7d']) ++ post)) [] := hafter.relocate _
  have htail : Scans (Text.size (front ++ (lead ++ written ps))) (blank ++ '\x7d' :: post)
      (close' :: rest.map (Token.move g)) (Text.size ((before ++ ['\x7d']) ++ post)) [] := by
    have hoffset : Text.size (front ++ (lead ++ written ps)) + Text.size blank = Text.size before := by
      simp [before, Nat.add_assoc]
    refine .blank hblank ?_
    rw [hoffset]
    refine .token (by decide) rfl (.of_lexeme (lexeme_closing (by decide) post)) ?_
    rw [← Text.size_append]
    exact hmoved
  obtain ⟨m, hm, hbare⟩ := hps.member
    (show (before ++ ['\x7d']) ++ post = (front ++ lead) ++ (written ps ++ (blank ++ '\x7d' :: post)) by
      simp [before]) close' (rest.map (Token.move g)) rfl
  rw [hnew]
  exact ⟨g, _, hinsert g _ lead ps _ _ m hnew.symm hlead (hps.readable _) htail hrest hm, rfl,
    Parse.extended_bare hbare⟩

end

end ServiceLint
