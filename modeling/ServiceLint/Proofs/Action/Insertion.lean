import ServiceLint.Proofs.Action.Handler

/-!
# What an action adds

Carrying out an action adds one handler to one bound service and nothing else
(`CodeAction.execute_adds_handler`). The edit replaces the anchor of the service by text that still
begins with what stood there, so the change is an insertion: of a handler after the last member
(`Module.parse_append`), or of a handler and a new brace in an empty body (`Module.parse_fill`).
-/
namespace ServiceLint

/-! ## The new text -/

/-- What replaces the anchor of the service in a text, given the text of a new member. -/
def Service.withMember (s : Service) (text ending : List Char) (column : Nat) (rendered : List Char) :
    List Char :=
  if s.isEmpty then
    Text.slice text s.span.start s.openBrace.stop
      ++ Text.trimEnd (Text.slice text s.openBrace.stop s.closeBrace.start)
      ++ ending ++ rendered ++ ending ++ Placement.spaces column ++ ['\x7d']
  else Text.slice text s.anchor.start s.anchor.stop ++ ending ++ ending ++ rendered

theorem SourceFile.isLineEnding (file : SourceFile) : IsLineEnding file.lineEnding := by
  unfold SourceFile.lineEnding
  split
  · exact Or.inr rfl
  · exact Or.inl rfl

section

variable {text : List Char} {s : Service}

/-- In an empty body a new member takes the place of the white space before the closing brace. -/
theorem Service.splice_fill (hs : s.WellLaid text) (hspan : s.span.Fits text 0 (Text.size text))
    (hempty : s.members = []) :
    ∃ front gap post, text = front ++ (gap ++ '\x7d' :: post) ∧ Text.size front = s.bodyEnd ∧
      Text.size (front ++ gap) = s.closeBrace.start ∧ ∀ ending column rendered,
        TextEdit.splice text s.anchor (s.withMember text ending column rendered) =
          front ++ (Text.trimEnd gap ++ ending ++ (rendered ++ ((ending ++ Placement.spaces column) ++
            '\x7d' :: post))) := by
  have hanchor : s.anchor = s.span := by simp [Service.anchor, Service.lastMember?, hempty]
  have hend : s.bodyEnd = s.openBrace.stop := by simp [Service.bodyEnd, Service.lastMember?, hempty]
  have hstart := hspan.start.isBoundary
  have hopen := hs.openBrace.stop.isBoundary
  have hclose := hs.closeBrace.start.isBoundary
  have hstartle : s.span.start ≤ s.openBrace.stop :=
    Nat.le_trans hs.openBrace.lo_le (Nat.le_of_lt hs.openBrace.lt)
  refine ⟨Text.takeBytes s.openBrace.stop text, Text.slice text s.openBrace.stop s.closeBrace.start,
    Text.dropBytes s.span.stop text, ?_, ?_, ?_, fun ending column rendered => ?_⟩
  · have hbrace := Text.takeBytes_append_slice hclose (Nat.le_of_lt hs.closeBrace.lt)
    rw [hs.closeText, hs.stop] at hbrace
    rw [← List.append_assoc, Text.takeBytes_append_slice hopen hs.openBrace.le_hi, ← List.singleton_append,
      ← List.append_assoc, hbrace, Text.takeBytes_append_dropBytes]
  · rw [hend, Text.size_takeBytes hopen]
  · rw [Text.takeBytes_append_slice hopen hs.openBrace.le_hi, Text.size_takeBytes hclose]
  · rw [← Text.takeBytes_append_slice hstart hstartle]
    simp [TextEdit.splice, Service.withMember, Service.isEmpty, hempty, hanchor]

/-- A new member goes after the last one, two line endings further. -/
theorem Service.splice_append (hs : s.WellLaid text) (hspan : s.span.Fits text 0 (Text.size text))
    (hne : s.members ≠ []) :
    ∃ front v, text = front ++ v ∧ Text.size front = s.bodyEnd ∧ ∀ ending column rendered,
      TextEdit.splice text s.anchor (s.withMember text ending column rendered) =
        front ++ ((ending ++ ending) ++ (rendered ++ v)) := by
  obtain ⟨last, hlast⟩ : ∃ last, s.lastMember? = some last :=
    ⟨_, List.getLast?_eq_some_getLast hne⟩
  have hanchor : s.anchor = ⟨s.span.start, last.span.stop⟩ := by simp [Service.anchor, hlast]
  have hend : s.bodyEnd = last.span.stop := by simp [Service.bodyEnd, hlast]
  have hfits := Service.anchor_fits hs hspan
  rw [hanchor] at hfits
  refine ⟨Text.takeBytes last.span.stop text, Text.dropBytes last.span.stop text,
    (Text.takeBytes_append_dropBytes _ _).symm, by rw [hend, Text.size_takeBytes hfits.stop.isBoundary],
    fun ending column rendered => ?_⟩
  rw [← Text.takeBytes_append_slice hspan.start.isBoundary (Nat.le_of_lt hfits.lt)]
  simp [TextEdit.splice, Service.withMember, Service.isEmpty, hne, hanchor]

end

section

variable {text ending : List Char} {ds₁ ds₂ : List Decl} {s : Service} {ps : List Piece} {new : Member}

/-- A text in which the anchor of a service is replaced declares the same module, with a new member at the
end of the service. -/
theorem Module.parse_splice (h : Module.parse text = .ok ⟨ds₁ ++ .serviceDecl s :: ds₂⟩)
    (hps : ReadsMember ps new) (he : IsLineEnding ending) (column : Nat) :
    ∃ g s', Module.parse (TextEdit.splice text s.anchor (s.withMember text ending column (written ps))) =
        .ok ⟨ds₁ ++ .serviceDecl s' :: ds₂.map (Decl.map g)⟩ ∧
      s'.span.start = s.span.start ∧ s'.bare = s.bare.push new := by
  obtain ⟨horder, hwell⟩ := Module.parse_laid h
  have hmem : Decl.serviceDecl s ∈ ds₁ ++ .serviceDecl s :: ds₂ := by simp
  have hspan : s.span.Fits text 0 (Text.size text) := horder.fits (List.mem_map_of_mem (f := Decl.span) hmem)
  have hs : s.WellLaid text := hwell _ hmem
  by_cases hempty : s.members = []
  · obtain ⟨front, gap, post, htext, hend, hgap, hnew⟩ := Service.splice_fill hs hspan hempty
    have hblank : ∀ c ∈ ending ++ Placement.spaces column, Text.isWhiteSpace c = true := by
      intro c hc
      rcases List.mem_append.1 hc with hc | hc
      · exact he.blank c hc
      · exact spaces_blank column c hc
    rw [hnew]
    exact Module.parse_fill h hps htext hend hgap he hblank
  · obtain ⟨front, v, htext, hend, hnew⟩ := Service.splice_append hs hspan hempty
    have hlead : Skips (ending ++ ending) := skips_blank fun c hc => he.blank c (by simpa using hc)
    rw [hnew]
    exact Module.parse_append h hps htext hend hlead

end

/-! ## Actions -/

/-- An action that is carried out applies. Its edit stands at the anchor of a bound service, and the new text is
the old one with the rendered template in that service. -/
theorem CodeAction.apply_store {name : String} {text : List Char} {file : SourceFile} {config : Config}
    {store : TemplateStore} {a : CodeAction} {edit : TextEdit} (hparse : SourceFile.parse name text = .ok file)
    (h : a.execute file config store = .ok edit) :
    ∃ template b s, store.get? a.provider.template.name = some template ∧
      Binding.resolve file config = some b ∧ s ∈ b.services ∧
      (LineIndex.ofText text).span? edit.location = some s.anchor ∧
      TextEdit.apply text edit = .ok (TextEdit.splice text s.anchor (s.withMember text b.file.lineEnding
        edit.location.start.character.toNat
        ((b.place edit.location.start.character.toNat).render template.body.toList))) := by
  obtain ⟨template, hget, -, l, span, b, s, hspan, htarget, rfl⟩ := CodeAction.execute_store_eq_ok_iff.1 h
  obtain ⟨hb, hs, rfl⟩ := CodeAction.target?_eq_some htarget
  obtain ⟨-, -, hindex⟩ := CodeAction.spanIn_eq_ok_iff.1 hspan
  obtain ⟨hfits, hwell⟩ := Binding.service_fits hparse hb hs
  have hanchor := Service.anchor_fits hwell hfits
  obtain ⟨m, -, rfl⟩ := SourceFile.parse_eq_ok hparse
  obtain ⟨hfile, -, -⟩ := Binding.resolve_eq_some hb
  have htext : b.file.text = text := by rw [hfile]
  refine ⟨template, b, s, hget, hb, hs, hindex, ?_⟩
  rw [TextEdit.apply_eq hindex (Nat.le_of_lt hanchor.lt), String.toList_ofList, ← htext]
  rfl

/-- What an action puts in place of the anchor of a service holds the pieces of a handler. -/
theorem Binding.replacement_eq {b : Binding} (hq : IsNameText b.qualifier.toList) (s : Service)
    (column : Nat) (kind : TemplateKind) (quoting : TokenKind) :
    b.replacement s column kind = s.withMember b.file.text b.file.lineEnding column
      (written (handlerPieces (b.place column) quoting kind)) := by
  rw [← render_template (b.place column) quoting kind (hq.notMem (by decide) (by decide))]
  rfl

/-- A file calls a module by a name. -/
theorem Binding.qualifier_isNameText {name : String} {text : List Char} {file : SourceFile} {config : Config}
    {b : Binding} (hparse : SourceFile.parse name text = .ok file)
    (hb : Binding.resolve file config = some b) : IsNameText b.qualifier.toList := by
  obtain ⟨m, hm, rfl⟩ := SourceFile.parse_eq_ok hparse
  obtain ⟨-, -, i, hi, hq⟩ := Binding.resolve_eq_some hb
  obtain ⟨-, hwell⟩ := Module.parse_laid hm
  obtain ⟨d, hd, hdecl⟩ := List.mem_filterMap.1 hi
  cases d with
  | importDecl d =>
    cases hdecl
    rw [hq]
    exact hwell _ hd
  | listenerDecl d => cases hdecl
  | serviceDecl d => cases hdecl

/-- The new text of an action that is carried out is that of the file with one handler more, at the end of
a bound service. Nothing else of the module changes, but for the places where it stands. -/
theorem CodeAction.execute_adds_handler {name : String} {text : List Char} {file : SourceFile}
    {config : Config} {a : CodeAction} {edit : TextEdit} (hparse : SourceFile.parse name text = .ok file)
    (h : a.execute file config TemplateStore.builtin = .ok edit) :
    ∃ text' file' b s ds₁ ds₂, TextEdit.apply file.text edit = .ok text' ∧
      SourceFile.parse name text' = .ok file' ∧
      Binding.resolve file config = some b ∧ s ∈ b.services ∧
      file.module.decls = ds₁ ++ .serviceDecl s :: ds₂ ∧
      file'.module.decls.map Decl.bare = ds₁.map Decl.bare ++
        .serviceDecl (s.bare.push (handler b.qualifier a.provider.template)) :: ds₂.map Decl.bare := by
  obtain ⟨-, l, span, b, s, hspan, htarget, rfl⟩ := CodeAction.execute_eq_ok_iff.1 h
  obtain ⟨hb, hs, rfl⟩ := CodeAction.target?_eq_some htarget
  obtain ⟨-, -, hindex⟩ := CodeAction.spanIn_eq_ok_iff.1 hspan
  obtain ⟨hfits, hwell⟩ := Binding.service_fits hparse hb hs
  have hanchor := Service.anchor_fits hwell hfits
  have hq := Binding.qualifier_isNameText hparse hb
  obtain ⟨quoting, hreads⟩ := ReadsName.of_isNameText hq
  obtain ⟨m, hm, rfl⟩ := SourceFile.parse_eq_ok hparse
  obtain ⟨hfile, -, -⟩ := Binding.resolve_eq_some hb
  have hmem := Binding.mem_decls hs
  rw [hfile] at hmem
  obtain ⟨ds₁, ds₂, hsplit⟩ := List.append_of_mem hmem
  have hmodule : Module.parse text = .ok ⟨ds₁ ++ .serviceDecl s :: ds₂⟩ := by rw [hm, ← hsplit]
  have hending : IsLineEnding b.file.lineEnding := b.file.isLineEnding
  obtain ⟨g, s', hparse', -, hbare⟩ := Module.parse_splice hmodule
    (readsMember_handler (p := b.place l.start.character.toNat) a.provider.template hreads hending) hending
    l.start.character.toNat
  have htext : b.file.text = text := by rw [hfile]
  have hreplace := b.replacement_eq hq s l.start.character.toNat a.provider.template quoting
  rw [htext] at hreplace
  rw [← hreplace] at hparse'
  have happly : TextEdit.apply text ⟨l, String.ofList (b.replacement s l.start.character.toNat
      a.provider.template)⟩ = .ok (TextEdit.splice text s.anchor (b.replacement s
        l.start.character.toNat a.provider.template)) := by
    rw [TextEdit.apply_eq hindex (Nat.le_of_lt hanchor.lt), String.toList_ofList]
  refine ⟨_, _, b, s, ds₁, ds₂, happly, SourceFile.parse_of_module name hparse', hb, hs, hsplit, ?_⟩
  have hservice : (Decl.serviceDecl s').bare = .serviceDecl s'.bare := rfl
  rw [List.map_append, List.map_cons, hservice, hbare, List.map_map]
  simp [Function.comp_def, Binding.place]

/-- An action that nobody offered, for a service with a member, in a file that has another name for the
module. -/
theorem CodeAction.execute_adds_handler_alias :
    ∃ file a edit text' file' b s ds₁ ds₂, SourceFile.parse "m.bal" ("import ballerina/mqtt as on;\n".toList ++
        "service on new on:Listener(1) \x7b int x = 1; \x7d".toList) = .ok file ∧
      CodeAction.execute a file {} TemplateStore.builtin = .ok edit ∧
      TextEdit.apply file.text edit = .ok text' ∧ SourceFile.parse "m.bal" text' = .ok file' ∧
      Binding.resolve file {} = some b ∧ s ∈ b.services ∧
      file.module.decls = ds₁ ++ .serviceDecl s :: ds₂ ∧
      file'.module.decls.map Decl.bare = ds₁.map Decl.bare ++
        .serviceDecl (s.bare.push (handler b.qualifier a.provider.template)) :: ds₂.map Decl.bare := by
  generalize htext : "import ballerina/mqtt as on;\n".toList ++
    "service on new on:Listener(1) \x7b int x = 1; \x7d".toList = text
  let a : CodeAction := ⟨"", ⟨({} : Config).module, .withCaller⟩,
    [Argument.ofLocation ⟨"m.bal", ⟨1, 0⟩, ⟨1, 42⟩⟩]⟩
  have hcheck : (SourceFile.parse "m.bal" text).toOption.map (fun f =>
      (a.execute f {} TemplateStore.builtin).toOption.isSome) = some true := by
    rw [← htext]
    decide +kernel
  cases hparse : SourceFile.parse "m.bal" text with
  | error e =>
    rw [hparse] at hcheck
    cases hcheck
  | ok file =>
    rw [hparse] at hcheck
    cases hexec : a.execute file {} TemplateStore.builtin with
    | error e =>
      have hsome : (a.execute file {} TemplateStore.builtin).toOption.isSome = true := Option.some.inj hcheck
      rw [hexec] at hsome
      cases hsome
    | ok edit =>
      obtain ⟨text', file', b, s, ds₁, ds₂, hrest⟩ := CodeAction.execute_adds_handler hparse hexec
      exact ⟨file, a, edit, text', file', b, s, ds₁, ds₂, rfl, hexec, hrest⟩

end ServiceLint
