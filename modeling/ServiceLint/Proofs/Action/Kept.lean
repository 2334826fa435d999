import ServiceLint.Proofs.Action.Insertion

/-!
# What an action keeps

The edit of an action replaces the anchor of a service as a whole, and yet it only inserts
(`CodeAction.execute_inserts`): the new text is the old one up to some place, something new, and the old text
from there on. After a last member nothing of the old text goes. In an empty body the white space before the
closing brace goes, and everything before it, comments too, stays where it was. This holds for every set of
templates and every action that is carried out, whether it was offered or not.
-/
namespace ServiceLint

/-- The stretch of the text that a new member of the service takes the place of. There is nothing in it when the
service has members; else it is white space before the closing brace. -/
def Service.Room (text : List Char) (s : Service) (p q : Nat) : Prop :=
  match s.lastMember? with
  | some last => p = last.span.stop ∧ q = last.span.stop
  | none => s.openBrace.stop ≤ p ∧ p ≤ q ∧ q = s.closeBrace.start ∧
      ∀ c ∈ Text.slice text p q, Text.isWhiteSpace c = true

namespace Text

/-- The characters of a text that are not white space, in order. -/
def visible (cs : List Char) : List Char := cs.filter fun c => !isWhiteSpace c

theorem visible_append (a b : List Char) : visible (a ++ b) = visible a ++ visible b :=
  List.filter_append a b

theorem visible_of_blank {cs : List Char} (h : ∀ c ∈ cs, isWhiteSpace c = true) : visible cs = [] :=
  List.filter_eq_nil_iff.2 fun c hc => by simp [h c hc]

/-- Where white space is cut out, everything visible stays as it was. -/
theorem visible_cut {text : List Char} {p q : Nat} (hp : isBoundary p text = true) (hpq : p ≤ q)
    (h : ∀ c ∈ slice text p q, isWhiteSpace c = true) :
    visible (takeBytes p text) ++ visible (dropBytes q text) = visible text := by
  calc visible (takeBytes p text) ++ visible (dropBytes q text)
      = visible (takeBytes p text ++ slice text p q ++ dropBytes q text) := by
        rw [visible_append, visible_append, visible_of_blank h, List.append_nil]
    _ = visible text := by rw [takeBytes_append_slice hp hpq, takeBytes_append_dropBytes]

end Text

section

variable {text : List Char} {s : Service} {p q : Nat}

theorem Service.Room.le (h : s.Room text p q) : p ≤ q := by
  unfold Service.Room at h
  split at h
  · exact Nat.le_of_eq (h.1.trans h.2.symm)
  · exact h.2.1

theorem Service.Room.blank (h : s.Room text p q) : ∀ c ∈ Text.slice text p q, Text.isWhiteSpace c = true := by
  unfold Service.Room at h
  split at h
  · obtain ⟨rfl, rfl⟩ := h
    simp [Text.slice]
  · exact h.2.2.2

/-- A new member of the service goes into its room, and nothing else of the text changes. -/
structure Service.Takes (text : List Char) (s : Service) (p q : Nat) : Prop where
  start : Text.isBoundary p text = true
  stop : Text.isBoundary q text = true
  room : s.Room text p q
  splice : ∀ ending column rendered, ∃ inserted, rendered <:+: inserted ∧
    TextEdit.splice text s.anchor (s.withMember text ending column rendered) =
      Text.takeBytes p text ++ inserted ++ Text.dropBytes q text

/-- In an empty body the comments stay, and the white space after them goes. -/
theorem Service.exists_takes_of_empty (hs : s.WellLaid text) (hspan : s.span.Fits text 0 (Text.size text))
    (hempty : s.members = []) : ∃ p q, s.Takes text p q := by
  obtain ⟨front, gap, post, htext, hopen, hclose, hnew⟩ := Service.splice_fill hs hspan hempty
  obtain ⟨blank, hgap, hblank⟩ := Text.exists_blank_of_trimEnd gap
  have htrim : text = (front ++ Text.trimEnd gap) ++ (blank ++ '\x7d' :: post) := by
    rw [List.append_assoc, ← List.append_assoc (Text.trimEnd gap), ← hgap, htext]
  have hbrace : text = (front ++ gap) ++ '\x7d' :: post := by rw [List.append_assoc, htext]
  have hsize : Text.size (front ++ gap) = Text.size (front ++ Text.trimEnd gap) + Text.size blank := by
    rw [← Text.size_append, List.append_assoc, ← hgap]
  refine ⟨Text.size (front ++ Text.trimEnd gap), Text.size (front ++ gap), ?_, ?_, ?_,
    fun ending column rendered => ⟨ending ++ rendered ++ (ending ++ Placement.spaces column), ⟨_, _, rfl⟩, ?_⟩⟩
  · rw [htrim]
    exact Text.isBoundary_size _ _
  · rw [hbrace]
    exact Text.isBoundary_size _ _
  · have hslice : Text.slice text (Text.size (front ++ Text.trimEnd gap)) (Text.size (front ++ gap)) = blank := by
      rw [hsize, htrim, Text.slice_mid]
    have hlast : s.lastMember? = none := by rw [Service.lastMember?, hempty]; rfl
    simp only [Service.bodyEnd, hlast] at hopen
    simp only [Service.Room, hlast, hslice]
    exact ⟨by rw [← hopen, Text.size_append]; omega, by omega, hclose, hblank⟩
  · have hbefore : Text.takeBytes (Text.size (front ++ Text.trimEnd gap)) text = front ++ Text.trimEnd gap := by
      rw [htrim, Text.takeBytes_size]
    have hafter : Text.dropBytes (Text.size (front ++ gap)) text = '\x7d' :: post := by
      rw [hbrace, Text.dropBytes_size]
    rw [hnew, hbefore, hafter]
    simp

/-- After a last member nothing goes. -/
theorem Service.exists_takes_of_members (hs : s.WellLaid text) (hspan : s.span.Fits text 0 (Text.size text))
    (hne : s.members ≠ []) : ∃ p q, s.Takes text p q := by
  obtain ⟨front, rest, htext, hend, hnew⟩ := Service.splice_append hs hspan hne
  have hboundary : Text.isBoundary (Text.size front) text = true := by
    rw [htext]
    exact Text.isBoundary_size front rest
  refine ⟨Text.size front, Text.size front, hboundary, hboundary, ?_,
    fun ending column rendered => ⟨ending ++ ending ++ rendered, List.infix_append_right, ?_⟩⟩
  · obtain ⟨last, hlast⟩ : ∃ last, s.lastMember? = some last := ⟨_, List.getLast?_eq_some_getLast hne⟩
    simp only [Service.bodyEnd, hlast] at hend
    simp only [Service.Room, hlast]
    exact ⟨hend, hend⟩
  · rw [hnew, htext, Text.takeBytes_size, Text.dropBytes_size]
    simp

theorem Service.exists_takes (hs : s.WellLaid text) (hspan : s.span.Fits text 0 (Text.size text)) :
    ∃ p q, s.Takes text p q := by
  by_cases hempty : s.members = []
  · exact Service.exists_takes_of_empty hs hspan hempty
  · exact Service.exists_takes_of_members hs hspan hempty

end

/-- An action that is carried out inserts text in the service that its edit stands at, the rendered template in
it, and takes away at most white space there. All that is visible in the file stays, in the order in which it
stood. -/
theorem CodeAction.execute_inserts {name : String} {text : List Char} {file : SourceFile} {config : Config}
    {store : TemplateStore} {a : CodeAction} {edit : TextEdit} (hparse : SourceFile.parse name text = .ok file)
    (h : a.execute file config store = .ok edit) :
    ∃ template b s p q inserted, store.get? a.provider.template.name = some template ∧
      Binding.resolve file config = some b ∧ s ∈ b.services ∧
      (LineIndex.ofText text).span? edit.location = some s.anchor ∧
      Text.isBoundary p text = true ∧ Text.isBoundary q text = true ∧ s.Room text p q ∧
      (b.place edit.location.start.character.toNat).render template.body.toList <:+: inserted ∧
      TextEdit.apply text edit = .ok (Text.takeBytes p text ++ inserted ++ Text.dropBytes q text) ∧
      Text.visible (Text.takeBytes p text) ++ Text.visible (Text.dropBytes q text) = Text.visible text := by
  obtain ⟨template, b, s, hget, hb, hs, hanchor, happly⟩ := CodeAction.apply_store hparse h
  obtain ⟨hspan, hwell⟩ := Binding.service_fits hparse hb hs
  obtain ⟨p, q, hp, hq, hroom, hnew⟩ := Service.exists_takes hwell hspan
  obtain ⟨inserted, hinfix, hsplice⟩ := hnew b.file.lineEnding edit.location.start.character.toNat
    ((b.place edit.location.start.character.toNat).render template.body.toList)
  rw [hsplice] at happly
  exact ⟨template, b, s, p, q, inserted, hget, hb, hs, hanchor, hp, hq, hroom, hinfix, happly,
    Text.visible_cut hp hroom.le hroom.blank⟩

/-- An action for a template of one's own, in a service that is empty but for a comment. -/
theorem CodeAction.execute_inserts_comment : ∃ text file store a edit template b s p q inserted,
    text = "import a/m;\nservice on new m:Listener() \x7b // é \n \x7d //".toList ∧
    SourceFile.parse "m.bal" text = .ok file ∧ store = TemplateStore.ofList [⟨.withCaller, "int n = 1;"⟩] ∧
    CodeAction.execute a file { module := "a/m" } store = .ok edit ∧
    store.get? a.provider.template.name = some template ∧
    Binding.resolve file { module := "a/m" } = some b ∧ s ∈ b.services ∧
    (LineIndex.ofText text).span? edit.location = some s.anchor ∧
    Text.isBoundary p text = true ∧ Text.isBoundary q text = true ∧ s.Room text p q ∧
    (b.place edit.location.start.character.toNat).render template.body.toList <:+: inserted ∧
    TextEdit.apply text edit = .ok (Text.takeBytes p text ++ inserted ++ Text.dropBytes q text) ∧
    Text.visible (Text.takeBytes p text) ++ Text.visible (Text.dropBytes q text) = Text.visible text := by
  generalize htext : "import a/m;\nservice on new m:Listener() \x7b // é \n \x7d //".toList = text
  have hchars : text = _ := htext.symm.trans String.toList_ofList
  let store := TemplateStore.ofList [⟨.withCaller, "int n = 1;"⟩]
  let a : CodeAction := ⟨"", ⟨"a/m", .withCaller⟩, [Argument.ofLocation ⟨"m.bal", ⟨1, 0⟩, ⟨2, 2⟩⟩]⟩
  have hcheck : ((SourceFile.parse "m.bal" text).toOption.bind fun file =>
      (a.execute file { module := "a/m" } store).toOption).isSome = true := by
    rw [hchars]
    decide +kernel
  obtain ⟨edit, hsome⟩ := Option.isSome_iff_exists.1 hcheck
  obtain ⟨file, hfile, hedit⟩ := Option.bind_eq_some_iff.1 hsome
  have hparse := eq_ok_of_toOption hfile
  have hexecute := eq_ok_of_toOption hedit
  obtain ⟨template, b, s, p, q, inserted, hinserts⟩ := CodeAction.execute_inserts hparse hexecute
  exact ⟨text, file, store, a, edit, template, b, s, p, q, inserted, rfl, hparse, rfl, hexecute, hinserts⟩

end ServiceLint
