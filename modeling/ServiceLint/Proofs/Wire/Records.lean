import ServiceLint.Action.Execute
import ServiceLint.Config.Record
import ServiceLint.Proofs.Wire.RoundTrip
import ServiceLint.Proofs.Wire.Texts

/-!
# Records survive the wire

Every record that leaves the program as JSON is read back as it was, from its value and, with any faithful JSON
package, from its text (`records_survive`). Three forms are not written as they are kept: a provider is one
text, cut at its last slash; fields with nothing to say are left out and read as their defaults; a table of
rules is an object whose members are sorted in again.
-/
namespace ServiceLint

open Document

/-! ## Parts of records -/

/-- A word is read back when no two values share one. -/
theorem choiceOf?_str {α : Type} {all : List α} {word : α → String} (hword : Function.Injective word) {a : α}
    (ha : a ∈ all) : choiceOf? all word (.str (word a) : Json) = some a := by
  have hfound : (all.find? fun b => word b == word a).isSome = true :=
    List.find?_isSome.2 ⟨a, ha, beq_self_eq_true _⟩
  obtain ⟨b, hb⟩ := Option.isSome_iff_exists.1 hfound
  have hsame : b = a := hword (by simpa using List.find?_some hb)
  simp [choiceOf?, choice?, hb, hsame]

/-- A list is read back when its items are. -/
theorem listOf?_list {α : Type} {read : Json → Option α} {write : α → Json} (h : ∀ a, read (write a) = some a)
    (as : List α) : listOf? read (.list write as) = some as := by
  have hitems : (as.map write).mapM read = some as := by
    induction as with
    | nil => rfl
    | cons a as ih => simp [h, ih]
  simp [listOf?, list?, Json.list, hitems]

theorem word64?_nat (w : UInt64) : word64? (Json.nat w.toNat) = some w := by
  have hlt := w.toNat_lt
  have hpos : (0 : Int) ≤ (w.toNat : Int) := Int.natCast_nonneg _
  simp [word64?, Json.nat, nat?, hpos, Option.filter]
  omega

/-! ## Edits and diagnostics -/

/-- An edit is read back from its record. -/
theorem TextEdit.ofJson?_toJson (e : TextEdit) : TextEdit.ofJson? e.toJson = some e := by
  have hfields : record? ["range", "newText"] e.toJson =
      some [("range", e.location.toJson), ("newText", .str e.newText)] := by
    simp [TextEdit.toJson, record?, repeatsName]
  simp [TextEdit.ofJson?, hfields, required, List.lookup_cons, Location.ofJson?_toJson, text?]

theorem Rule.code_injective : Function.Injective Rule.code := by
  intro a b
  cases a <;> cases b <;> decide

theorem Severity.code_injective : Function.Injective Severity.code := by
  intro a b
  cases a <;> cases b <;> decide

/-- A diagnostic is read back from its record. -/
theorem Diagnostic.ofJson?_toJson (d : Diagnostic) : Diagnostic.ofJson? d.toJson = some d := by
  have hfields : record? ["code", "severity", "range", "message"] d.toJson =
      some [("code", .str d.rule.code), ("severity", .str d.severity.code), ("range", d.location.toJson),
        ("message", .str d.message)] := by
    simp [Diagnostic.toJson, record?, repeatsName]
  have hrule : choiceOf? Rule.all Rule.code (.str d.rule.code : Json) = some d.rule :=
    choiceOf?_str Rule.code_injective (by cases d.rule <;> decide)
  have hseverity : choiceOf? Severity.all Severity.code (.str d.severity.code : Json) = some d.severity :=
    choiceOf?_str Severity.code_injective (by cases d.severity <;> decide)
  simp [Diagnostic.ofJson?, hfields, required, List.lookup_cons, Location.ofJson?_toJson, text?, hrule, hseverity]

/-! ## Actions -/

/-- A text is cut at a character that does not occur later. -/
theorem Text.splitLast?_eq_some {c : Char} {cs front rest : List Char} :
    Text.splitLast? c cs = some (front, rest) ↔ cs = front ++ c :: rest ∧ c ∉ rest := by
  constructor
  · intro h
    unfold Text.splitLast? at h
    split at h
    · cases h
    · next d tail hdrop =>
      obtain ⟨rfl, rfl⟩ := Prod.mk.inj (Option.some.inj h)
      obtain rfl : d = c := by simpa using dropWhile_cons_neg hdrop
      have hcut := List.takeWhile_append_dropWhile (p := fun x => decide (x ≠ d)) (l := cs.reverse)
      rw [hdrop] at hcut
      refine ⟨?_, fun hmem => ?_⟩
      · rw [Text.afterLast]
        simpa using (congrArg List.reverse hcut).symm
      · simpa using List.mem_takeWhile_imp (List.mem_reverse.1 hmem)
  · rintro ⟨rfl, hnone⟩
    have hreverse : (front ++ c :: rest).reverse = rest.reverse ++ c :: front.reverse := by simp
    have hother : ∀ x ∈ rest.reverse, decide (x ≠ c) = true := by
      intro x hx
      rw [decide_eq_true_eq]
      rintro rfl
      exact hnone (List.mem_reverse.1 hx)
    have hstop : ∀ x ∈ (c :: front.reverse).head?, decide (x ≠ c) = false := by simp
    rw [Text.splitLast?, Text.afterLast, hreverse, dropWhile_stretch hother hstop,
      takeWhile_stretch hother hstop]
    simp

theorem TemplateKind.ofName?_eq_some {s : String} {kind : TemplateKind} :
    TemplateKind.ofName? s = some kind ↔ s = kind.name := by
  constructor
  · intro h
    exact (by simpa using List.find?_some h : kind.name = s).symm
  · rintro rfl
    cases kind <;> decide

theorem Provider.render_toList (p : Provider) :
    p.render.toList = p.module.toList ++ '/' :: p.template.name.toList := by
  have hrender : p.render = p.module ++ "/" ++ p.template.name := rfl
  simp [hrender]

/-- The written form of a provider is read as that provider, and nothing else is. -/
theorem Provider.parse_eq_ok {s : String} {p : Provider} : Provider.parse s = .ok p ↔ p.render = s := by
  constructor
  · intro h
    unfold Provider.parse at h
    split at h
    · cases h
    · next module name hsplit =>
      split at h
      · cases h
      · next template hname =>
        cases h
        obtain ⟨htext, -⟩ := Text.splitLast?_eq_some.1 hsplit
        rw [← String.toList_inj, Provider.render_toList, htext, ← TemplateKind.ofName?_eq_some.1 hname]
        simp
  · rintro rfl
    have hslash : '/' ∉ p.template.name.toList := by cases p.template <;> decide
    have hsplit := Text.splitLast?_eq_some.2 ⟨p.render_toList, hslash⟩
    have hname := TemplateKind.ofName?_eq_some.2 (rfl : p.template.name = p.template.name)
    simp [Provider.parse, hsplit, hname]

theorem Provider.ofJson?_render (p : Provider) : Provider.ofJson? (.str p.render) = some p := by
  simp [Provider.ofJson?, text?, Provider.parse_eq_ok.2 rfl, Except.toOption]

/-- An argument is read back from its record. -/
theorem Argument.ofJson?_toJson (a : Argument) : Argument.ofJson? a.toJson = some a := by
  have hfields : record? ["key", "value"] a.toJson = some [("key", .str a.key), ("value", a.value)] := by
    simp [Argument.toJson, record?, repeatsName]
  simp [Argument.ofJson?, hfields, required, List.lookup_cons, text?]

/-- An action is read back from its record. -/
theorem CodeAction.ofJson?_toJson (a : CodeAction) : CodeAction.ofJson? a.toJson = some a := by
  have hfields : record? ["title", "providerId", "arguments"] a.toJson =
      some [("title", .str a.title), ("providerId", .str a.provider.render),
        ("arguments", .list Argument.toJson a.arguments)] := by
    simp [CodeAction.toJson, record?, repeatsName]
  simp [CodeAction.ofJson?, hfields, required, List.lookup_cons, text?, Provider.ofJson?_render,
    listOf?_list Argument.ofJson?_toJson]

/-! ## Configurations -/

theorem ParamSpec.read?_toJson (p : ParamSpec) : ParamSpec.read? p.toJson = some p := by
  obtain ⟨typeName, optional⟩ := p
  cases optional <;> simp [ParamSpec.read?, ParamSpec.toJson, closedRecord?, record?, repeatsName, required,
    withDefault, List.lookup_cons, text?, bool?, Option.filter]

theorem MethodSpec.read?_toJson (m : MethodSpec) : MethodSpec.read? m.toJson = some m := by
  simp [MethodSpec.read?, MethodSpec.toJson, closedRecord?, record?, repeatsName, required, withDefault,
    List.lookup_cons, text?, Option.filter, listOf?_list ParamSpec.read?_toJson]

theorem Contract.read?_toJson (c : Contract) : Contract.read? c.toJson = some c := by
  simp [Contract.read?, Contract.toJson, closedRecord?, record?, repeatsName, withDefault, List.lookup_cons,
    Option.filter, listOf?_list MethodSpec.read?_toJson]

theorem Level.word_injective : Function.Injective Level.word := by
  intro a b
  cases a <;> cases b <;> decide

theorem Level.read?_word (level : Level) : Level.read? (.str level.word : Json) = some level :=
  choiceOf?_str Level.word_injective (by cases level <;> decide)

/-- An entry goes to the end when its name comes after all others. -/
theorem insertEntry_last {name : String} {level : Level} {entries : List (String × Level)}
    (h : ∀ e ∈ entries, e.1 < name) : insertEntry name level entries = entries ++ [(name, level)] := by
  fun_induction insertEntry name level entries with
  | case1 => rfl
  | case2 n l rest hlt => exact absurd (String.lt_trans hlt (h (n, l) (by simp))) (String.lt_irrefl _)
  | case3 n l rest _ _ ih => rw [ih fun e he => h e (by simp [he]), List.cons_append]
  | case4 n l rest _ hngt => exact absurd (h (n, l) (by simp)) hngt

/-- A table is what its entries make. -/
theorem RuleTable.ofList_entries (t : RuleTable) : RuleTable.ofList t.entries = t := by
  have hfold : ∀ (es : List (String × Level)) (t : RuleTable),
      (t.entries ++ es).Pairwise (fun a b => a.1 < b.1) →
      (es.foldl (fun t e => t.insert e.1 e.2) t).entries = t.entries ++ es := by
    intro es
    induction es with
    | nil => simp
    | cons e es ih =>
      intro t hsorted
      have hlast : (t.insert e.1 e.2).entries = t.entries ++ [e] :=
        insertEntry_last fun e' he' => (List.pairwise_append.1 hsorted).2.2 e' he' e (by simp)
      rw [List.foldl_cons, ih, hlast, List.append_assoc, List.singleton_append]
      rwa [hlast, List.append_assoc, List.singleton_append]
  exact RuleTable.ext (hfold t.entries .empty t.sorted)

theorem RuleTable.read?_toJson (t : RuleTable) : RuleTable.read? t.toJson = some t := by
  have hentries : ∀ es : List (String × Level), (es.map fun e => (e.1, Json.str e.2.word)).mapM
      (fun e => (Level.read? e.2).map (e.1, ·)) = some es := by
    intro es
    induction es with
    | nil => rfl
    | cons e es ih => simp [Level.read?_word, ih]
  change ((t.entries.map fun e => (e.1, Json.str e.2.word)).mapM
    fun e => (Level.read? e.2).map (e.1, ·)).bind (fun levels => some (RuleTable.ofList levels)) = some t
  rw [hentries, Option.bind_some, RuleTable.ofList_entries]

/-- A configuration is read back from its record. -/
theorem Config.read?_toJson (c : Config) : Config.read? c.toJson = some c := by
  obtain ⟨module, listener, indent, contract, rules⟩ := c
  by_cases hrules : rules.entries = []
  · obtain rfl : rules = RuleTable.empty := RuleTable.ext hrules
    simp [Config.read?, Config.toJson, RuleTable.empty, closedRecord?, record?, repeatsName, withDefault,
      List.lookup_cons, text?, Option.filter, word64?_nat, Contract.read?_toJson]
  · simp [Config.read?, Config.toJson, hrules, closedRecord?, record?, repeatsName, withDefault, List.lookup_cons,
      text?, Option.filter, word64?_nat, Contract.read?_toJson, RuleTable.read?_toJson]

/-! ## Records -/

/-- What is written is read back, from its value and from the text of its value. -/
def Survives {α : Type} (t : JsonText) (write : α → Json) (read : Json → Option α) (a : α) : Prop :=
  read (write a) = some a ∧ t.decode read (t.write (write a)) = some a

theorem Survives.of_fits {α : Type} {t : JsonText} {exact : JsonNumber → Prop} (ht : t.Faithful exact)
    {write : α → Json} {read : Json → Option α} {a : α} (h : read (write a) = some a)
    (hfits : (write a).Fits exact JsonText.nesting) : Survives t write read a :=
  ⟨h, by rw [ht.decode_write read hfits, h]⟩

structure RecordsSurvive (t : JsonText) (exact : JsonNumber → Prop) : Prop where
  position : ∀ p, Survives t Position.toJson Position.ofJson? p
  location : ∀ l, Survives t Location.toJson Location.ofJson? l
  edit : ∀ e, Survives t TextEdit.toJson TextEdit.ofJson? e
  diagnostic : ∀ d, Survives t Diagnostic.toJson Diagnostic.ofJson? d
  config : ∀ c, Survives t Config.toJson (Config.read? : Json → Option Config) c
  /-- The value of an action survives whatever its arguments hold. -/
  action : ∀ a : CodeAction, CodeAction.ofJson? a.toJson = some a
  /-- So does its text, as long as JSON texts keep what its arguments hold. -/
  actionText : ∀ a : CodeAction, (∀ x ∈ a.arguments, x.value.Fits exact (JsonText.nesting - 3)) →
    t.decode CodeAction.ofJson? (t.write a.toJson) = some a
  /-- An action that was read is carried out like the one that was written. -/
  executed : ∀ a : CodeAction, ∃ a', CodeAction.ofJson? a.toJson = some a' ∧
    ∀ file config store, a'.execute file config store = a.execute file config store
  /-- A text that names a provider is what the provider is written as. -/
  provider : ∀ s p, Provider.parse s = .ok p → p.render = s

theorem records_survive {t : JsonText} {exact : JsonNumber → Prop} (h : t.Faithful exact) : RecordsSurvive t exact where
  position p := .of_fits h p.ofJson?_toJson (p.toJson_fits h.integer 126)
  location l := .of_fits h l.ofJson?_toJson (l.toJson_fits h.integer 125)
  edit e := .of_fits h e.ofJson?_toJson (e.toJson_fits h.integer 124)
  diagnostic d := .of_fits h d.ofJson?_toJson (d.toJson_fits h.integer 124)
  config c := .of_fits h c.read?_toJson (c.toJson_fits h.integer 121)
  action a := a.ofJson?_toJson
  actionText a ha := by rw [h.decode_write _ (CodeAction.toJson_fits 124 ha), a.ofJson?_toJson]
  executed a := ⟨a, a.ofJson?_toJson, fun _ _ _ => rfl⟩
  provider _ _ h := Provider.parse_eq_ok.1 h

/-- An action of a module whose id has a slash, with an argument that holds a list and an empty name. -/
theorem records_survive_nested : ∃ (t : JsonText) (a : CodeAction), t.Faithful JsonNumber.IsInteger64 ∧
    a.provider.render = "a/b/add_on_message_with_caller" ∧
    (∀ x ∈ a.arguments, x.value.Fits JsonNumber.IsInteger64 (JsonText.nesting - 3)) ∧
    t.decode CodeAction.ofJson? (t.write a.toJson) = some a ∧
    ∃ p, Provider.parse "a/b/add_on_message_with_caller" = .ok p ∧ p.render = "a/b/add_on_message_with_caller" := by
  let value : Json := .arr [.num (.int (-1)), .obj [("", .str "\n")]]
  let a : CodeAction := ⟨"\"", ⟨"a/b", .withCaller⟩, [⟨"location", value⟩, ⟨"location", .null⟩]⟩
  have hfits : ∀ x ∈ a.arguments, x.value.Fits JsonNumber.IsInteger64 (JsonText.nesting - 3) := by
    simp [a, value, JsonText.nesting, Json.Fits, Json.ItemsFit, Json.MembersFit, JsonNumber.IsInteger64]
  have hparse : Provider.parse "a/b/add_on_message_with_caller" = .ok a.provider := by decide
  have hsurvive := records_survive JsonText.compact_faithful
  exact ⟨.compact, a, JsonText.compact_faithful, rfl, hfits, hsurvive.actionText a hfits, a.provider, hparse,
    hsurvive.provider _ _ hparse⟩

end ServiceLint
