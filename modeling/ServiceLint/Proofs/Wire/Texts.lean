import Mathlib.Data.List.Nodup
import ServiceLint.Action.CodeAction
import ServiceLint.Config.Record
import ServiceLint.Proofs.Format.Json

/-!
# Records as texts

A record goes to its text and back by way of its value, and the value by way of a JSON package
(`JsonText`). What the package promises is `JsonText.Faithful`: a value is read back from its text if its
numbers are, its objects name no member twice, and it is not nested too deep (`Json.Fits`). The values of
all records are of this kind, except for what the arguments of an action hold.
-/
namespace ServiceLint

/-- The integers that fit 64 bits, with or without a sign. -/
def JsonNumber.IsInteger64 : JsonNumber → Prop
  | .int z => -9223372036854775808 ≤ z ∧ z < 18446744073709551616
  | .decimal .. => False

namespace Json

mutual

/-- The numbers of the value are among some, no object in it names a member twice, and it is nested at most
`depth` deep. -/
def Fits (exact : JsonNumber → Prop) (depth : Nat) : Json → Prop
  | .null | .bool _ | .str _ => True
  | .num n => exact n
  | .arr items => 0 < depth ∧ ItemsFit exact (depth - 1) items
  | .obj members => 0 < depth ∧ (members.map (·.1)).Nodup ∧ MembersFit exact (depth - 1) members

def ItemsFit (exact : JsonNumber → Prop) (depth : Nat) : List Json → Prop
  | [] => True
  | item :: items => item.Fits exact depth ∧ ItemsFit exact depth items

def MembersFit (exact : JsonNumber → Prop) (depth : Nat) : List (String × Json) → Prop
  | [] => True
  | (_, value) :: members => value.Fits exact depth ∧ MembersFit exact depth members

end

end Json

/-- What the wire takes from a JSON package (`serde_json.to_string`, `serde_json.from_str`). -/
structure JsonText where
  write : Json → String
  read? : String → Option Json

namespace JsonText

/-- How deep a reader goes into a value. -/
def nesting : Nat := 127

/-- What a JSON package promises. Which numbers it reads back as they were is up to it, as long as integers of 64 bits
are among them: a fraction may be read as one next to it. -/
structure Faithful (t : JsonText) (exact : JsonNumber → Prop) : Prop where
  integer : ∀ n : JsonNumber, n.IsInteger64 → exact n
  readsBack : ∀ j : Json, j.Fits exact nesting → t.read? (t.write j) = some j

/-- Reads a record from its text. -/
def decode {α : Type} (t : JsonText) (read : Json → Option α) (text : String) : Option α := (t.read? text).bind read

variable {t : JsonText} {exact : JsonNumber → Prop}

/-- A record is read from its text as from its value. -/
theorem Faithful.decode_write {α : Type} (h : t.Faithful exact) (read : Json → Option α) {j : Json}
    (hj : j.Fits exact nesting) : t.decode read (t.write j) = read j := by
  rw [decode, h.readsBack j hj, Option.bind_some]

end JsonText

/-! ## The values of records -/

section

variable {exact : JsonNumber → Prop}

theorem Json.fits_list {α : Type} {write : α → Json} {as : List α} {depth : Nat}
    (h : ∀ a ∈ as, (write a).Fits exact depth) : (Json.list write as).Fits exact (depth + 1) := by
  refine ⟨Nat.succ_pos depth, ?_⟩
  show ItemsFit exact depth (as.map write)
  induction as with
  | nil => trivial
  | cons a as ih => exact ⟨h a (by simp), ih fun b hb => h b (by simp [hb])⟩

variable (hexact : ∀ n : JsonNumber, n.IsInteger64 → exact n) (depth : Nat)

include hexact

theorem Json.fits_nat {n : Nat} (h : n < 18446744073709551616) : (Json.nat n).Fits exact depth := by
  refine hexact _ ⟨?_, ?_⟩ <;> omega

theorem Position.toJson_fits (p : Position) : p.toJson.Fits exact (depth + 1) := by
  have hword : ∀ w : UInt32, (Json.nat w.toNat).Fits exact depth := fun w =>
    Json.fits_nat hexact depth (Nat.lt_trans w.toNat_lt (by decide))
  simp [Position.toJson, Json.Fits, Json.MembersFit, hword]

theorem Location.toJson_fits (l : Location) : l.toJson.Fits exact (depth + 2) := by
  simp [Location.toJson, Json.Fits, Json.MembersFit, Position.toJson_fits hexact depth]

theorem TextEdit.toJson_fits (e : TextEdit) : e.toJson.Fits exact (depth + 3) := by
  simp [TextEdit.toJson, Json.Fits, Json.MembersFit, Location.toJson_fits hexact depth]

theorem Diagnostic.toJson_fits (d : Diagnostic) : d.toJson.Fits exact (depth + 3) := by
  simp [Diagnostic.toJson, Json.Fits, Json.MembersFit, Location.toJson_fits hexact depth]

omit hexact in
/-- An action goes three levels deeper than what its arguments hold. -/
theorem CodeAction.toJson_fits {a : CodeAction} (h : ∀ x ∈ a.arguments, x.value.Fits exact depth) :
    a.toJson.Fits exact (depth + 3) := by
  have harguments : (Json.list Argument.toJson a.arguments).Fits exact (depth + 2) :=
    Json.fits_list fun x hx => by simp [Argument.toJson, Json.Fits, Json.MembersFit, h x hx]
  simp [CodeAction.toJson, Json.Fits, Json.MembersFit, harguments]

omit hexact in
theorem MethodSpec.toJson_fits (m : MethodSpec) : m.toJson.Fits exact (depth + 3) := by
  have hparams : (Json.list ParamSpec.toJson m.params).Fits exact (depth + 2) := Json.fits_list fun p _ => by
    obtain ⟨typeName, optional⟩ := p
    cases optional <;> simp [ParamSpec.toJson, Json.Fits, Json.MembersFit]
  simp [MethodSpec.toJson, Json.Fits, Json.MembersFit, hparams]

omit hexact in
theorem Contract.toJson_fits (c : Contract) : c.toJson.Fits exact (depth + 5) := by
  have hmethods : ∀ ms, (Json.list MethodSpec.toJson ms).Fits exact (depth + 4) :=
    fun ms => Json.fits_list fun m _ => m.toJson_fits depth
  simp [Contract.toJson, Json.Fits, Json.MembersFit, hmethods]

omit hexact in
/-- The names in a table are in strict order, so there are no two of them. -/
theorem RuleTable.toJson_fits (rules : RuleTable) : rules.toJson.Fits exact (depth + 1) := by
  have hnames : (rules.entries.map (·.1)).Nodup := by
    refine List.pairwise_map.2 (rules.sorted.imp fun {a b} hlt heq => ?_)
    rw [heq] at hlt
    exact String.lt_irrefl _ hlt
  have hlevels : ∀ es : List (String × Level),
      Json.MembersFit exact depth (es.map fun e => (e.1, Json.str e.2.word)) := by
    intro es
    induction es with
    | nil => trivial
    | cons e es ih => exact ⟨trivial, ih⟩
  refine ⟨Nat.succ_pos depth, ?_, hlevels rules.entries⟩
  rw [List.map_map]
  exact hnames

theorem Config.toJson_fits (c : Config) : c.toJson.Fits exact (depth + 6) := by
  have hindent : (Json.nat c.indent.toNat).Fits exact (depth + 5) := Json.fits_nat hexact _ c.indent.toNat_lt
  have hcontract : c.contract.toJson.Fits exact (depth + 5) := c.contract.toJson_fits depth
  have hrules : c.rules.toJson.Fits exact (depth + 5) := c.rules.toJson_fits (depth + 4)
  by_cases hempty : c.rules.entries = []
  · simp [Config.toJson, hempty, Json.Fits, Json.MembersFit, hindent, hcontract]
  · simp [Config.toJson, hempty, Json.Fits, Json.MembersFit, hindent, hcontract, hrules]

end

/-! ## A package that keeps the promise -/

theorem JsonNumber.IsInteger64.inRange {n : JsonNumber} (h : n.IsInteger64) : n.inRange = true := by
  cases n with
  | int z => simpa [JsonNumber.inRange, JsonNumber.IsInteger64] using h
  | decimal => exact h.elim

namespace Json

mutual

theorem Fits.inRange {depth : Nat} (j : Json) (h : j.Fits JsonNumber.IsInteger64 depth) : j.inRange = true := by
  cases j with
  | null => rfl
  | bool b => rfl
  | num n => exact JsonNumber.IsInteger64.inRange h
  | str s => rfl
  | arr items => exact itemsFit_inRange items h.2
  | obj members => exact membersFit_inRange members h.2.2

theorem itemsFit_inRange {depth : Nat} (items : List Json) (h : ItemsFit JsonNumber.IsInteger64 depth items) :
    itemsInRange items = true := by
  cases items with
  | nil => rfl
  | cons item items =>
    rw [itemsInRange, Fits.inRange item h.1, itemsFit_inRange items h.2]
    rfl

theorem membersFit_inRange {depth : Nat} (members : List (String × Json))
    (h : MembersFit JsonNumber.IsInteger64 depth members) : membersInRange members = true := by
  cases members with
  | nil => rfl
  | cons member members =>
    obtain ⟨name, value⟩ := member
    rw [membersInRange, Fits.inRange value h.1, membersFit_inRange members h.2]
    rfl

end

end Json

/-- The printer and the reader that the program runs with. -/
def JsonText.compact : JsonText := ⟨Json.compact, fun text => Json.parse? text.toList⟩

theorem JsonText.compact_faithful : JsonText.compact.Faithful JsonNumber.IsInteger64 where
  integer _ h := h
  readsBack j h := Json.parse?_compact j (Json.Fits.inRange j h)

end ServiceLint
