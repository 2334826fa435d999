import ServiceLint.Wire.Record

/-!
# Records are read back

What is written as a record is read back as it was, so a location that an action carries is the location
that it was offered for.
-/
namespace ServiceLint

open Document

theorem word32?_nat (w : UInt32) : word32? (.nat w.toNat) = some w := by
  have hlt := w.toNat_lt
  have hpos : (0 : Int) ≤ (w.toNat : Int) := Int.natCast_nonneg _
  simp [word32?, Json.nat, nat?, hpos, Option.filter]
  omega

/-- A position is read back from its record. -/
theorem Position.ofJson?_toJson (p : Position) : Position.ofJson? p.toJson = some p := by
  have hfields : record? ["line", "character"] p.toJson =
      some [("line", Json.nat p.line.toNat), ("character", Json.nat p.character.toNat)] := by
    simp [Position.toJson, record?, repeatsName]
  simp [Position.ofJson?, hfields, required, List.lookup_cons, word32?_nat]

/-- A location is read back from its record. -/
theorem Location.ofJson?_toJson (l : Location) : Location.ofJson? l.toJson = some l := by
  have hfields : record? ["file", "start", "end"] l.toJson =
      some [("file", .str l.file), ("start", l.start.toJson), ("end", l.stop.toJson)] := by
    simp [Location.toJson, record?, repeatsName]
  simp [Location.ofJson?, hfields, required, List.lookup_cons, Position.ofJson?_toJson, text?]

end ServiceLint
