import ServiceLint.Source.File
import ServiceLint.Proofs.Source.Layout
import ServiceLint.Proofs.Text.Coordinates

/-!
# Positions of clean cuts

Spans of a module end at clean cuts, so their positions lead back to them and are in order. Both hold for
texts of fewer than UInt32.size bytes; in longer ones words overflow.
-/
namespace ServiceLint

namespace LineIndex

variable {text : List Char}

theorem offset?_of_cleanCut {n : Nat} (hsize : Text.size text < UInt32.size) (h : CleanCut text n) :
    (ofText text).offset? ((ofText text).position n) = some n := by
  obtain ⟨a, b, rfl, rfl, hcut⟩ := h
  exact offset?_position hsize hcut

/-- The location of a span leads back to the span. -/
theorem span?_location {lo hi : Nat} {s : Span} (hsize : Text.size text < UInt32.size) (h : s.Fits text lo hi)
    (file : String) : (ofText text).span? ((ofText text).location file s) = some s := by
  simp only [span?, location, offset?_of_cleanCut hsize h.start, offset?_of_cleanCut hsize h.stop,
    Option.bind_some, Option.map_some]

/-- The positions of a span are in order. -/
theorem location_le {lo hi : Nat} {s : Span} (hsize : Text.size text < UInt32.size) (h : s.Fits text lo hi)
    (file : String) :
    ((ofText text).location file s).start.le ((ofText text).location file s).stop = true :=
  position_le_of_le hsize h.start.isBoundary h.stop.isBoundary (Nat.le_of_lt h.lt)

theorem location?_eq {lo hi : Nat} {s : Span} (hsize : Text.size text < UInt32.size) (h : s.Fits text lo hi)
    (file : String) : (ofText text).location? file s = .ok ((ofText text).location file s) :=
  location?_of_isBoundary hsize h.start.isBoundary h.stop.isBoundary (Nat.le_of_lt h.lt) file

end LineIndex

theorem SourceFile.parse_eq_ok {name : String} {text : List Char} {file : SourceFile}
    (h : SourceFile.parse name text = .ok file) :
    ∃ m, Module.parse text = .ok m ∧ file = ⟨name, text, m, LineIndex.ofText text⟩ := by
  unfold SourceFile.parse at h
  cases hm : Module.parse text with
  | error e =>
    rw [hm] at h
    cases h
  | ok m =>
    rw [hm] at h
    cases h
    exact ⟨m, rfl, rfl⟩

theorem SourceFile.parse_of_module {text : List Char} {m : Module} (name : String)
    (h : Module.parse text = .ok m) :
    SourceFile.parse name text = .ok ⟨name, text, m, LineIndex.ofText text⟩ := by
  rw [SourceFile.parse, h]
  rfl

end ServiceLint
