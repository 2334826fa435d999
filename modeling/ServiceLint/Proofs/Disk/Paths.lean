import Mathlib.Data.List.Lex
import Mathlib.Data.Prod.Lex
import Mathlib.Data.String.Basic
import ServiceLint.Proofs.Disk.Write

/-!
# Paths that are the same

Paths are compared by their components. The comparison is a linear order of lists of components
(`Path.le_iff`), in which two ways of writing the same path have the same place (`Path.same_iff`). Written one
way or the other, a path that can be read leads to the same file (`Disk.textAt_of_readText`).
-/
namespace ServiceLint

/-! ## The order of paths -/

/-- What components are compared by: their kind, and for names their characters. -/
def Component.key : Component → ℕ ×ₗ String
  | .name s => toLex (3, s)
  | c => toLex (c.rank, "")

theorem Component.key_injective : Function.Injective Component.key := by
  intro a b h
  cases a <;> cases b <;> simp_all [Component.key, Component.rank]

theorem Component.lt_iff {a b : Component} : a.lt b = true ↔ a.key < b.key := by
  cases a <;> cases b <;> simp [Component.lt, Component.key, Component.rank, Prod.Lex.toLex_lt_toLex]

namespace Path

/-- What paths are compared by. -/
def key (p : Path) : List (ℕ ×ₗ String) := p.components.map Component.key

theorem key_eq_iff {p q : Path} : p.key = q.key ↔ p.components = q.components :=
  (List.map_injective_iff.2 Component.key_injective).eq_iff

theorem componentsLe_iff {as bs : List Component} :
    componentsLe as bs = true ↔ as.map Component.key ≤ bs.map Component.key := by
  induction as generalizing bs with
  | nil =>
    cases bs with
    | nil => simp [componentsLe]
    | cons b bs => simp [componentsLe, le_of_lt, List.nil_lt_cons]
  | cons a as ih =>
    cases bs with
    | nil => simp [componentsLe]
    | cons b bs =>
      simp only [componentsLe, Bool.or_eq_true, Bool.and_eq_true, beq_iff_eq, Component.lt_iff, ih,
        List.map_cons, le_iff_lt_or_eq, List.cons_lt_cons_iff, List.cons.injEq, Component.key_injective.eq_iff]
      tauto

theorem le_iff {p q : Path} : p.le q = true ↔ p.key ≤ q.key := componentsLe_iff

theorem same_iff {p q : Path} : p.same q = true ↔ p.key = q.key := by
  rw [key_eq_iff, same, beq_iff_eq]

theorem le_trans (p q r : Path) (hpq : p.le q = true) (hqr : q.le r = true) : p.le r = true :=
  le_iff.2 ((le_iff.1 hpq).trans (le_iff.1 hqr))

theorem le_total (p q : Path) : (p.le q || q.le p) = true := by
  rw [Bool.or_eq_true, le_iff, le_iff]
  exact LinearOrder.le_total p.key q.key

end Path

/-! ## Where paths lead -/

/-- One component further. -/
def Component.step (place : Place) : Component → Place
  | .root => []
  | .current => place
  | .parent => place.dropLast
  | .name s => place ++ [s]

namespace Disk

variable {d : Disk} {p : Path}

/-- Following parts that can be followed goes where their components go. -/
theorem follow_eq_ok {place found : Place} {parts : List (List Char)} (h : d.follow place parts = .ok found) :
    found = (parts.filterMap Component.ofPart?).foldl Component.step place := by
  fun_induction follow d place parts with
  | case1 place => exact (Except.ok.inj h).symm
  | case2 place parts part hdir => cases h
  | case3 place parts hdir ih => exact ih h
  | case4 place parts hdir ih => exact ih h
  | case5 place parts hdir ih => exact ih h
  | case6 place parts hdir name hne hne' hne'' next hnext ih =>
    have hpart : Component.ofPart? name = some (.name (String.ofList name)) := by
      rw [Component.ofPart?] <;> assumption
    rw [List.filterMap_cons, hpart]
    exact ih h
  | case7 => cases h

theorem find_eq_ok {found : Place} (h : d.find p = .ok found) :
    found = p.components.foldl Component.step d.working := by
  unfold find at h
  split at h
  · cases h
  · rw [follow_eq_ok h, Path.components]
    by_cases habsolute : p.isAbsolute = true
    · simp [habsolute, Component.step]
    · by_cases hcurrent : (p.parts.head? == some ['.']) = true
      · simp [habsolute, hcurrent, Component.step]
      · simp [habsolute, hcurrent]

/-- The text of the file to which components lead from the working directory. -/
def textAt (d : Disk) (cs : List Component) : Option (List Char) :=
  (d.files.lookup (cs.foldl Component.step d.working)).bind fun bytes =>
    (String.fromUTF8? bytes).map String.toList

/-- What can be read at a path is the text to which its components lead. -/
theorem textAt_of_readText {text : List Char} (h : d.readText p = .ok text) :
    d.textAt p.components = some text := by
  obtain ⟨place, bytes, s, hfind, hbytes, hs, rfl⟩ := readText_eq_ok_iff.1 h
  rw [textAt, ← find_eq_ok hfind, hbytes, Option.bind_some, hs]
  rfl

theorem isFile_of_readText {text : List Char} (h : d.readText p = .ok text) : d.isFile p = true := by
  obtain ⟨place, bytes, -, hfind, hbytes, -, -⟩ := readText_eq_ok_iff.1 h
  obtain ⟨f, hf, hplace⟩ := List.lookup_isSome_iff.1 (by rw [hbytes]; rfl : (d.files.lookup place).isSome = true)
  have hhas : d.hasFile place = true := List.any_eq_true.2 ⟨f, hf, by rw [BEq.comm]; exact hplace⟩
  simp [isFile, hfind, Except.toOption, hhas]

end Disk

end ServiceLint
