import Mathlib.Data.List.Basic
import Mathlib.Data.List.Induction
import ServiceLint.Config.Discover

/-!
# The nearest configuration file

Looking for the configuration file is one search inside another: the directories from the start upwards, and in each
of them the file names in their order. One step asks a directory and otherwise goes on with the one that contains it
(`Config.discover?_concat`), so that a directory is asked only when none below it has a configuration file. What is
found is the preferred file of the nearest directory (`Config.discover?_nearest`): a file further up does not count,
whatever its name is.
-/
namespace ServiceLint.Config

/-- The directory holds a configuration file. -/
def Holds (isFile : Place → Bool) (dir : Place) : Prop := ∃ name ∈ fileNames, isFile (dir ++ [name]) = true

/-- The name is the first one of a configuration file that is there in the directory. -/
def Preferred (isFile : Place → Bool) (dir : Place) (name : String) : Prop :=
  ∃ before after, fileNames = before ++ name :: after ∧ isFile (dir ++ [name]) = true ∧
    ∀ other ∈ before, isFile (dir ++ [other]) = false

/-- The directory is the start or contains it, and holds a configuration file; those between the two hold none. -/
structure Nearest (isFile : Place → Bool) (start dir : Place) : Prop where
  contains : dir <+: start
  holds : Holds isFile dir
  closest : ∀ between, dir <+: between → between <+: start → between ≠ dir → ¬ Holds isFile between

variable {isFile : Place → Bool} {start dir found : Place} {name : String}

/-! ## One directory -/

theorem inDirectory?_eq_some_iff :
    inDirectory? isFile dir = some found ↔ ∃ name, found = dir ++ [name] ∧ Preferred isFile dir name := by
  unfold inDirectory?
  rw [List.find?_map, Option.map_eq_some_iff]
  constructor
  · rintro ⟨name, hname, rfl⟩
    obtain ⟨hfile, before, after, hsplit, hbefore⟩ := List.find?_eq_some_iff_append.1 hname
    exact ⟨name, rfl, before, after, hsplit, hfile, fun other hother => by simpa using hbefore other hother⟩
  · rintro ⟨name, rfl, before, after, hsplit, hfile, hbefore⟩
    refine ⟨name, List.find?_eq_some_iff_append.2 ⟨hfile, before, after, hsplit, ?_⟩, rfl⟩
    intro other hother
    simp [hbefore other hother]

theorem inDirectory?_eq_none_iff : inDirectory? isFile dir = none ↔ ¬ Holds isFile dir := by
  unfold inDirectory? Holds
  simp

/-! ## The way up -/

theorem upward_concat (dir : Place) (name : String) :
    upward (dir ++ [name]) = (dir ++ [name]) :: upward dir := by
  unfold upward
  rw [List.length_append, List.length_singleton, List.range_succ, List.reverse_concat, List.map_cons]
  congr 1
  · rw [List.take_of_length_le (by simp)]
  · refine List.map_congr_left fun n hn => ?_
    have hle : n ≤ dir.length := by
      have := List.mem_range.1 (List.mem_reverse.1 hn)
      omega
    exact List.take_append_of_le_length hle

/-- The root is the last directory that is asked. -/
theorem discover?_nil : discover? isFile [] = inDirectory? isFile [] := by
  simp [discover?, upward]

/-- A directory is asked first, and after it the ones that contain it. -/
theorem discover?_concat :
    discover? isFile (dir ++ [name]) = (inDirectory? isFile (dir ++ [name])).or (discover? isFile dir) := by
  rw [discover?, upward_concat, List.findSome?_cons, discover?]
  cases inDirectory? isFile (dir ++ [name]) <;> rfl

/-- A directory with a configuration file ends the search. -/
theorem discover?_of_holds (h : Holds isFile start) : discover? isFile start = inDirectory? isFile start := by
  obtain rfl | ⟨dir, name, rfl⟩ := List.eq_nil_or_concat' start
  · exact discover?_nil
  · obtain ⟨found, hfound⟩ := Option.ne_none_iff_exists'.1 fun hnone => inDirectory?_eq_none_iff.1 hnone h
    rw [discover?_concat, hfound, Option.some_or]

theorem nearest_of_holds (h : Holds isFile start) : Nearest isFile start dir ↔ dir = start := by
  constructor
  · intro hdir
    by_contra hne
    exact hdir.closest start hdir.contains List.prefix_rfl (Ne.symm hne) h
  · rintro rfl
    refine ⟨List.prefix_rfl, h, fun between hdown hup hne => ?_⟩
    exact absurd (hdown.eq_of_length_le hup.length_le).symm hne

/-- A directory without a configuration file is passed over. -/
theorem nearest_concat (h : ¬ Holds isFile (start ++ [name])) :
    Nearest isFile (start ++ [name]) dir ↔ Nearest isFile start dir := by
  constructor
  · rintro ⟨hin, hholds, hclosest⟩
    rcases List.prefix_concat_iff.1 hin with rfl | hin
    · exact absurd hholds h
    · refine ⟨hin, hholds, fun between hdown hup => ?_⟩
      exact hclosest between hdown (hup.trans (List.prefix_append start [name]))
  · rintro ⟨hin, hholds, hclosest⟩
    refine ⟨hin.trans (List.prefix_append start [name]), hholds, fun between hdown hup hne => ?_⟩
    rcases List.prefix_concat_iff.1 hup with rfl | hup
    · exact h
    · exact hclosest between hdown hup hne

/-! ## What is found -/

theorem discover?_eq_some_iff : discover? isFile start = some found ↔
    ∃ dir name, found = dir ++ [name] ∧ Nearest isFile start dir ∧ Preferred isFile dir name := by
  -- upwards, until a directory ends the search
  induction start using List.reverseRecOn with
  | nil =>
    by_cases h : Holds isFile []
    · simp [discover?_of_holds h, inDirectory?_eq_some_iff, nearest_of_holds h]
    · rw [discover?_nil, inDirectory?_eq_none_iff.2 h]
      constructor
      · intro hfound
        cases hfound
      · rintro ⟨dir, name, -, hdir, -⟩
        obtain rfl := List.prefix_nil.1 hdir.contains
        exact absurd hdir.holds h
  | append_singleton start last ih =>
    by_cases h : Holds isFile (start ++ [last])
    · simp [discover?_of_holds h, inDirectory?_eq_some_iff, nearest_of_holds h]
    · rw [discover?_concat, inDirectory?_eq_none_iff.2 h, Option.none_or, ih]
      simp only [nearest_concat h]

theorem discover?_eq_none_iff : discover? isFile start = none ↔ ∀ dir, dir <+: start → ¬ Holds isFile dir := by
  induction start using List.reverseRecOn with
  | nil =>
    rw [discover?_nil, inDirectory?_eq_none_iff]
    simp
  | append_singleton start last ih =>
    rw [discover?_concat, Option.or_eq_none_iff, inDirectory?_eq_none_iff, ih]
    constructor
    · rintro ⟨hlast, hup⟩ dir hdir
      rcases List.prefix_concat_iff.1 hdir with rfl | hdir
      · exact hlast
      · exact hup dir hdir
    · intro h
      refine ⟨h _ List.prefix_rfl, fun dir hdir => ?_⟩
      exact h dir (hdir.trans (List.prefix_append start [last]))

/-- What is found from a directory on is the preferred configuration file of the nearest directory with one, among
the directory and those that contain it. Nothing is found exactly when none of them up to the root has one. YAML is
preferred to JSON, and JSON to TOML. -/
theorem discover?_nearest (isFile : Place → Bool) (start : Place) :
    fileNames = [".mqtt-analyzer.yaml", ".mqtt-analyzer.yml", ".mqtt-analyzer.json", ".mqtt-analyzer.toml"] ∧
    (∀ found, discover? isFile start = some found ↔
      ∃ dir name, found = dir ++ [name] ∧ Nearest isFile start dir ∧ Preferred isFile dir name) ∧
    (discover? isFile start = none ↔ ∀ dir, dir <+: start → ¬ Holds isFile dir) :=
  ⟨rfl, fun _ => discover?_eq_some_iff, discover?_eq_none_iff⟩

/-- The last name in the nearer directory counts more than the first one further up. -/
example : discover? (fun p => p == [".mqtt-analyzer.yaml"] || p == ["a", ".mqtt-analyzer.toml"]) ["a", "b"] =
    some ["a", ".mqtt-analyzer.toml"] := by decide

end ServiceLint.Config
