import ServiceLint.Disk.Basic

/-!
# Writing to a disk

Writing a file changes what the file holds and nothing else: paths lead where they led before
(`Disk.find_write`), and reading the file gives what was written (`Disk.readText_write`).
-/
namespace ServiceLint.Disk

variable (d : Disk) (p : Path) (text : List Char)

/-- Files stay where they are. -/
theorem files_write_fst : (d.write p text).files.map Prod.fst = d.files.map Prod.fst := by
  unfold write
  split
  · rw [List.map_map]
    refine List.map_congr_left fun f _ => ?_
    simp only [Function.comp]
    split <;> rfl
  · rfl

@[simp]
theorem directories_write : (d.write p text).directories = d.directories := by
  unfold write
  split <;> rfl

@[simp]
theorem working_write : (d.write p text).working = d.working := by
  unfold write
  split <;> rfl

@[simp]
theorem hasFile_write (place : Place) : (d.write p text).hasFile place = d.hasFile place := by
  have hany (e : Disk) : e.hasFile place = (e.files.map Prod.fst).any (· == place) := by
    rw [List.any_map]
    rfl
  rw [hany, hany, files_write_fst]

@[simp]
theorem hasDirectory_write (place : Place) : (d.write p text).hasDirectory place = d.hasDirectory place := by
  have hplaces : (d.write p text).places = d.places := by
    unfold places
    rw [directories_write, working_write, show (fun f : Place × ByteArray => f.1) = Prod.fst from rfl,
      files_write_fst]
  rw [hasDirectory, hasDirectory, hasFile_write, hplaces]

theorem follow_write (place : Place) (parts : List (List Char)) :
    (d.write p text).follow place parts = d.follow place parts := by
  induction parts generalizing place with
  | nil => rfl
  | cons part parts ih => simp only [follow, hasFile_write, hasDirectory_write, ih]

theorem find_write (q : Path) : (d.write p text).find q = d.find q := by
  simp only [find, working_write, follow_write]

/-- The characters of a text are read back from its bytes. -/
theorem fromUTF8?_toUTF8 (s : String) : String.fromUTF8? s.toUTF8 = some s := by
  rw [String.fromUTF8?, String.toUTF8_eq_toByteArray, dif_pos s.isValidUTF8]
  rfl

variable {d p}

theorem lookup_replace {place : Place} {bytes : ByteArray} {files : List (Place × ByteArray)}
    (h : (files.lookup place).isSome = true) :
    (files.map fun f => if f.1 == place then (f.1, bytes) else f).lookup place = some bytes := by
  induction files with
  | nil => cases h
  | cons f files ih =>
    obtain ⟨other, old⟩ := f
    by_cases hf : other = place
    · simp [hf]
    · have hne : (place == other) = false := by simpa using Ne.symm hf
      rw [List.lookup_cons, hne] at h
      simpa [List.lookup_cons, hf, hne] using ih h

/-- What can be read at a path: the bytes of a file that are a text. -/
theorem readText_eq_ok_iff {content : List Char} :
    d.readText p = .ok content ↔ ∃ place bytes s, d.find p = .ok place ∧
      d.files.lookup place = some bytes ∧ String.fromUTF8? bytes = some s ∧ s.toList = content := by
  constructor
  · intro h
    cases hfind : d.find p with
    | error e => simp [readText, hfind, bind, Except.bind] at h
    | ok place =>
      cases hbytes : d.files.lookup place with
      | none => simp [readText, hfind, hbytes, bind, Except.bind, throw, throwThe, MonadExceptOf.throw] at h
      | some bytes =>
        cases hs : String.fromUTF8? bytes with
        | none =>
          simp [readText, hfind, hbytes, hs, bind, Except.bind, throw, throwThe, MonadExceptOf.throw] at h
        | some s =>
          simp [readText, hfind, hbytes, hs, bind, Except.bind, pure, Except.pure] at h
          exact ⟨place, bytes, s, rfl, hbytes, hs, h⟩
  · rintro ⟨place, bytes, s, hfind, hbytes, hs, rfl⟩
    simp [readText, hfind, hbytes, hs, bind, Except.bind, pure, Except.pure]

/-- A file that could be read holds what is written to it. -/
theorem readText_write {old : List Char} (h : d.readText p = .ok old) :
    (d.write p text).readText p = .ok text := by
  obtain ⟨place, bytes, -, hfind, hbytes, -, -⟩ := readText_eq_ok_iff.1 h
  have hlookup : (d.write p text).files.lookup place = some (String.ofList text).toUTF8 := by
    rw [write, hfind]
    exact lookup_replace (by rw [hbytes]; rfl)
  rw [readText_eq_ok_iff]
  exact ⟨place, _, _, (find_write d p text p).trans hfind, hlookup, fromUTF8?_toUTF8 _, String.toList_ofList⟩

end ServiceLint.Disk
