import ServiceLint.Severity

/-!
# Configured rule levels

A table from rule names to levels. The entries are in strictly increasing order of their names, so a
name occurs once and two tables with the same entries are equal.
-/
namespace ServiceLint

/-- Inserts an entry into a list that is sorted by name. An entry of the same name is replaced. -/
def insertEntry (name : String) (level : Level) :
    List (String × Level) → List (String × Level)
  | [] => [(name, level)]
  | (n, l) :: rest =>
    if name < n then (name, level) :: (n, l) :: rest
    else if n < name then (n, l) :: insertEntry name level rest
    else (name, level) :: rest

theorem mem_insertEntry {name : String} {level : Level} {entries : List (String × Level)}
    {e : String × Level} (h : e ∈ insertEntry name level entries) :
    e = (name, level) ∨ e ∈ entries := by
  fun_induction insertEntry name level entries with
  | case1 => simpa using h
  | case2 => simpa using h
  | case3 n l rest _ _ ih =>
    rcases List.mem_cons.1 h with rfl | h
    · exact Or.inr (by simp)
    · rcases ih h with rfl | h
      · exact Or.inl rfl
      · exact Or.inr (by simp [h])
  | case4 n l rest _ _ =>
    rcases List.mem_cons.1 h with rfl | h
    · exact Or.inl rfl
    · exact Or.inr (by simp [h])

theorem insertEntry_sorted (name : String) (level : Level) {entries : List (String × Level)}
    (h : entries.Pairwise fun a b => a.1 < b.1) :
    (insertEntry name level entries).Pairwise fun a b => a.1 < b.1 := by
  fun_induction insertEntry name level entries with
  | case1 => simp
  | case2 n l rest hlt =>
    refine List.pairwise_cons.2 ⟨?_, h⟩
    intro e he
    rcases List.mem_cons.1 he with rfl | he
    · exact hlt
    · exact String.lt_trans hlt ((List.pairwise_cons.1 h).1 e he)
  | case3 n l rest _ hgt ih =>
    obtain ⟨hn, hrest⟩ := List.pairwise_cons.1 h
    refine List.pairwise_cons.2 ⟨?_, ih hrest⟩
    intro e he
    rcases mem_insertEntry he with rfl | he
    · exact hgt
    · exact hn e he
  | case4 n l rest hnlt hngt =>
    obtain ⟨hn, hrest⟩ := List.pairwise_cons.1 h
    have heq : n = name :=
      String.le_antisymm (String.not_lt.1 hnlt) (String.not_lt.1 hngt)
    subst heq
    exact List.pairwise_cons.2 ⟨hn, hrest⟩

structure RuleTable where
  entries : List (String × Level)
  sorted : entries.Pairwise fun a b => a.1 < b.1
deriving DecidableEq

namespace RuleTable

def empty : RuleTable := ⟨[], List.Pairwise.nil⟩

instance : Inhabited RuleTable := ⟨empty⟩

/-- Two tables with the same entries are equal. -/
theorem ext {a b : RuleTable} (h : a.entries = b.entries) : a = b := by
  cases a
  cases b
  cases h
  rfl

def insert (t : RuleTable) (name : String) (level : Level) : RuleTable :=
  ⟨insertEntry name level t.entries, insertEntry_sorted name level t.sorted⟩

/-- The table of a list of entries; the last entry of a name counts. -/
def ofList (entries : List (String × Level)) : RuleTable :=
  entries.foldl (fun t e => t.insert e.1 e.2) empty

def get? (t : RuleTable) (name : String) : Option Level :=
  (t.entries.find? (·.1 == name)).map (·.2)

def names (t : RuleTable) : List String := t.entries.map (·.1)

end RuleTable

end ServiceLint
