import Mathlib.Data.List.Sort
import ServiceLint.Command.Run
import ServiceLint.Package.Default
import ServiceLint.Proofs.Disk.Paths
import ServiceLint.Proofs.Lint.Order

/-!
# Checking files in any order

The files to check are sorted by their components and each is kept once, so the arguments may come in any order
and more than once (`check_arguments`): the same files are checked, with the same exit status, and what is printed
is the same too as long as no file is written in two ways. If one is, the first way counts for what is printed
(`check_spelling`).
-/
namespace ServiceLint

/-! ## Names of files -/

/-- A diagnostic as it is for a file of another name. -/
def Diagnostic.renamed (name : String) (d : Diagnostic) : Diagnostic :=
  { d with location := { d.location with file := name } }

def SourceFile.renamed (name : String) (f : SourceFile) : SourceFile := { f with name }

namespace Binding

def renamed (name : String) (b : Binding) : Binding := { b with file := b.file.renamed name }

variable (b : Binding) (name : String)

theorem resolve_renamed (file : SourceFile) (config : Config) :
    Binding.resolve (file.renamed name) config = (Binding.resolve file config).map (Binding.renamed name) := by
  rw [resolve, resolve, Option.map_map]
  rfl

theorem check_renamed [Similarity] (rule : Rule) (s : Service) : rule.check (b.renamed name) s = rule.check b s := by
  cases rule <;> rfl

theorem ruleDiagnostics_renamed [Similarity] (s : Service) (rule : Rule) :
    (b.renamed name).ruleDiagnostics s rule = (b.ruleDiagnostics s rule).map (Diagnostic.renamed name) := by
  unfold ruleDiagnostics
  rw [check_renamed, show (b.renamed name).config = b.config from rfl]
  cases (b.config.level rule.name).severity? with
  | none => rfl
  | some severity =>
    rw [List.map_map]
    rfl

theorem serviceDiagnostics_renamed [Similarity] (s : Service) :
    (b.renamed name).serviceDiagnostics s = (b.serviceDiagnostics s).map (Diagnostic.renamed name) := by
  rw [serviceDiagnostics, serviceDiagnostics, List.map_flatMap]
  exact List.flatMap_congr fun rule _ => b.ruleDiagnostics_renamed name s rule

theorem diagnostics_renamed [Similarity] :
    (b.renamed name).diagnostics = b.diagnostics.map (Diagnostic.renamed name) := by
  have hle : ∀ d ∈ b.services.flatMap b.serviceDiagnostics, ∀ d' ∈ b.services.flatMap b.serviceDiagnostics,
      d.le d' = (d.renamed name).le (d'.renamed name) := fun _ _ _ _ => rfl
  rw [diagnostics, diagnostics, List.map_mergeSort hle, List.map_flatMap]
  refine congrArg (List.mergeSort · Diagnostic.le) ?_
  exact List.flatMap_congr fun s _ => b.serviceDiagnostics_renamed name s

end Binding

/-- What is said about a file depends on its name only where the name is given. -/
theorem validate_renamed [Similarity] (name : String) (file : SourceFile) (config : Config) :
    validate (file.renamed name) config = (validate file config).map (Diagnostic.renamed name) := by
  rw [validate, validate, Binding.resolve_renamed]
  cases Binding.resolve file config with
  | none => rfl
  | some b => exact b.diagnostics_renamed name

namespace Command

def FileReport.renamed (name : String) (r : FileReport) : FileReport :=
  { r with path := name, diagnostics := r.diagnostics.map (Diagnostic.renamed name) }

theorem FileReport.renamed_ofText [Similarity] (config : Config) (name name' : String) (text : List Char) :
    (FileReport.ofText config name text).renamed name' = FileReport.ofText config name' text := by
  unfold FileReport.ofText SourceFile.parse
  cases Module.parse text with
  | error e => rfl
  | ok m =>
    have hvalidate := validate_renamed name' ⟨name, text, m, LineIndex.ofText text⟩ config
    simp only [Except.map, FileReport.renamed, ← hvalidate]
    rfl

theorem FileReport.count_renamed (r : FileReport) (name : String) (s : Severity) :
    (r.renamed name).count s = r.count s := by
  simp [FileReport.count, FileReport.renamed, List.countP_map, Diagnostic.renamed, Function.comp_def]

/-- Reports have the same numbers whatever the names of the files. -/
theorem Totals.ofReports_renamed (rs : List FileReport) (name : String) :
    Totals.ofReports (rs.map (FileReport.renamed name)) = Totals.ofReports rs := by
  have hparse (r : FileReport) : (r.renamed name).parseError = r.parseError := rfl
  simp [Totals.ofReports, List.foldr_map, FileReport.count_renamed, List.countP_map, Function.comp_def, hparse]

/-! ## Sorting and dropping repeats -/

theorem mem_of_mem_dropRepeats {p : Path} {ps : List Path} (h : p ∈ dropRepeats ps) : p ∈ ps := by
  fun_induction dropRepeats ps with
  | case1 q r ps hsame ih =>
    rcases List.mem_cons.1 (ih h) with rfl | hp
    · exact List.mem_cons_self
    · simp [hp]
  | case2 q r ps hsame ih =>
    rcases List.mem_cons.1 h with rfl | hp
    · exact List.mem_cons_self
    · exact List.mem_cons_of_mem _ (ih hp)
  | case3 => exact h

/-- Of every path, one way of writing it is kept. -/
theorem exists_mem_dropRepeats {p : Path} {ps : List Path} (h : p ∈ ps) :
    ∃ q ∈ dropRepeats ps, q.key = p.key := by
  fun_induction dropRepeats ps generalizing p with
  | case1 q r ps hsame ih =>
    rcases List.mem_cons.1 h with rfl | hp
    · exact ih List.mem_cons_self
    · rcases List.mem_cons.1 hp with rfl | hp
      · obtain ⟨q', hq', hkey⟩ := ih List.mem_cons_self
        exact ⟨q', hq', hkey.trans (Path.same_iff.1 hsame)⟩
      · exact ih (List.mem_cons_of_mem _ hp)
  | case2 q r ps hsame ih =>
    rcases List.mem_cons.1 h with rfl | hp
    · exact ⟨p, List.mem_cons_self, rfl⟩
    · obtain ⟨q', hq', hkey⟩ := ih hp
      exact ⟨q', List.mem_cons_of_mem _ hq', hkey⟩
  | case3 => exact ⟨p, h, rfl⟩

/-- Sorted paths without repeats are sorted strictly. -/
theorem dropRepeats_pairwise {ps : List Path} (h : ps.Pairwise fun p q => p.key ≤ q.key) :
    (dropRepeats ps).Pairwise fun p q => p.key < q.key := by
  fun_induction dropRepeats ps with
  | case1 p q ps hsame ih =>
    refine ih (h.sublist ?_)
    exact (List.sublist_cons_self q ps).cons_cons p
  | case2 p q ps hsame ih =>
    obtain ⟨hhead, htail⟩ := List.pairwise_cons.1 h
    refine List.pairwise_cons.2 ⟨fun r hr => ?_, ih htail⟩
    have hlt : p.key < q.key := lt_of_le_of_ne (hhead q List.mem_cons_self) fun heq => hsame (Path.same_iff.2 heq)
    -- what is kept of the rest comes after its first path, which comes strictly after `p`
    rcases List.mem_cons.1 (mem_of_mem_dropRepeats hr) with rfl | hr
    · exact hlt
    · exact lt_of_lt_of_le hlt (List.rel_of_pairwise_cons htail hr)
  | case3 ps hshort =>
    match ps, hshort with
    | [], _ => exact List.Pairwise.nil
    | [p], _ => exact List.pairwise_singleton _ p
    | p :: q :: ps, hshort => exact (hshort p q ps rfl).elim

/-! ## The files that are checked -/

/-- The files that arguments stand for when each is the path of a file. -/
def filesOf (args : List String) : List Path := dropRepeats ((args.map Path.mk).mergeSort Path.le)

theorem mem_of_mem_filesOf {p : Path} {args : List String} (h : p ∈ filesOf args) : p.text ∈ args := by
  obtain ⟨a, ha, rfl⟩ := List.mem_map.1 (List.mem_mergeSort.1 (mem_of_mem_dropRepeats h))
  exact ha

theorem exists_mem_filesOf {a : String} {args : List String} (h : a ∈ args) :
    ∃ p ∈ filesOf args, p.key = (Path.mk a).key :=
  exists_mem_dropRepeats (List.mem_mergeSort.2 (List.mem_map_of_mem h))

theorem filesOf_pairwise (args : List String) : (filesOf args).Pairwise fun p q => p.key < q.key := by
  refine dropRepeats_pairwise ?_
  exact (List.pairwise_mergeSort Path.le_trans Path.le_total _).imp Path.le_iff.1

theorem mem_keys_filesOf {args : List String} {k : List (ℕ ×ₗ String)} :
    k ∈ (filesOf args).map Path.key ↔ ∃ a ∈ args, (Path.mk a).key = k := by
  constructor
  · intro h
    obtain ⟨p, hp, rfl⟩ := List.mem_map.1 h
    exact ⟨p.text, mem_of_mem_filesOf hp, rfl⟩
  · rintro ⟨a, ha, rfl⟩
    obtain ⟨p, hp, hkey⟩ := exists_mem_filesOf ha
    exact List.mem_map.2 ⟨p, hp, hkey⟩

section

variable {args args' : List String}

/-- The same arguments stand for the same files, in the same order. -/
theorem keys_filesOf (h : ∀ a, a ∈ args ↔ a ∈ args') :
    (filesOf args).map Path.key = (filesOf args').map Path.key := by
  refine (List.pairwise_map.2 (filesOf_pairwise args)).eq_of_mem_iff
    (List.pairwise_map.2 (filesOf_pairwise args')) fun k => ?_
  simp only [mem_keys_filesOf, h]

theorem components_filesOf (h : ∀ a, a ∈ args ↔ a ∈ args') :
    (filesOf args).map Path.components = (filesOf args').map Path.components := by
  have hkeys := keys_filesOf h
  have hmap (ps : List Path) : ps.map Path.key = (ps.map Path.components).map (List.map Component.key) := by
    rw [List.map_map]
    rfl
  rw [hmap, hmap] at hkeys
  exact List.map_injective_iff.2 (List.map_injective_iff.2 Component.key_injective) hkeys

/-- Where the names tell the elements apart, lists with the same names are the same. -/
theorem eq_of_map_eq {α β : Type _} {f : α → β} {xs ys : List α} (h : xs.map f = ys.map f)
    (hinj : ∀ x ∈ xs, ∀ y ∈ ys, f x = f y → x = y) : xs = ys := by
  induction xs generalizing ys with
  | nil => simpa [eq_comm] using h
  | cons x xs ih =>
    cases ys with
    | nil => simp at h
    | cons y ys =>
      obtain ⟨hxy, hrest⟩ := List.cons.inj h
      rw [hinj x List.mem_cons_self y List.mem_cons_self hxy,
        ih hrest fun a ha b hb => hinj a (List.mem_cons_of_mem _ ha) b (List.mem_cons_of_mem _ hb)]

/-- No file is written in two ways. -/
def OneSpelling (args : List String) : Prop :=
  ∀ a ∈ args, ∀ b ∈ args, (Path.mk a).same ⟨b⟩ = true → a = b

instance (args : List String) : Decidable (OneSpelling args) :=
  inferInstanceAs (Decidable (∀ a ∈ args, ∀ b ∈ args, _ → _))

theorem filesOf_eq (h : ∀ a, a ∈ args ↔ a ∈ args') (hspelling : OneSpelling args) :
    filesOf args = filesOf args' := by
  refine eq_of_map_eq (keys_filesOf h) fun p hp q hq hkey => ?_
  have htext := hspelling p.text (mem_of_mem_filesOf hp) q.text ((h q.text).2 (mem_of_mem_filesOf hq))
    (Path.same_iff.2 hkey)
  exact congrArg Path.mk htext

end

section

variable {d : Disk} {args args' : List String}

theorem expandPatterns_of_readable [Packages] (h : ∀ a ∈ args, ∃ text, d.readText ⟨a⟩ = .ok text) :
    expandPatterns d args = .ok (filesOf args) := by
  have hfound : args.mapM (expandPattern d) = .ok (args.map fun a => [⟨a⟩]) := by
    refine mapM_eq_ok_map fun a ha => ?_
    obtain ⟨text, htext⟩ := h a ha
    rw [expandPattern, if_pos (Disk.isFile_of_readText htext)]
  have hflat : (args.map fun a => [Path.mk a]).flatten = args.map Path.mk := by
    rw [← List.flatMap_def, ← List.map_eq_flatMap]
  rw [expandPatterns, hfound]
  show Except.ok (dropRepeats _) = _
  rw [hflat, filesOf]

def reportsOf [Similarity] (d : Disk) (config : Config) (files : List Path) : List FileReport :=
  files.map fun p => FileReport.ofText config p.text ((d.textAt p.components).getD [])

theorem checkFiles_of_readable [Packages] (h : ∀ a ∈ args, ∃ text, d.readText ⟨a⟩ = .ok text) (config : Config) :
    checkFiles d config args =
      if (filesOf args).isEmpty then .error (.noFiles args) else .ok (reportsOf d config (filesOf args)) := by
  have hreports : (filesOf args).mapM (checkFile d config) = .ok (reportsOf d config (filesOf args)) := by
    refine mapM_eq_ok_map fun p hp => ?_
    obtain ⟨text, htext⟩ := h p.text (mem_of_mem_filesOf hp)
    have htext : d.readText p = .ok text := htext
    rw [checkFile, htext, Disk.textAt_of_readText htext]
    rfl
  rw [checkFiles, expandPatterns_of_readable h]
  show (if _ then _ else _) = _
  rw [← hreports]
  split <;> rfl

/-- Apart from the names, reports depend on the components of paths only. -/
theorem reportsOf_renamed [Similarity] (config : Config) {files files' : List Path}
    (h : files.map Path.components = files'.map Path.components) (name : String) :
    (reportsOf d config files).map (FileReport.renamed name) =
      (reportsOf d config files').map (FileReport.renamed name) := by
  have hreports (ps : List Path) : (reportsOf d config ps).map (FileReport.renamed name) =
      (ps.map Path.components).map fun cs => FileReport.ofText config name ((d.textAt cs).getD []) := by
    rw [reportsOf, List.map_map, List.map_map]
    exact List.map_congr_left fun p _ => FileReport.renamed_ofText config p.text name _
  rw [hreports, hreports, h]

end

/-! ## The arguments of a check -/

/-- The outcome of checking files that can be read. -/
theorem check_outcome [Packages] {d : Disk} {args : List String} (h : ∀ a ∈ args, ∃ text, d.readText ⟨a⟩ = .ok text)
    (o : Options) (e : Environment) (format : OutputFormat) :
    (Request.run o (.check args format)).outcome e d =
      match loadConfig o d with
      | .error f => f.outcome (o.isStyled e)
      | .ok config =>
        if (filesOf args).isEmpty then (Failure.noFiles args).outcome (o.isStyled e)
        else
          { exit := (Totals.ofReports (reportsOf d config (filesOf args))).exit
            printed := printReports (o.isStyled e) o.quiet (reportsOf d config (filesOf args)) format } := by
  simp only [Request.outcome, Task.run, runCheck]
  cases loadConfig o d with
  | error f => rfl
  | ok config =>
    simp only [bind, Except.bind, checkFiles_of_readable h]
    by_cases hempty : (filesOf args).isEmpty = true
    · simp only [hempty, if_true]
    · simp only [hempty]
      rfl

section

variable {d : Disk} {args args' : List String} (hread : ∀ a ∈ args, ∃ text, d.readText ⟨a⟩ = .ok text)
  (hsame : ∀ a, a ∈ args ↔ a ∈ args')

include hsame

theorem isEmpty_filesOf : (filesOf args).isEmpty = (filesOf args').isEmpty := by
  have hlength := congrArg List.length (components_filesOf hsame)
  simp only [List.length_map] at hlength
  rw [Bool.eq_iff_iff, List.isEmpty_iff_length_eq_zero, List.isEmpty_iff_length_eq_zero, hlength]

include hread

theorem readable_of_same : ∀ a ∈ args', ∃ text, d.readText ⟨a⟩ = .ok text :=
  fun a ha => hread a ((hsame a).2 ha)

/-- The reports are the same apart from the names of files. -/
theorem checkFiles_of_same [Packages] {config : Config} {rs : List FileReport} (h : checkFiles d config args = .ok rs) :
    ∃ rs', checkFiles d config args' = .ok rs' ∧
      rs.map (FileReport.renamed "") = rs'.map (FileReport.renamed "") := by
  rw [checkFiles_of_readable hread] at h
  rw [checkFiles_of_readable (readable_of_same hread hsame), ← isEmpty_filesOf hsame]
  split at h
  · cases h
  · next hne =>
    obtain rfl := Except.ok.inj h
    exact ⟨_, if_neg hne, reportsOf_renamed config (components_filesOf hsame) ""⟩

/-- The exit status is the same. -/
theorem check_exit_of_same [Packages] (o : Options) (e : Environment) (format : OutputFormat) :
    ((Request.run o (.check args format)).outcome e d).exit =
      ((Request.run o (.check args' format)).outcome e d).exit := by
  rw [check_outcome hread, check_outcome (readable_of_same hread hsame), ← isEmpty_filesOf hsame]
  cases loadConfig o d with
  | error f => rfl
  | ok config =>
    have htotals : Totals.ofReports (reportsOf d config (filesOf args)) =
        Totals.ofReports (reportsOf d config (filesOf args')) := by
      rw [← Totals.ofReports_renamed _ "", reportsOf_renamed config (components_filesOf hsame),
        Totals.ofReports_renamed]
    by_cases hnone : (filesOf args).isEmpty = true
    · simp only [hnone, if_true]
      rfl
    · simp only [hnone, htotals]
      rfl

/-- What is printed is the same if no file is written in two ways. -/
theorem check_outcome_of_same [Packages] (hspelling : OneSpelling args) (o : Options) (e : Environment)
    (format : OutputFormat) :
    (Request.run o (.check args format)).outcome e d = (Request.run o (.check args' format)).outcome e d := by
  cases args with
  | nil =>
    obtain rfl : args' = [] := List.eq_nil_iff_forall_not_mem.2 fun a ha => by simpa using (hsame a).2 ha
    rfl
  | cons a rest =>
    -- there is a file, so the arguments themselves are not printed
    have hne : (filesOf (a :: rest)).isEmpty = false := by
      obtain ⟨p, hp, -⟩ := exists_mem_filesOf (List.mem_cons_self : a ∈ a :: rest)
      exact List.isEmpty_eq_false_iff.2 (List.ne_nil_of_mem hp)
    rw [check_outcome hread, check_outcome (readable_of_same hread hsame), ← filesOf_eq hsame hspelling]
    simp only [hne]
    rfl

end

/-- **The order and number of arguments do not matter.** Lists of arguments that name the same files, each of which
can be read, lead to the same paths by components, to reports that differ in the names of files at most, and to the
same exit status. What is printed is the same too if no file is written in two ways. -/
theorem check_arguments [Packages] {d : Disk} {args args' : List String}
    (hread : ∀ a ∈ args, ∃ text, d.readText ⟨a⟩ = .ok text) (hsame : ∀ a, a ∈ args ↔ a ∈ args')
    (o : Options) (e : Environment) (format : OutputFormat) :
    let run args := (Request.run o (.check args format)).outcome e d
    (∃ files files', expandPatterns d args = .ok files ∧ expandPatterns d args' = .ok files' ∧
      files.map Path.components = files'.map Path.components) ∧
    (∀ config rs, checkFiles d config args = .ok rs → ∃ rs', checkFiles d config args' = .ok rs' ∧
      rs.map (FileReport.renamed "") = rs'.map (FileReport.renamed "")) ∧
    (run args).exit = (run args').exit ∧
    (OneSpelling args → expandPatterns d args = expandPatterns d args' ∧ run args = run args') := by
  intro run
  have hread' := readable_of_same hread hsame
  refine ⟨⟨_, _, expandPatterns_of_readable hread, expandPatterns_of_readable hread', components_filesOf hsame⟩,
    fun config rs => checkFiles_of_same hread hsame, check_exit_of_same hread hsame o e format,
    fun hspelling => ⟨?_, check_outcome_of_same hread hsame hspelling o e format⟩⟩
  rw [expandPatterns_of_readable hread, expandPatterns_of_readable hread', filesOf_eq hsame hspelling]

/-- Two files, one of which is given twice. -/
theorem check_arguments_repeated : ∃ d : Disk,
    expandPatterns d ["a.bal", "b.bal"] = .ok [⟨"a.bal"⟩, ⟨"b.bal"⟩] ∧
    (Request.run {} (.check ["a.bal", "b.bal"] .json)).outcome {} d =
      (Request.run {} (.check ["b.bal", "a.bal", "b.bal"] .json)).outcome {} d := by
  let d : Disk := { files := [(["a.bal"], (String.ofList "service on a \x7b\x7d".toList).toUTF8),
    (["b.bal"], (String.ofList "service".toList).toUTF8)] }
  have ha : d.readText ⟨"a.bal"⟩ = .ok "service on a \x7b\x7d".toList :=
    Disk.readText_eq_ok_iff.2 ⟨["a.bal"], _, _, rfl, rfl, Disk.fromUTF8?_toUTF8 _, String.toList_ofList⟩
  have hb : d.readText ⟨"b.bal"⟩ = .ok "service".toList :=
    Disk.readText_eq_ok_iff.2 ⟨["b.bal"], _, _, rfl, rfl, Disk.fromUTF8?_toUTF8 _, String.toList_ofList⟩
  have hread : ∀ a ∈ ["a.bal", "b.bal"], ∃ text, d.readText ⟨a⟩ = .ok text := by
    simp [ha, hb]
  have hsame : ∀ a, a ∈ ["a.bal", "b.bal"] ↔ a ∈ ["b.bal", "a.bal", "b.bal"] := by
    intro a
    simp only [List.mem_cons, List.not_mem_nil, or_false]
    tauto
  have hdiffer : Path.same ⟨"a.bal"⟩ ⟨"b.bal"⟩ = false := by decide +kernel
  have hfiles : filesOf ["a.bal", "b.bal"] = [⟨"a.bal"⟩, ⟨"b.bal"⟩] := by
    rw [filesOf, List.mergeSort_of_pairwise (by decide +kernel)]
    simp [dropRepeats, hdiffer]
  refine ⟨d, by rw [expandPatterns_of_readable hread, hfiles], ?_⟩
  exact ((check_arguments hread hsame {} {} .json).2.2.2 (by decide +kernel)).2

/-- A file that is written in two ways is reported under the name that is given first. -/
theorem check_spelling : ∃ d : Disk, (∀ a ∈ ["d/a.bal", "d//a.bal"], ∃ text, d.readText ⟨a⟩ = .ok text) ∧
    ∀ time, ((Request.run {} (.check ["d/a.bal", "d//a.bal"] .json)).outcome {} d).output time ≠
      ((Request.run {} (.check ["d//a.bal", "d/a.bal"] .json)).outcome {} d).output time := by
  let d : Disk := { files := [(["d", "a.bal"], (String.ofList "service".toList).toUTF8)] }
  have hone : d.readText ⟨"d/a.bal"⟩ = .ok "service".toList :=
    Disk.readText_eq_ok_iff.2 ⟨["d", "a.bal"], _, _, rfl, rfl, Disk.fromUTF8?_toUTF8 _, String.toList_ofList⟩
  have htwo : d.readText ⟨"d//a.bal"⟩ = .ok "service".toList :=
    Disk.readText_eq_ok_iff.2 ⟨["d", "a.bal"], _, _, rfl, rfl, Disk.fromUTF8?_toUTF8 _, String.toList_ofList⟩
  have hread : ∀ a ∈ ["d/a.bal", "d//a.bal"], ∃ text, d.readText ⟨a⟩ = .ok text := by simp [hone, htwo]
  have hread' : ∀ a ∈ ["d//a.bal", "d/a.bal"], ∃ text, d.readText ⟨a⟩ = .ok text := by simp [hone, htwo]
  have hconfig : loadConfig {} d = .ok {} := rfl
  have hfiles : filesOf ["d/a.bal", "d//a.bal"] = [⟨"d/a.bal"⟩] := by
    rw [filesOf, List.mergeSort_of_pairwise (by decide +kernel)]
    simp [dropRepeats, show Path.same ⟨"d/a.bal"⟩ ⟨"d//a.bal"⟩ = true by decide +kernel]
  have hfiles' : filesOf ["d//a.bal", "d/a.bal"] = [⟨"d//a.bal"⟩] := by
    rw [filesOf, List.mergeSort_of_pairwise (by decide +kernel)]
    simp [dropRepeats, show Path.same ⟨"d//a.bal"⟩ ⟨"d/a.bal"⟩ = true by decide +kernel]
  have hreports : reportsOf d {} [⟨"d/a.bal"⟩] = [FileReport.ofText {} "d/a.bal" "service".toList] := by
    rw [reportsOf, List.map_singleton, Disk.textAt_of_readText hone]
    rfl
  have hreports' : reportsOf d {} [⟨"d//a.bal"⟩] = [FileReport.ofText {} "d//a.bal" "service".toList] := by
    rw [reportsOf, List.map_singleton, Disk.textAt_of_readText htwo]
    rfl
  have hprinted : Packages.pretty (reportsJson [FileReport.ofText {} "d/a.bal" "service".toList]) ≠
      Packages.pretty (reportsJson [FileReport.ofText {} "d//a.bal" "service".toList]) := by decide +kernel
  refine ⟨d, hread, fun time => ?_⟩
  rw [check_outcome hread, check_outcome hread', hconfig, hfiles, hfiles']
  simp only [hreports, hreports']
  simpa [Outcome.output, printReports, Piece.render, String.join] using hprinted

end Command

end ServiceLint
