import ServiceLint.Command.Run
import ServiceLint.Proofs.Action.Fixes
import ServiceLint.Proofs.Disk.Write

/-!
# Fixing a file, or leaving it alone

A run that carries out an action goes through loading, parsing and finding the action before it writes, and each
of these may stop it. Once an action is found nothing stops it any more (`fixedText_offered`). So a run has one
of two courses (`fix_course`), which do not depend on whether the text is written or printed, and a file is either
fixed or left as it was (`fix_allOrNothing`).
-/
namespace ServiceLint.Command

/-! ## The action that is found -/

section

variable {file : SourceFile} {config : Config} {p : Position}

/-- Where any action is offered, one of each kind is. -/
theorem exists_find_atPosition [Packages] (h : CodeAction.atPosition file config p ≠ []) (kind : TemplateKind) :
    ∃ a, (CodeAction.atPosition file config p).find? (·.provider.template == kind) = some a := by
  obtain ⟨a, ha⟩ := List.exists_mem_of_ne_nil _ h
  obtain ⟨d, hd, ha⟩ := List.mem_flatMap.1 ha
  have hfix := (CodeAction.mem_forDiagnostic ha).1
  rw [← Option.isSome_iff_exists, List.find?_isSome]
  refine ⟨⟨kind.title, ⟨config.module, kind⟩, [Argument.ofLocation d.location]⟩, ?_, by simp⟩
  refine List.mem_flatMap.2 ⟨d, hd, ?_⟩
  rw [CodeAction.forDiagnostic, if_pos hfix]
  exact List.mem_map.2 ⟨kind, by cases kind <;> simp [TemplateKind.all], rfl⟩

/-- An action that is offered at a position is offered for a diagnostic of the file. -/
theorem exists_diagnostic_of_find [Packages] {kind : TemplateKind} {a : CodeAction}
    (h : (CodeAction.atPosition file config p).find? (·.provider.template == kind) = some a) :
    ∃ d ∈ validate file config, a ∈ CodeAction.forDiagnostic d config.module := by
  obtain ⟨d, hd, ha⟩ := List.mem_flatMap.1 (List.mem_of_find?_eq_some h)
  exact ⟨d, (List.mem_filter.1 hd).1, ha⟩

/-- An action that is offered gives a new text. -/
theorem fixedText_offered [Packages] {name : String} {text : List Char} (hparse : SourceFile.parse name text = .ok file)
    (hsize : Text.size text < UInt32.size) {d : Diagnostic} (hd : d ∈ validate file config) {a : CodeAction}
    (ha : a ∈ CodeAction.forDiagnostic d config.module) : ∃ new, fixedText file config a = .ok new := by
  obtain ⟨b, -, -, hb, -, -, -, -⟩ := mem_validate hd
  obtain ⟨s, hs, hfound⟩ := Binding.exists_service hparse hsize hb hd (CodeAction.mem_forDiagnostic ha).1
  have hexec := Binding.execute_eq_fixEdit hparse hsize hb hs hfound ha
  obtain ⟨hspan, hwell⟩ := Binding.service_fits hparse hb hs
  have hback : (LineIndex.ofText text).span? (b.fixEdit s a.provider.template).location = some s.anchor :=
    Binding.span?_anchor hparse hsize hb hs
  have hle : s.anchor.start ≤ s.anchor.stop := Nat.le_of_lt (Service.anchor_fits hwell hspan).lt
  have happly := TextEdit.apply_eq hback hle
  have htext : file.text = text := by
    obtain ⟨m, -, rfl⟩ := SourceFile.parse_eq_ok hparse
    rfl
  refine ⟨TextEdit.splice text s.anchor (b.fixEdit s a.provider.template).newText.toList, ?_⟩
  simp [fixedText, hexec, htext, happly, Except.mapError, bind, Except.bind]

end

/-! ## Courses of a run -/

/-- What goes wrong in two steps goes wrong in one of them. -/
theorem bind_eq_error {ε α β : Type} {x : Except ε α} {f : α → Except ε β} {err : ε}
    (h : (x >>= f) = .error err) : x = .error err ∨ ∃ a, x = .ok a ∧ f a = .error err := by
  cases x with
  | error e =>
    obtain rfl : e = err := Except.error.inj h
    exact Or.inl rfl
  | ok a => exact Or.inr ⟨a, rfl, h⟩

/-- Whatever is wrong with the configuration is a configuration error. -/
theorem loadConfig_error [Packages] {o : Options} {d : Disk} {f : Failure} (h : loadConfig o d = .error f) :
    f.exit = .configError := by
  unfold loadConfig at h
  split at h
  · next path _ =>
    rcases bind_eq_error h with h | ⟨config, -, h⟩
    · cases hload : Config.load d path with
      | error e =>
        rw [hload] at h
        cases h
        rfl
      | ok config =>
        rw [hload] at h
        cases h
    · dsimp only at h
      split at h
      · cases h
        rfl
      · cases h
  · rcases bind_eq_error h with h | ⟨config, -, h⟩
    · cases h
    · dsimp only at h
      split at h
      · cases h
        rfl
      · cases h

theorem readSource_eq {d : Disk} {path : Path} {text : List Char} (h : d.readText path = .ok text) :
    readSource d path = (SourceFile.parse path.text text).mapError (.unparsable path) := by
  simp [readSource, h, Except.mapError, bind, Except.bind]

/-- The position of a target, which counts from one. -/
theorem Target.position_eq (t : Target) :
    t.position = if 1 ≤ t.line ∧ 1 ≤ t.column then .ok ⟨t.line - 1, t.column - 1⟩ else .error .notOneBased := by
  have hone (w : UInt32) : 1 ≤ w ↔ w ≠ 0 := by
    rw [UInt32.le_iff_toNat_le, Ne, ← UInt32.toNat_inj]
    show 1 ≤ w.toNat ↔ ¬ w.toNat = 0
    omega
  by_cases hline : t.line = 0 <;> by_cases hcolumn : t.column = 0 <;>
    simp [Target.position, hone, hline, hcolumn]

/-- What it takes for a target to be fixed: a configuration, a file that is parsed, and an action that is
offered at the position. -/
def Fixable [Packages] (o : Options) (d : Disk) (t : Target) (text : List Char) : Prop :=
  ∃ config file, loadConfig o d = .ok config ∧ SourceFile.parse t.file.text text = .ok file ∧
    1 ≤ t.line ∧ 1 ≤ t.column ∧ CodeAction.atPosition file config ⟨t.line - 1, t.column - 1⟩ ≠ []

theorem Failure.exit_ne_success (f : Failure) : f.exit ≠ .success := by
  cases f <;> exact Exit.noConfusion

/-- What a run comes to, in which the new text is printed only (`true`) or written (`false`). -/
inductive Course [Packages] (o : Options) (d : Disk) (t : Target) (text : List Char) (run : Bool → Outcome) : Prop where
  /-- Something is wrong, or there is nothing to fix. -/
  | left (outcome : Outcome) (hrun : ∀ dryRun, run dryRun = outcome) (hexit : outcome.exit ≠ .success)
      (haction : outcome.exit ≠ .actionError) (hwritten : outcome.written = none) (hfix : ¬ Fixable o d t text)
  /-- The new text is printed or written. -/
  | fixed (new : List Char) (hdry : run true = .print .success (String.ofList new))
      (hexit : (run false).exit = .success) (hwritten : (run false).written = some (t.file, new))
      (hfix : Fixable o d t text)

section

variable {o : Options} {d : Disk} {t : Target} {text : List Char}

/-- With a configuration, a file and a position, a run looks for the action and carries it out. -/
theorem runFix_eq [Packages] {styled : Bool} {kind : TemplateKind} {config : Config} {file : SourceFile} {p : Position}
    (hconfig : loadConfig o d = .ok config) (hfile : readSource d t.file = .ok file)
    (hposition : t.position = .ok p) (dryRun : Bool) :
    runFix o styled d t kind dryRun =
      match (CodeAction.atPosition file config p).find? (·.provider.template == kind) with
      | none => .ok (nothingToFix o styled t)
      | some a => (fixedText file config a).map fun new =>
        if dryRun then .print .success (String.ofList new) else fixWritten o styled t a new := by
  unfold runFix
  rw [hconfig, hfile, hposition]
  show (match (CodeAction.atPosition file config p).find? (·.provider.template == kind) with
    | none => _
    | some a => _) = _
  split
  · rfl
  · next a _ => cases fixedText file config a <;> cases dryRun <;> rfl

/-- A run that fails before it looks for an action leaves the file alone. -/
theorem Course.of_error [Packages] {e : Environment} {withoutCaller : Bool} {f : Failure}
    (hrun : ∀ styled kind dryRun, runFix o styled d t kind dryRun = .error f) (haction : f.exit ≠ .actionError)
    (hfix : ¬ Fixable o d t text) :
    Course o d t text fun dryRun => (Request.run o (.fix t withoutCaller dryRun)).outcome e d := by
  refine .left (f.outcome (o.isStyled e)) (fun dryRun => ?_) f.exit_ne_success haction rfl hfix
  simp only [Request.outcome, Task.run, hrun]

theorem fixable_iff [Packages] {config : Config} {file : SourceFile} (hconfig : loadConfig o d = .ok config)
    (hparse : SourceFile.parse t.file.text text = .ok file) :
    Fixable o d t text ↔ 1 ≤ t.line ∧ 1 ≤ t.column ∧
      CodeAction.atPosition file config ⟨t.line - 1, t.column - 1⟩ ≠ [] := by
  constructor
  · rintro ⟨config', file', hload, hfile, hplace⟩
    obtain rfl := Except.ok.inj (hconfig.symm.trans hload)
    obtain rfl := Except.ok.inj (hparse.symm.trans hfile)
    exact hplace
  · intro hplace
    exact ⟨config, file, hconfig, hparse, hplace⟩

/-- A run that gets to look for an action leaves the file alone or fixes it. -/
theorem fix_course_at [Packages] {config : Config} {file : SourceFile} (hconfig : loadConfig o d = .ok config)
    (hfile : readSource d t.file = .ok file) (hparse : SourceFile.parse t.file.text text = .ok file)
    (hsize : Text.size text < UInt32.size) (hone : 1 ≤ t.line ∧ 1 ≤ t.column) (e : Environment)
    (withoutCaller : Bool) :
    Course o d t text fun dryRun => (Request.run o (.fix t withoutCaller dryRun)).outcome e d := by
  have hposition : t.position = .ok ⟨t.line - 1, t.column - 1⟩ := by rw [t.position_eq, if_pos hone]
  have hfixable := fixable_iff hconfig hparse
  obtain ⟨kind, hkind⟩ : ∃ kind, (if withoutCaller then TemplateKind.withoutCaller else .withCaller) = kind :=
    ⟨_, rfl⟩
  cases hfind : (CodeAction.atPosition file config ⟨t.line - 1, t.column - 1⟩).find?
      (·.provider.template == kind) with
  | none =>
    refine .left (nothingToFix o (o.isStyled e) t) (fun dryRun => ?_) Exit.noConfusion Exit.noConfusion rfl ?_
    · simp only [Request.outcome, Task.run, hkind, runFix_eq hconfig hfile hposition, hfind]
    · rw [hfixable]
      rintro ⟨-, -, hsome⟩
      obtain ⟨a, ha⟩ := exists_find_atPosition hsome kind
      rw [hfind] at ha
      cases ha
  | some a =>
    obtain ⟨diag, hd, ha⟩ := exists_diagnostic_of_find hfind
    obtain ⟨new, hnew⟩ := fixedText_offered hparse hsize hd ha
    have hsome := List.ne_nil_of_mem (List.mem_of_find?_eq_some hfind)
    have hrun (dryRun : Bool) : (Request.run o (.fix t withoutCaller dryRun)).outcome e d =
        if dryRun then .print .success (String.ofList new) else fixWritten o (o.isStyled e) t a new := by
      simp only [Request.outcome, Task.run, hkind, runFix_eq hconfig hfile hposition, hfind, hnew, Except.map]
    exact .fixed new (hrun true) (by rw [hrun]; rfl) (by rw [hrun]; rfl)
      (hfixable.2 ⟨hone.1, hone.2, hsome⟩)

theorem fix_course [Packages] (hread : d.readText t.file = .ok text) (hsize : Text.size text < UInt32.size)
    (e : Environment) (withoutCaller : Bool) :
    Course o d t text fun dryRun => (Request.run o (.fix t withoutCaller dryRun)).outcome e d := by
  cases hconfig : loadConfig o d with
  | error f =>
    refine .of_error (f := f) (fun _ _ _ => ?_) (by rw [loadConfig_error hconfig]; decide) ?_
    · rw [runFix, hconfig]
      rfl
    · rintro ⟨config, -, hload, -⟩
      rw [hconfig] at hload
      cases hload
  | ok config =>
    cases hparse : SourceFile.parse t.file.text text with
    | error err =>
      refine .of_error (f := .unparsable t.file err) (fun _ _ _ => ?_) Exit.noConfusion ?_
      · rw [runFix, hconfig, readSource_eq hread, hparse]
        rfl
      · rintro ⟨-, file, -, hfile, -⟩
        rw [hparse] at hfile
        cases hfile
    | ok file =>
      have hfile : readSource d t.file = .ok file := by
        rw [readSource_eq hread, hparse]
        rfl
      by_cases hone : 1 ≤ t.line ∧ 1 ≤ t.column
      · exact fix_course_at hconfig hfile hparse hsize hone e withoutCaller
      · refine .of_error (f := .notOneBased) (fun _ _ _ => ?_) Exit.noConfusion ?_
        · rw [runFix, hconfig, hfile, t.position_eq, if_neg hone]
          rfl
        · rw [fixable_iff hconfig hparse]
          exact fun h => hone ⟨h.1, h.2.1⟩

end

/-! ## The disk after a run -/

/-- The disk after a run. -/
def Outcome.leaves (o : Outcome) (d : Disk) : Disk :=
  match o.written with
  | none => d
  | some (path, text) => d.write path text

/-- Writing is the last thing that can go wrong: a run succeeds exactly when its outcome does and the file that it
writes, if there is one, can be written. -/
theorem Outcome.saved_exit (styled : Bool) (o : Outcome) (result : Except String Unit) :
    (o.saved styled result).exit = .success ↔ o.exit = .success ∧ (o.written = none ∨ result = .ok ()) := by
  cases hwritten : o.written with
  | none => simp [Outcome.saved, hwritten]
  | some file => cases result with
    | ok => simp [Outcome.saved]
    | error reason => simp [Outcome.saved, hwritten, Failure.outcome, Failure.exit]

/-- A run that cannot write its file leaves the disk alone. -/
theorem Outcome.saved_leaves (styled : Bool) (o : Outcome) (reason : String) (d : Disk) :
    (o.saved styled (.error reason)).leaves d = d := by
  cases hwritten : o.written with
  | none => simp [Outcome.saved, Outcome.leaves, hwritten]
  | some file => simp [Outcome.saved, Outcome.leaves, hwritten, Failure.outcome]

/-- **A file is fixed or left alone.** On a file that can be read, carrying out an action never fails for a reason
of its own; it succeeds exactly when the target can be fixed; the disk changes only when it succeeds and is not
asked to print; and what it prints then is what it writes otherwise. -/
theorem fix_allOrNothing [Packages] {d : Disk} {t : Target} {text : List Char} (hread : d.readText t.file = .ok text)
    (hsize : Text.size text < UInt32.size) (o : Options) (e : Environment) (withoutCaller : Bool) :
    let run dryRun := (Request.run o (.fix t withoutCaller dryRun)).outcome e d
    (∀ dryRun, (run dryRun).exit ≠ .actionError) ∧
    (∀ dryRun, (run dryRun).exit = .success ↔ Fixable o d t text) ∧
    (∀ dryRun, (run dryRun).leaves d ≠ d → (run dryRun).exit = .success ∧ dryRun = false) ∧
    ((run true).exit = .success → ∃ new, (∀ time, (run true).output time = String.ofList new) ∧
      (run false).written = some (t.file, new) ∧ ((run false).leaves d).readText t.file = .ok new) := by
  intro run
  cases fix_course (o := o) hread hsize e withoutCaller with
  | left outcome hrun hexit haction hwritten hfix =>
    have hleaves : outcome.leaves d = d := by rw [Outcome.leaves, hwritten]
    refine ⟨fun dryRun => ?_, fun dryRun => ?_, fun dryRun hchanged => ?_, fun hsuccess => ?_⟩
    · exact (congrArg Outcome.exit (hrun dryRun)).trans_ne haction
    · exact iff_of_false ((congrArg Outcome.exit (hrun dryRun)).trans_ne hexit) hfix
    · exact absurd ((congrArg (Outcome.leaves · d) (hrun dryRun)).trans hleaves) hchanged
    · exact absurd hsuccess ((congrArg Outcome.exit (hrun true)).trans_ne hexit)
  | fixed new hdry hexit hwritten hfix =>
    have hsuccess (dryRun : Bool) : (run dryRun).exit = .success := by
      cases dryRun with
      | true => exact congrArg Outcome.exit hdry
      | false => exact hexit
    refine ⟨fun dryRun => ?_, fun dryRun => iff_of_true (hsuccess dryRun) hfix, fun dryRun hchanged => ?_,
      fun _ => ?_⟩
    · rw [hsuccess dryRun]
      exact Exit.noConfusion
    · refine ⟨hsuccess dryRun, ?_⟩
      cases dryRun with
      | true => exact absurd (congrArg (Outcome.leaves · d) hdry) hchanged
      | false => rfl
    · refine ⟨new, fun time => ?_, hwritten, ?_⟩
      · have houtput : (run true).output time = (Outcome.print .success (String.ofList new)).output time :=
          congrArg (Outcome.output · time) hdry
        rw [houtput]
        simp [Outcome.output, Outcome.print, Piece.render, String.join]
      · have hleaves : (run false).leaves d = d.write t.file new := by rw [Outcome.leaves, hwritten]
        rw [hleaves]
        exact Disk.readText_write new hread

/-- An empty service in the second line of the only file on a disk. -/
theorem fix_allOrNothing_empty : ∃ (d : Disk) (text new : List Char),
    d.readText ⟨"m.bal"⟩ = .ok text ∧ Fixable {} d ⟨⟨"m.bal"⟩, 2, 1⟩ text ∧
    (∀ time, ((Request.run {} (.fix ⟨⟨"m.bal"⟩, 2, 1⟩ false true)).outcome {} d).output time = String.ofList new) ∧
    (((Request.run {} (.fix ⟨⟨"m.bal"⟩, 2, 1⟩ false false)).outcome {} d).leaves d).readText ⟨"m.bal"⟩ =
      .ok new := by
  let text := "import ballerina/mqtt;\nservice on new mqtt:Listener(1) \x7b\x7d".toList
  let d : Disk := { files := [(["m.bal"], (String.ofList text).toUTF8)] }
  have hread : d.readText ⟨"m.bal"⟩ = .ok text :=
    Disk.readText_eq_ok_iff.2 ⟨["m.bal"], _, _, rfl, rfl, Disk.fromUTF8?_toUTF8 _, String.toList_ofList⟩
  have hconfig : loadConfig {} d = .ok {} := rfl
  have hcheck : (SourceFile.parse "m.bal" text).toOption.map (fun file =>
      (CodeAction.atPosition file {} ⟨1, 0⟩).isEmpty) = some false := by decide +kernel
  have hfix : Fixable {} d ⟨⟨"m.bal"⟩, 2, 1⟩ text := by
    cases hparse : SourceFile.parse "m.bal" text with
    | error err =>
      rw [hparse] at hcheck
      cases hcheck
    | ok file =>
      rw [hparse] at hcheck
      have hsome : (CodeAction.atPosition file {} ⟨1, 0⟩).isEmpty = false := Option.some.inj hcheck
      exact ⟨{}, file, hconfig, hparse, by decide, by decide, List.isEmpty_eq_false_iff.1 hsome⟩
  obtain ⟨-, hsuccess, -, hsame⟩ :=
    fix_allOrNothing (t := ⟨⟨"m.bal"⟩, 2, 1⟩) hread (by decide +kernel) {} {} false
  obtain ⟨new, hprinted, -, hsaved⟩ := hsame ((hsuccess true).2 hfix)
  exact ⟨d, text, new, hread, hfix, hprinted, hsaved⟩

end ServiceLint.Command
