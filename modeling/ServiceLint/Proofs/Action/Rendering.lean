import ServiceLint.Proofs.Action.Handler

/-!
# Rendering is uniform

Where a template goes decides two things about its text: how far the lines are indented and what ends them.
Neither changes anything else (`Placement.render_uniform`). Both parts come from the lines before they are
put together: none of them holds a line feed, so that the rendered text falls into the same lines again
(`Placement.splitAll_render`).
-/
namespace ServiceLint

namespace Text

variable {c : Char} {cs line : List Char} {parts : List (List Char)}

/-! ## Lines taken apart and put together -/

theorem notMem_of_mem_splitAll (h : line ∈ splitAll c cs) : c ∉ line := by
  induction cs generalizing line with
  | nil => simp_all [splitAll]
  | cons d ds ih =>
    unfold splitAll at h
    split at h
    · rcases List.mem_cons.1 h with rfl | hmem
      · exact List.not_mem_nil
      · exact ih hmem
    · next hd =>
      obtain ⟨part, parts, hparts⟩ := List.exists_cons_of_ne_nil (splitAll_ne_nil c ds)
      simp only [hparts, List.mem_cons] at h ih
      rcases h with rfl | hmem
      · simpa [Ne.symm hd] using ih (Or.inl rfl)
      · exact ih (Or.inr hmem)

theorem feed_notMem_of_mem_lines (h : line ∈ lines cs) : '\n' ∉ line := by
  obtain ⟨front, last, hsplit⟩ := (List.eq_nil_or_concat' (splitAll '\n' cs)).resolve_left
    (splitAll_ne_nil '\n' cs)
  have hparts : ∀ part ∈ front ++ [last], '\n' ∉ part := fun part hpart =>
    notMem_of_mem_splitAll (hsplit ▸ hpart)
  simp only [lines, hsplit, List.reverse_concat, List.reverse_reverse, List.mem_append, List.mem_map] at h
  rcases h with ⟨part, hpart, rfl⟩ | hlast
  · have hdrop := dropReturn_prefix part
    exact fun hmem => hparts part (by simp [hpart]) (hdrop.subset hmem)
  · obtain rfl : line = last := by
      split at hlast
      · cases hlast
      · exact List.mem_singleton.1 hlast
    exact hparts line (by simp)

/-- Parts put together with `c` between them are what the text falls into. -/
theorem splitAll_intercalate (hne : parts ≠ []) (h : ∀ part ∈ parts, c ∉ part) :
    splitAll c ([c].intercalate parts) = parts := by
  induction parts with
  | nil => exact absurd rfl hne
  | cons part rest ih =>
    obtain ⟨hpart, hrest⟩ := List.forall_mem_cons.1 h
    cases rest with
    | nil => rw [List.intercalate_singleton, splitAll_of_notMem hpart]
    | cons next rest =>
      rw [List.intercalate_cons_cons, List.append_assoc, List.singleton_append, splitAll_append hpart,
        ih (List.cons_ne_nil _ _) hrest]

/-- `k` spaces put in front of every line that is not empty. -/
def shift (k : Nat) (cs : List Char) : List Char :=
  ['\n'].intercalate ((splitAll '\n' cs).map fun line => if line = [] then [] else Placement.spaces k ++ line)

end Text

/-- The lines of a template's text with the module's name in place of the mark. -/
def Template.namedLines (q : String) (body : List Char) : List (List Char) :=
  Text.lines (Text.replace mark q.toList body)

namespace Placement

variable {p : Placement} {line : List Char}

/-! ## One line -/

theorem indentLine_eq_nil_iff : p.indentLine line = [] ↔ ∀ c ∈ line, c = ' ' := by
  rw [indentLine]
  split
  · next hdrop => simpa using List.dropWhile_eq_nil_iff.1 hdrop
  · next hne =>
    refine iff_of_false (fun hnil => hne (List.append_eq_nil_iff.1 hnil).2) fun hall => hne ?_
    exact List.dropWhile_eq_nil_iff.2 (by simpa using hall)

theorem feed_notMem_indentLine (h : '\n' ∉ line) : '\n' ∉ p.indentLine line := by
  rw [indentLine]
  split
  · exact List.not_mem_nil
  · refine List.not_mem_append (fun hmem => absurd (List.eq_of_mem_replicate hmem) (by decide)) ?_
    exact fun hmem => h ((List.dropWhile_suffix _).subset hmem)

/-- A line at a column further to the right, unless it is empty there too. -/
theorem indentLine_base (k : Nat) :
    ({ p with base := p.base + k }).indentLine line =
      if p.indentLine line = [] then [] else spaces k ++ p.indentLine line := by
  split
  · next hnil => exact indentLine_eq_nil_iff.2 (indentLine_eq_nil_iff.1 hnil)
  · next hne =>
    unfold indentLine at hne ⊢
    split
    · simp_all
    · simp only [spaces, ← List.append_assoc, List.replicate_append_replicate]
      congr 2
      omega

/-! ## The whole text -/

theorem render_eq (body : List Char) :
    p.render body = p.lineEnding.intercalate ((Template.namedLines p.qualifier body).map p.indentLine) := rfl

theorem feed_notMem_lines (body : List Char) :
    ∀ line ∈ (Template.namedLines p.qualifier body).map p.indentLine, '\n' ∉ line := by
  intro line hline
  obtain ⟨named, hnamed, rfl⟩ := List.mem_map.1 hline
  exact feed_notMem_indentLine (Text.feed_notMem_of_mem_lines hnamed)

/-- The rendered text falls into the indented lines. -/
theorem splitAll_render {body : List Char} (hending : p.lineEnding = ['\n'])
    (hne : Template.namedLines p.qualifier body ≠ []) :
    Text.splitAll '\n' (p.render body) = (Template.namedLines p.qualifier body).map p.indentLine := by
  rw [render_eq, hending, Text.splitAll_intercalate (by simpa using hne) (feed_notMem_lines body)]

/-- A template without lines is rendered as nothing. -/
theorem render_of_namedLines_nil {body : List Char} (h : Template.namedLines p.qualifier body = []) :
    p.render body = [] := by
  rw [render_eq, h]
  rfl

theorem render_base (hending : p.lineEnding = ['\n']) (k : Nat) (body : List Char) :
    ({ p with base := p.base + k }).render body = Text.shift k (p.render body) := by
  let moved : Placement := { p with base := p.base + k }
  by_cases hnil : Template.namedLines p.qualifier body = []
  · have hmoved : moved.render body = [] := render_of_namedLines_nil hnil
    rw [hmoved, render_of_namedLines_nil hnil]
    rfl
  · rw [Text.shift, splitAll_render hending hnil, List.map_map, render_eq, hending]
    exact congrArg _ (List.map_congr_left fun line _ => indentLine_base k)

/-- What is rendered with carriage returns is what is rendered without them, each line feed having got
one. Further to the right, each line that is not empty has that many spaces more before it, and the empty
ones are at every column those that hold nothing but spaces in the template. -/
theorem render_uniform (q : String) (base unit k : Nat) (body : List Char) :
    (⟨q, base, unit, ['\r', '\n']⟩ : Placement).render body =
        Text.replace ['\n'] ['\r', '\n'] ((⟨q, base, unit, ['\n']⟩ : Placement).render body) ∧
      (⟨q, base + k, unit, ['\n']⟩ : Placement).render body =
        Text.shift k ((⟨q, base, unit, ['\n']⟩ : Placement).render body) ∧
      ∀ (i : Nat) (line : List Char), (Template.namedLines q body)[i]? = some line →
        ((Text.splitAll '\n' ((⟨q, base + k, unit, ['\n']⟩ : Placement).render body))[i]? = some [] ↔
          ∀ c ∈ line, c = ' ') := by
  have hfree := feed_notMem_lines (p := ⟨q, base, unit, ['\n']⟩) body
  refine ⟨(Text.replace_intercalate _ hfree).symm, ?_, fun i line hline => ?_⟩
  · exact render_base (p := ⟨q, base, unit, ['\n']⟩) rfl k body
  · have hne : Template.namedLines q body ≠ [] := List.ne_nil_of_mem (List.mem_of_getElem? hline)
    have hsplit := splitAll_render (p := ⟨q, base + k, unit, ['\n']⟩) rfl hne
    rw [hsplit, List.getElem?_map, hline, Option.map_some, Option.some_inj, indentLine_eq_nil_iff]

/-- The blank line stays empty, and what ended the template's lines is gone. -/
example :
    (⟨"m", 2, 2, ['\r', '\n']⟩ : Placement).render "f($\x7bprefix\x7d) \x7b\n \r\n    g();\n\x7d\n".toList =
      "  f(m) \x7b\r\n\r\n    g();\r\n  \x7d".toList := by
  decide +kernel

end Placement

end ServiceLint
