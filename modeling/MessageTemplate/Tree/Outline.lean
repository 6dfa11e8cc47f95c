/-
The outline of a template, and the report of its unknown placeholders.

The outline has one line per node, in the order of `Template.walk`.  The report lists the
placeholders that nobody offers a value for, and is gathered in one pass over the names in the
order in which they are written.  `Reported` is the invariant of that pass: of the names it has
seen, exactly those that are not known have been reported, and the reported ones stand in the order
of their first appearances.  `Reported.concat` keeps it for one more name, and `Template.reported`
is what a whole pass comes to.
-/
import MessageTemplate.Tree.Walk
import MessageTemplate.Render.Message
import MessageTemplate.Text.Classes

set_option autoImplicit false

namespace MessageTemplate

/-! ## Lines -/

/-- The line of a node inside `depth` conditionals: its address and the word of its kind, and for a
text its fingerprint and the text itself as `Text.quoted` writes it. -/
def Node.outlineLine (depth : Nat) (n : Node) : String :=
  let indent := String.ofList (List.replicate (2 * depth) ' ')
  let line := indent ++ n.address.text ++ " " ++ n.kind.word
  match n with
  | .text _ f s => line ++ " " ++ f.text ++ " " ++ Text.quoted s
  | .conditional _ _ _ _ => line

namespace Template

/-- The lines of a template, in the order of its nodes in `Template.walk`. -/
def outline (t : Template) : List String :=
  t.walk.map fun (depth, n) => n.outlineLine depth

/-! ## Placeholders -/

/-- The names of all `placeholders` of its `texts`, in the order in which they are written, those in
conditions and in branches that are not shown among them.  A name may occur more than once. -/
def placeholderNames (t : Template) : List String :=
  t.texts.flatMap placeholders

/-- The placeholders whose names are not among the known ones, each once, in order of first
appearance.  The pass keeps what has been found so far, and `Reported` says what that is. -/
def unknownPlaceholders (t : Template) (known : List String) : List String :=
  t.placeholderNames.foldl
    (fun found name => if name ∈ known ∨ name ∈ found then found else found ++ [name]) []

end Template

/-! ## Gathering the report -/

/-- What has been `found` of some names for a report: those that are not known, each at its first
appearance.  That the reported names stand in order is said by their first positions among the
names, which makes each of them occur once as well. -/
structure Reported (known names found : List String) : Prop where
  mem_iff : ∀ name, name ∈ found ↔ name ∈ names ∧ name ∉ known
  ordered : found.Pairwise fun first later => names.idxOf first < names.idxOf later

namespace Reported

variable {known names found : List String}

/-- Before the pass of `unknownPlaceholders` no name has been seen and none has been reported. -/
theorem nil (known : List String) : Reported known [] [] :=
  ⟨fun name => by simp, List.Pairwise.nil⟩

/-- No name is reported twice, because the names are in strict order of their first positions
(`ordered`). -/
theorem nodup (h : Reported known names found) : found.Nodup := by
  refine h.ordered.imp ?_
  rintro first later hlt rfl
  exact Nat.lt_irrefl _ hlt

/-- What comes later does not change where a name appears first: each reported name has been seen,
so `List.idxOf` finds it before the new one. -/
theorem ordered_concat (h : Reported known names found) (name : String) :
    found.Pairwise fun first later =>
      (names ++ [name]).idxOf first < (names ++ [name]).idxOf later := by
  refine h.ordered.imp_of_mem fun {first later} hfirst hlater hlt => ?_
  rw [List.idxOf_append, List.idxOf_append, if_pos ((h.mem_iff first).mp hfirst).1,
    if_pos ((h.mem_iff later).mp hlater).1]
  exact hlt

/-- One more name is reported, unless it is known or has been reported.  This is the step of the
pass, and the invariant `Reported` is kept in either case. -/
theorem concat (h : Reported known names found) (name : String) :
    Reported known (names ++ [name])
      (if name ∈ known ∨ name ∈ found then found else found ++ [name]) := by
  by_cases hold : name ∈ known ∨ name ∈ found
  · rw [if_pos hold]
    refine ⟨fun other => ?_, h.ordered_concat name⟩
    rw [h.mem_iff, List.mem_append, List.mem_singleton]
    constructor
    · rintro ⟨hmem, hunknown⟩
      exact ⟨.inl hmem, hunknown⟩
    · rintro ⟨hmem | rfl, hunknown⟩
      · exact ⟨hmem, hunknown⟩
      · exact (h.mem_iff other).mp (hold.resolve_left hunknown)
  · rw [if_neg hold]
    rw [not_or] at hold
    obtain ⟨hunknown, hnew⟩ := hold
    -- A name that is not known and has not been reported has not been seen at all (`mem_iff`).
    have hunseen : name ∉ names := fun hmem => hnew ((h.mem_iff name).mpr ⟨hmem, hunknown⟩)
    refine ⟨fun other => ?_, ?_⟩
    · rw [List.mem_append, List.mem_append, List.mem_singleton, h.mem_iff]
      constructor
      · rintro (⟨hmem, hother⟩ | rfl)
        · exact ⟨.inl hmem, hother⟩
        · exact ⟨.inr rfl, hunknown⟩
      · rintro ⟨hmem | rfl, hother⟩
        · exact .inl ⟨hmem, hother⟩
        · exact .inr rfl
    · rw [List.pairwise_append]
      refine ⟨h.ordered_concat name, List.pairwise_singleton _ _, ?_⟩
      intro first hfirst later hlater
      obtain rfl := List.mem_singleton.mp hlater
      have hseen : first ∈ names := ((h.mem_iff first).mp hfirst).1
      have hlt : names.idxOf first < names.length := List.idxOf_lt_length_iff.mpr hseen
      rw [List.idxOf_append, List.idxOf_append, if_pos hseen, if_neg hunseen]
      omega

/-- The whole pass over the names that are still to come, by induction on them with
`Reported.concat` at each. -/
theorem foldl (more : List String) : ∀ {names found : List String}, Reported known names found →
    Reported known (names ++ more)
      (more.foldl (fun found name => if name ∈ known ∨ name ∈ found then found else found ++ [name])
        found) := by
  induction more with
  | nil =>
    intro names found h
    rw [List.append_nil]
    exact h
  | cons name rest ih =>
    intro names found h
    rw [List.append_cons]
    exact ih (h.concat name)

end Reported

namespace Template

/-- What the report of a template comes to: `Reported` of all its placeholders' names. -/
theorem reported (t : Template) (known : List String) :
    Reported known t.placeholderNames (t.unknownPlaceholders known) :=
  (Reported.nil known).foldl t.placeholderNames

/-- The names of a template are those in the texts that stand anywhere in its `walk`. -/
theorem mem_placeholderNames {t : Template} {name : String} :
    name ∈ t.placeholderNames ↔
      ∃ v ∈ t.walk, ∃ s, v.2.text? = some s ∧ name ∈ placeholders s := by
  rw [placeholderNames, List.mem_flatMap]
  constructor
  · rintro ⟨s, hs, hname⟩
    obtain ⟨v, hv, htext⟩ := List.mem_filterMap.mp hs
    exact ⟨v, hv, s, htext, hname⟩
  · rintro ⟨v, hv, s, htext, hname⟩
    exact ⟨s, List.mem_filterMap.mpr ⟨v, hv, htext⟩, hname⟩

/-- The names of a template are those in the texts at some site of its tree, by
`walk_eq_map_visits`; in this form it does not speak of any walk. -/
theorem mem_placeholderNames_iff_site {t : Template} {name : String} :
    name ∈ t.placeholderNames ↔
      ∃ (s : Site) (n : Node) (text : String), (s.siblings t.nodes)[s.index]? = some n ∧
        n.text? = some text ∧ name ∈ placeholders text := by
  rw [mem_placeholderNames, walk_eq_map_visits]
  constructor
  · rintro ⟨v, hv, text, htext, hname⟩
    obtain ⟨⟨s, n⟩, hvisit, rfl⟩ := List.mem_map.mp hv
    exact ⟨s, n, text, mem_visits.mp hvisit, htext, hname⟩
  · rintro ⟨s, n, text, hn, htext, hname⟩
    exact ⟨_, List.mem_map.mpr ⟨(s, n), mem_visits.mpr hn, rfl⟩, text, htext, hname⟩

end Template

end MessageTemplate
