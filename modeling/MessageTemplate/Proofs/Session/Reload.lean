/-
Whether what a document saves can be loaded again.

A document saves the stored form of its template, and nothing keeps a template from growing deeper
than a reader of that form goes.  Building a template fills empty branches, which puts a text one
conditional deeper than anything that was written, and splitting a text does the same.  So the saved
text is good exactly when no text of the template stands inside more than sixty-two conditionals
(`Template.Storable`), however the template came about; beyond that the saved text is refused, and a
document that was read without complaint can save what will never be read.

The reader and the printer have been compared before, in `Template.parse_source`; what is left here
is that opening a document asks nothing else of its source.
-/
import MessageTemplate.Proofs.Session.Reachable
import MessageTemplate.Proofs.Tree.Stored

set_option autoImplicit false

namespace MessageTemplate

open Json

namespace Document

/-! ## Edits in a row -/

/-- A document that edits lead to, every one of them accepted by `apply`. -/
inductive Accepts : Document → List Edit → Document → Prop
  | none {d : Document} : Accepts d [] d
  | next {d d' d'' : Document} {e : Edit} {rest : List Edit} {change : Change} :
    d.apply e = (.ok change, d') → Accepts d' rest d'' → Accepts d (e :: rest) d''

/-- `apply` keeps the template of a document well formed, be the edit accepted or refused. -/
theorem apply_wellFormed {d : Document} (h : d.template.WellFormed) (e : Edit) :
    (d.apply e).2.template.WellFormed := by
  rcases d.template_apply e with hold | ⟨e', edited, he, hnew⟩
  · rw [hold]
    exact h
  · rw [hnew]
    exact Edit.apply_wellFormed h he

/-- So does any number of edits.  The induction is on `Accepts`. -/
theorem Accepts.wellFormed {d d' : Document} {edits : List Edit} (h : Accepts d edits d') :
    d.template.WellFormed → d'.template.WellFormed := by
  induction h with
  | none => exact fun hd => hd
  | @next d _ _ e _ _ hstep _ ih =>
    intro hd
    have hnext := apply_wellFormed hd e
    rw [hstep] at hnext
    exact ih hnext

/-! ## Reading what was saved -/

/-- A source that is an array or an object starts with a bracket, so it is never `Text.allBlank`,
which would stand for the blank template. -/
theorem not_allBlank {v : Value} {source : String} (h : Spelled v source.toList)
    (hv : v.depth ≠ 0) : ¬ Text.allBlank source = true := by
  rw [Text.allBlank]
  generalize source.toList = text at h ⊢
  cases h with
  | array _ => exact Bool.false_ne_true
  | object _ => exact Bool.false_ne_true
  | _ => exact absurd rfl hv

theorem allBlank_compact (forest : List Content) :
    ¬ Text.allBlank (Value.array (Content.forestToJson forest)).compact = true :=
  not_allBlank (Value.compact_spelled (Content.forestToJson_integral forest)) (Nat.succ_ne_zero _)

/-- A stored forest that fits into the `nestingLimit` opens as the document of that forest, whatever
becomes of it when its template is built. -/
theorem ofSource_compact {forest : List Content}
    (h : (Value.array (Content.forestToJson forest)).depth ≤ nestingLimit) :
    ofSource (Value.array (Content.forestToJson forest)).compact = .ok (ofContents forest) := by
  have hintegral : (Value.array (Content.forestToJson forest)).Integral :=
    Content.forestToJson_integral forest
  have hparse := Content.parse_holds (holds_compact hintegral)
  rw [if_pos h] at hparse
  rw [ofSource, templateOfSource, if_neg (allBlank_compact forest), Template.parse, hparse]
  rfl

/-- What a document of a well-formed template saves opens as that document if the template is
`Storable`, and is refused as JSON (`badToken`) if not. -/
theorem ofSource_source {t : Template} (h : t.WellFormed) :
    (t.Storable → ofSource t.source = .ok (ofTemplate t)) ∧
      (¬ t.Storable → ofSource t.source = .error (.badSource .badToken)) := by
  have hblank : ¬ Text.allBlank t.source = true := allBlank_compact t.contents
  rw [ofSource, templateOfSource, if_neg hblank]
  obtain ⟨hgood, hdeep⟩ := Template.parse_source h
  constructor
  · intro hstorable
    rw [hgood hstorable]
    rfl
  · intro hstorable
    rw [hdeep hstorable]
    rfl

/-- `templateOfSource` of a file that was written with indentation. -/
theorem templateOfSource_indentedSource {t : Template} (h : t.WellFormed)
    (hstorable : t.Storable) : templateOfSource t.indentedSource = .ok t := by
  have hblank : ¬ Text.allBlank t.indentedSource = true :=
    not_allBlank (Value.indented_spelled t.contents_integral) (Nat.succ_ne_zero _)
  rw [templateOfSource, if_neg hblank, (Template.parse_indentedSource h).1 hstorable]
  rfl

/-- A source that just fits into the brackets of the reader.  Building its template
fills the innermost branches, and what a document then saves no longer fits. -/
theorem reload_hollow :
    ∃ (source : String) (d : Document),
      source = (Value.array (Content.forestToJson [.inside 62 (.conditional [] [] [])])).compact ∧
      ofSource source = .ok d ∧ Accepts d [] d ∧
      ofSource d.source = .error (.badSource .badToken) := by
  refine ⟨_, .ofContents [.inside 62 (.conditional [] [] [])], rfl,
    ofSource_compact (by decide +kernel), .none, ?_⟩
  exact (ofSource_source (Template.ofContents_wellFormed _)).2 (by decide +kernel)

/-- From any source that is read and any edits that are accepted (`Accepts`): what is saved gives
the same template again exactly when every text stands inside at most sixty-two conditionals, and is
refused otherwise. -/
theorem reload {source : String} {d d' : Document} {edits : List Edit}
    (hsource : ofSource source = .ok d) (hedits : Accepts d edits d') :
    ((∃ reloaded, ofSource d'.source = .ok reloaded ∧ reloaded.template = d'.template) ↔
      ∀ v ∈ d'.template.walk, v.2.kind = .text → v.1 ≤ 62) ∧
    ((∃ v ∈ d'.template.walk, v.2.kind = .text ∧ 63 ≤ v.1) →
      ofSource d'.source = .error (.badSource .badToken)) := by
  have hwell := hedits.wellFormed (Opened.ofSource hsource).wellFormed
  obtain ⟨hgood, hdeep⟩ := ofSource_source hwell
  refine ⟨⟨?_, fun hstorable => ⟨_, hgood hstorable, rfl⟩⟩, ?_⟩
  · rintro ⟨reloaded, hreloaded, -⟩
    by_cases hstorable : d'.template.Storable
    · exact hstorable
    · rw [Document.source, hdeep hstorable] at hreloaded
      exact absurd hreloaded nofun
  · rintro ⟨v, hv, htext, hv63⟩
    exact hdeep fun hstorable => absurd (hstorable v hv htext) (by omega)

/-- A text is split in two, and what is saved then gives both halves back. -/
theorem reload_split :
    let d := Document.ofContents [.text "ab"]
    let d' := (d.apply (.insertConditional ⟨"/0-text"⟩ 1)).2
    d'.template.nodes.length = 3 ∧
      ∃ reloaded, ofSource d'.source = .ok reloaded ∧ reloaded.template = d'.template := by
  intro d d'
  have hsource : ofSource d.source = .ok d :=
    (ofSource_source (Template.ofContents_wellFormed _)).1 (by decide +kernel)
  have hedits : Accepts d [.insertConditional ⟨"/0-text"⟩ 1] d' := .next rfl .none
  exact ⟨by decide +kernel, (reload hsource hedits).1.mpr (by decide +kernel)⟩

end Document

end MessageTemplate
