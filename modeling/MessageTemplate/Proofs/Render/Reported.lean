/-
The report of unknown placeholders says all that a message can depend on.

What a template says is settled by its texts with their values put in, whether they are shown or
only decide what is shown (`renderForest_congr`).  A text looks up the names of its placeholders and
no others; so two maps that agree on every placeholder of the template, in whatever branch it
stands, make it say the same.  A placeholder is either a name that the configuration knows or one
that is reported, and therefore these names together are enough to agree on.

How the report is gathered, and that it has every unknown name once and in order, is said by
`Reported` beside `Template.unknownPlaceholders`; here it is only used.
-/
import MessageTemplate.Project.Command
import MessageTemplate.Tree.Addressing
import MessageTemplate.Tree.Outline
import MessageTemplate.Render.Message
import MessageTemplate.Proofs.Render.Scanning
import MessageTemplate.Tree.Walk

set_option autoImplicit false

namespace MessageTemplate

/-! ## What a message depends on -/

namespace Node

variable {values values' : Option Values}

mutual

/-- A node says the same under two maps for which `substitute` makes the same of every text at or
below it. -/
theorem render_congr (depth : Nat) : ∀ n : Node,
    (∀ v ∈ n.walk depth, ∀ s, v.2.text? = some s → substitute values s = substitute values' s) →
      n.render values = n.render values'
  | .text a f s, h => by
    rw [render, render]
    exact h (depth, .text a f s) (by rw [walk]; exact List.mem_singleton_self _) s rfl
  | .conditional a c t e, h => by
    -- All three branches count: the condition decides, and either of the others may be shown.
    rw [walk, List.forall_mem_cons, List.forall_mem_append, List.forall_mem_append] at h
    obtain ⟨-, ⟨hc, ht⟩, he⟩ := h
    rw [render, render, renderForest_congr (depth + 1) c hc, renderForest_congr (depth + 1) t ht,
      renderForest_congr (depth + 1) e he]

/-- A forest says the same under two maps for which `substitute` makes the same of every text in
it. -/
theorem renderForest_congr (depth : Nat) : ∀ forest : List Node,
    (∀ v ∈ walkForest depth forest, ∀ s, v.2.text? = some s →
      substitute values s = substitute values' s) →
      renderForest values forest = renderForest values' forest
  | [], _ => by rw [renderForest, renderForest]
  | n :: rest, h => by
    rw [walkForest, List.forall_mem_append] at h
    rw [renderForest, renderForest, render_congr depth n h.1, renderForest_congr depth rest h.2]

end

end Node

/-! ## Templates -/

namespace Template

/-- A template says the same under two maps that agree on its `placeholderNames`. -/
theorem render_congr {t : Template} {values values' : Option Values}
    (h : ∀ name ∈ t.placeholderNames,
      (values.getD .empty).get? name = (values'.getD .empty).get? name) :
    t.render values = t.render values' := by
  refine Node.renderForest_congr 0 t.nodes fun v hv s htext => substitute_congr fun name hname => ?_
  exact h name (mem_placeholderNames.mpr ⟨v, hv, s, htext, hname⟩)

/-- A message depends on no other names than those that the configuration knows and those that are
reported: under two maps that bind all of these alike, or leave them unbound alike, a template says
the same, where a missing map counts as the empty one.  Reported, by `unknownPlaceholders`, are
exactly the placeholders of the texts at any place of the tree whose names are not known, each once,
in the order in which they first appear in the walk. -/
theorem report_complete (t : Template) (c : Config) :
    (∀ values values' : Option Values,
      (∀ name, name ∈ c.names ∨ name ∈ t.unknownPlaceholders c.names →
        (values.getD .empty).get? name = (values'.getD .empty).get? name) →
      t.render values = t.render values') ∧
    (∀ name, name ∈ t.unknownPlaceholders c.names ↔
      name ∉ c.names ∧ ∃ (s : Site) (n : Node) (text : String),
        (s.siblings t.nodes)[s.index]? = some n ∧ n.text? = some text ∧
          name ∈ placeholders text) ∧
    (t.unknownPlaceholders c.names).Nodup ∧
    (t.unknownPlaceholders c.names).Pairwise fun first later =>
      (t.texts.flatMap placeholders).idxOf first < (t.texts.flatMap placeholders).idxOf later := by
  have hreported := t.reported c.names
  refine ⟨fun values values' hagree => render_congr fun name hname => hagree name ?_,
    fun name => ?_, hreported.nodup, hreported.ordered⟩
  · by_cases hknown : name ∈ c.names
    · exact .inl hknown
    · exact .inr ((hreported.mem_iff name).mpr ⟨hname, hknown⟩)
  · rw [hreported.mem_iff, mem_placeholderNames_iff_site, and_comm]

/-- Two names that are only asked about in a condition.  A map that binds them to nothing and
another name besides says the same as the one without the other name, and the map of the other
name alone says the same as none. -/
theorem report_complete_condition :
    let t := ofContents [.text "\x7bfirstname\x7d, ",
      .conditional [.text "\x7bteam\x7d\x7bnick\x7d\x7bteam\x7d"] [.text "hello"] [.text "goodbye"]]
    let values : Values := .ofList [("nick", ""), ("hello", "x"), ("team", "")]
    let values' : Values := .ofList [("team", ""), ("nick", "")]
    t.unknownPlaceholders Config.usual.names = ["team", "nick"] ∧
      t.render (some values) = "\x7bfirstname\x7d, goodbye" ∧
      t.render (some values) = t.render (some values') ∧
      t.render (some (.ofList [("hello", "x")])) = t.render none := by
  intro t values values'
  have hreport : t.unknownPlaceholders Config.usual.names = ["team", "nick"] := by decide +kernel
  have hnames : ∀ name,
      name ∈ Config.usual.names ∨ name ∈ t.unknownPlaceholders Config.usual.names →
        name ∈ Config.usual.names ++ ["team", "nick"] := by
    intro name hname
    rw [hreport] at hname
    exact List.mem_append.mpr hname
  have hvalues : ∀ name ∈ Config.usual.names ++ ["team", "nick"],
      values.get? name = values'.get? name := by decide
  have hother : ∀ name ∈ Config.usual.names ++ ["team", "nick"],
      (Values.ofList [("hello", "x")]).get? name = Values.empty.get? name := by decide
  refine ⟨hreport, by decide +kernel, ?_, ?_⟩
  · exact (report_complete t .usual).1 _ _ fun name hname => hvalues name (hnames name hname)
  · exact (report_complete t .usual).1 _ _ fun name hname => hother name (hnames name hname)

end Template

end MessageTemplate
