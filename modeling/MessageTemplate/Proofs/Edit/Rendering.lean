/-
An inserted conditional is not seen.

A new conditional has an empty text in each of its branches, so it says nothing
(`Node.render_emptyConditional`); what is said where it was put in is what the two halves of the cut
text say, one after the other (`Node.renderForest_halves`).  By `substitute_cutAt` this is what the
text said, unless the cut goes through a placeholder that has a value.

The rest of the template has no part in this.  What a template says depends on a forest in it only
through what that forest says: a conditional around it asks of its condition whether it says
anything, and of the branch that it shows what it says.  The induction that proves this, in
`Node.renderForest_exchange`, is on the way to the forest.
-/
import MessageTemplate.Proofs.Edit.Structure
import MessageTemplate.Proofs.Render.Cutting
import MessageTemplate.Proofs.Render.Forms

set_option autoImplicit false

namespace MessageTemplate

namespace Node

variable {values : Option Values}

/-! ## What a part says, the whole says -/

/-- `renderForest` takes concatenation of forests to concatenation of texts.  Together with
`renderForest_singleton` this is all that is needed of it to rewrite a run of siblings. -/
theorem renderForest_append (first second : List Node) :
    renderForest values (first ++ second) =
      renderForest values first ++ renderForest values second := by
  induction first with
  | nil => rw [renderForest, List.nil_append, String.empty_append]
  | cons n rest ih =>
    rw [List.cons_append, renderForest, renderForest, ih, String.append_assoc]

/-- A forest of one node says what `render` makes of that node. -/
theorem renderForest_singleton (n : Node) : renderForest values [n] = n.render values := by
  rw [renderForest, renderForest, String.append_empty]

/-- The one step of `renderForest_exchange`.  A conditional reads its branches through
`renderForest` alone, so `setBranch` with a forest that says the same as the old branch leaves the
node saying what it said; a text has no branch, and nothing is set. -/
theorem render_setBranch {n : Node} {b : Branch} {forest : List Node}
    (h : renderForest values forest = renderForest values (n.branch b)) :
    (n.setBranch b forest).render values = n.render values := by
  cases n with
  | text a f s => rfl -- A text has no branches to set.
  | conditional a c t e =>
    cases b with
    | condition =>
      rw [branch] at h
      rw [setBranch, render, render, h]
    | consequent =>
      rw [branch] at h
      rw [setBranch, render, render, h]
    | alternative =>
      rw [branch] at h
      rw [setBranch, render, render, h]

/-- Changing the node at a position with `List.modify` is not seen either, if the new node says what
the old one said.  Past the end of the forest nothing is changed, and the hypothesis asks
nothing. -/
theorem renderForest_modify {f : Node → Node} (forest : List Node) : ∀ {i : Nat},
    (∀ n, forest[i]? = some n → (f n).render values = n.render values) →
      renderForest values (forest.modify i f) = renderForest values forest := by
  induction forest with
  | nil =>
    intro i _
    rw [List.modify_nil]
  | cons n rest ih =>
    intro i h
    cases i with
    | zero => rw [List.modify_zero_cons, renderForest, renderForest, h n rfl]
    | succ i => rw [List.modify_succ_cons, renderForest, renderForest, ih h]

/-- A forest deep in a template, reached by its `Way`, may be exchanged for one that says the same
without the whole saying anything else.  The way is followed step by step; `render_setBranch` goes
back up through each conditional. -/
theorem renderForest_exchange {f : List Node → List Node} (way : Way) : ∀ {forest : List Node},
    renderForest values (f (forestAt forest way)) = renderForest values (forestAt forest way) →
      renderForest values (exchange f forest way) = renderForest values forest := by
  induction way with
  | nil => exact fun h => h
  | cons step rest ih =>
    intro forest h
    rw [exchange]
    refine renderForest_modify forest fun n hn => render_setBranch (ih ?_)
    rw [forestAt, hn] at h
    exact h

/-- The form in which the edits use it.  If the nodes put in by `Site.splice` say what the single
node said in whose place they are put, the whole says what it said. -/
theorem renderForest_splice {site : Site} {forest : List Node} {n : Node}
    (hn : (site.siblings forest)[site.index]? = some n) {nodes : List Node}
    (h : renderForest values nodes = n.render values) :
    renderForest values (site.splice site.index (site.index + 1) nodes forest) =
      renderForest values forest := by
  rw [Site.siblings] at hn
  refine renderForest_exchange site.way ?_
  rw [renderForest_append, renderForest_append, h, ← renderForest_singleton n,
    ← renderForest_append, ← renderForest_append, splice_getElem? hn]

/-! ## A new conditional -/

/-- The condition of a new conditional says the empty text, so its `else` branch is shown; and all
of its branches say nothing anyway, with values or without. -/
theorem render_emptyConditional : emptyConditional.render values = "" := by
  have hempty : renderForest values (filled []) = "" := by
    rw [filled, ofText, renderForest_singleton, render, substitute_empty]
  rw [emptyConditional, ofBranches, render, hempty]
  rfl

/-- The two halves of a text with an `emptyConditional` between them say what the halves say, one
after the other. -/
theorem renderForest_halves (first second : String) :
    renderForest values [ofText first, emptyConditional, ofText second] =
      substitute values first ++ substitute values second := by
  rw [renderForest, renderForest, renderForest_singleton, render_emptyConditional, ofText, render,
    ofText, render, String.empty_append]

end Node

/-! ## Templates -/

namespace Template

variable {t : Template} {site : Site} {a : Address} {f : Fingerprint} {s : String}

/-- A text of a well-formed template can be split at every caret, and what comes out is
`Template.split` of its two halves.  This is where `insertConditional` is shown to succeed: its
check finds the text, since in a well-formed template a node has the address of its site. -/
theorem WellFormed.insertConditional_eq (h : t.WellFormed) (hbounded : site.Bounded)
    (hn : (site.siblings t.nodes)[site.index]? = some (.text a f s)) (caret : Nat) :
    ∃ focus, t.insertConditional a caret =
      .ok (t.split site (cutAt s caret).1 (cutAt s caret).2, focus) := by
  have htarget : t.textTarget a = .ok (site, s) :=
    textTarget_eq_ok.mpr
      ⟨_, Node.siteOf_eq_ok.mpr ⟨hbounded, hn, (h.finds hn).address⟩, rfl⟩
  exact ⟨_, insertConditional_eq_ok.mpr ⟨site, s, htarget, rfl⟩⟩

/-- `Template.split` changes nothing that is said as soon as `substitute` makes of the two halves
together what it makes of the whole text.  That the addresses are given out anew afterwards plays no
part in rendering (`Node.renderForest_refreshForest`). -/
theorem render_split {values : Option Values}
    (hn : (site.siblings t.nodes)[site.index]? = some (.text a f s)) {first second : String}
    (h : substitute values first ++ substitute values second = substitute values s) :
    (t.split site first second).render values = t.render values := by
  rw [split, refresh, render, render, Node.renderForest_refreshForest]
  refine Node.renderForest_splice hn ?_
  rw [Node.renderForest_halves, h, Node.render]

/-- `insertConditional` succeeds for every text of a well-formed template, at every caret, and the
message stays the same under every map of values, unless the caret is inside of a placeholder that
the map binds.  Without a map it stays the same wherever the caret is. -/
theorem render_insertConditional (h : t.WellFormed) (hbounded : site.Bounded)
    (hn : (site.siblings t.nodes)[site.index]? = some (.text a f s)) (caret : Nat) :
    ∃ inserted, t.insertConditional a caret = .ok inserted ∧
      (∀ v : Values, (∀ name, v.get? name ≠ none → ¬ CaretInside s caret name) →
        inserted.1.render (some v) = t.render (some v)) ∧
      inserted.1.render none = t.render none := by
  obtain ⟨focus, hinserted⟩ := h.insertConditional_eq hbounded hn caret
  refine ⟨_, hinserted, fun v hcaret => ?_, ?_⟩
  · refine render_split hn (substitute_cutAt fun v' hv' => ?_)
    obtain rfl := Option.some.inj hv'
    exact hcaret
  · exact render_split hn (substitute_cutAt fun v' hv' => absurd hv' nofun)

/-- A placeholder without a value is cut in a branch that is shown, and one with a value is cut
in the condition that decides this.  The first cut changes nothing.  The second one changes
nothing either as long as there are no values; with them the condition that said nothing says
two braces, and the other branch is shown. -/
theorem render_insertConditional_within :
    let t := ofContents
      [.conditional [.text "\x7bz\x7d"] [.text "yes"] [.text "no\x7bx y\x7d"]]
    let shown : Site := ⟨[(0, .alternative)], 0⟩
    let asked : Site := ⟨[(0, .condition)], 0⟩
    let v : Values := .ofList [("z", "")]
    t.WellFormed ∧ shown.Bounded ∧ asked.Bounded ∧
      (∀ name, v.get? name ≠ none → ¬ CaretInside "no\x7bx y\x7d" 4 name) ∧
      (∃ inserted, t.insertConditional ⟨"/0-if-else/0-text"⟩ 4 = .ok inserted ∧
        inserted.1.render (some v) = "no\x7bx y\x7d") ∧
      ∃ inserted, t.insertConditional ⟨"/0-if-cond/0-text"⟩ 1 = .ok inserted ∧
        inserted.1.render none = "yes" ∧ inserted.1.render (some v) = "yes" := by
  intro t shown asked v
  have h : t.WellFormed := ofContents_wellFormed _
  have hbounded : ∀ b, Site.Bounded ⟨[(0, b)], 0⟩ := by
    intro b
    simp only [Site.Bounded, List.forall_mem_singleton, indexBound, UInt64.size]
    omega
  -- The two sites are looked up in the filled forest, with all its addresses.
  have hshown : (shown.siblings t.nodes)[shown.index]? =
      some (.text ⟨"/0-if-else/0-text"⟩ (.of "no\x7bx y\x7d") "no\x7bx y\x7d") := by
    decide +kernel
  have hasked : (asked.siblings t.nodes)[asked.index]? =
      some (.text ⟨"/0-if-cond/0-text"⟩ (.of "\x7bz\x7d") "\x7bz\x7d") := by
    decide +kernel
  have hcaret : ∀ name, v.get? name ≠ none → ¬ CaretInside "no\x7bx y\x7d" 4 name := by
    intro name hname
    obtain rfl : name = "z" := by
      -- The only name with a value is `z`, and the second text has no placeholder of that name.
      refine Classical.byContradiction fun hother => hname ?_
      show List.lookup name [("z", "")] = none
      rw [List.lookup_cons, beq_false_of_ne hother]
      rfl
    decide
  refine ⟨h, hbounded _, hbounded _, hcaret, ?_, ?_⟩
  · obtain ⟨inserted, hinserted, hsame, -⟩ := render_insertConditional h (hbounded _) hshown 4
    refine ⟨inserted, hinserted, ?_⟩
    rw [hsame v hcaret]
    decide +kernel
  · obtain ⟨inserted, hinserted, -, hsame⟩ := render_insertConditional h (hbounded _) hasked 1
    -- With the map the two halves of the condition are no placeholder any more, so this case is
    -- beyond the theorem and is computed.
    have hmade : (t.insertConditional ⟨"/0-if-cond/0-text"⟩ 1).toOption.map
        (fun made => made.1.render (some v)) = some "yes" := by decide +kernel
    rw [hinserted] at hmade
    refine ⟨inserted, hinserted, ?_, Option.some.inj hmade⟩
    rw [hsame]
    decide +kernel

end Template

end MessageTemplate
