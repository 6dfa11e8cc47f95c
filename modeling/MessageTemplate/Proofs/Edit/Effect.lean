/-
What an edit that applies has done.

Each edit is a chain: the address is resolved, the node there must be of the right kind, and then
the template is changed.  The first two steps are the same for all edits, with the kind as a
parameter (`target_eq_ok`); texts and conditionals are this for their kinds.  For every edit there
is then one lemma that says when it applies and what comes of it.

Two shapes remain: a text is exchanged in place, or nodes are spliced into a forest and the whole
tree is computed anew (`apply_eq_ok`).  Both keep a template well formed, for different reasons.

The same edits are also given as functions of their targets (`apply_insertText` and its likes), for
those who have to know what comes of an edit that is refused.
-/
import MessageTemplate.Edit.Basic
import MessageTemplate.Proofs.Outcome
import MessageTemplate.Proofs.Tree.WellFormed

set_option autoImplicit false

namespace MessageTemplate

/-! ## Targets -/

/-- `demand` succeeds exactly if a node was found and is of the kind asked for. -/
theorem Kind.demand_eq_ok {k : Kind} {a : Address} {found : Except AddressError (Site × Node)}
    {v : Site × Node} : k.demand a found = .ok v ↔ found = .ok v ∧ v.2.kind = k := by
  rcases found with cause | ⟨site, n⟩
  · exact ⟨nofun, fun h => absurd h.1 nofun⟩
  rw [demand]
  by_cases hk : n.kind = k
  · rw [if_pos hk]
    refine ⟨fun h => ?_, fun h => by rw [Except.ok.inj h.1]⟩
    obtain rfl := Except.ok.inj h
    exact ⟨rfl, hk⟩
  · rw [if_neg hk]
    refine ⟨nofun, fun ⟨h, hv⟩ => ?_⟩
    obtain rfl := Except.ok.inj h
    exact absurd hv hk

/-- A node has a text exactly if it is of that kind, and then `getD` gives this text. -/
theorem Node.text?_eq_some {n : Node} {s : String} :
    n.text? = some s ↔ n.kind = .text ∧ n.text?.getD "" = s := by
  cases n with
  | text a f s' => exact ⟨fun h => ⟨rfl, Option.some.inj h⟩, fun h => congrArg some h.2⟩
  | conditional a c t e => exact ⟨nofun, fun h => absurd h.1 nofun⟩

namespace Template

variable {t : Template} {a : Address} {site : Site}

/-- The `target` of all edits, with the kind of node as a parameter: `siteOf` finds a node, and it
is of the kind.  What is said of texts and of conditionals below is this for their kinds. -/
theorem target_eq_ok {k : Kind} {n : Node} :
    t.target k a = .ok (site, n) ↔ Node.siteOf t.nodes a = .ok (site, n) ∧ n.kind = k :=
  Kind.demand_eq_ok

theorem textTarget_eq_ok {s : String} :
    t.textTarget a = .ok (site, s) ↔
      ∃ n, Node.siteOf t.nodes a = .ok (site, n) ∧ n.text? = some s := by
  rw [textTarget, Outcome.map_eq_ok]
  constructor
  · rintro ⟨⟨found, n⟩, htarget, h⟩
    obtain ⟨rfl, hs⟩ := Prod.mk.inj h
    obtain ⟨hsite, hk⟩ := target_eq_ok.mp htarget
    exact ⟨n, hsite, Node.text?_eq_some.mpr ⟨hk, hs⟩⟩
  · rintro ⟨n, hsite, hs⟩
    obtain ⟨hk, rfl⟩ := Node.text?_eq_some.mp hs
    exact ⟨(site, n), target_eq_ok.mpr ⟨hsite, hk⟩, rfl⟩

theorem conditionalTarget_eq_ok :
    t.conditionalTarget a = .ok site ↔
      ∃ n, Node.siteOf t.nodes a = .ok (site, n) ∧ n.kind = .conditional := by
  rw [conditionalTarget, Outcome.map_eq_ok]
  constructor
  · rintro ⟨⟨found, n⟩, htarget, rfl⟩
    exact ⟨n, target_eq_ok.mp htarget⟩
  · rintro ⟨n, h⟩
    exact ⟨(site, n), target_eq_ok.mpr h, rfl⟩

/-! ## The four edits -/

/-- `insertText` applies exactly if there is a text; it then stands between the two parts of the
text, and the focus behind it. -/
theorem insertText_eq_ok {caret : Nat} {literal : String} {edited : Template × Focus} :
    t.insertText a caret literal = .ok edited ↔
      ∃ site s, t.textTarget a = .ok (site, s) ∧
        edited = (t.setTextAt site ((cutAt s caret).1 ++ literal ++ (cutAt s caret).2),
          ⟨a, clampCaret s caret + literal.length⟩) := by
  rw [insertText, Outcome.bind_eq_ok]
  constructor
  · rintro ⟨⟨site, s⟩, htarget, h⟩
    exact ⟨site, s, htarget, (Except.ok.inj h).symm⟩
  · rintro ⟨site, s, htarget, rfl⟩
    exact ⟨(site, s), htarget, rfl⟩

/-- `replaceText` applies exactly if there is a text. -/
theorem replaceText_eq_ok {s : String} {edited : Template} :
    t.replaceText a s = .ok edited ↔
      ∃ site old, t.textTarget a = .ok (site, old) ∧ edited = t.setTextAt site s := by
  rw [replaceText, Outcome.bind_eq_ok]
  constructor
  · rintro ⟨⟨site, old⟩, htarget, h⟩
    exact ⟨site, old, htarget, (Except.ok.inj h).symm⟩
  · rintro ⟨site, old, htarget, rfl⟩
    exact ⟨(site, old), htarget, rfl⟩

/-- `insertConditional` applies exactly if there is a text; a conditional between the two halves of
the text takes its place, and the focus is in the condition. -/
theorem insertConditional_eq_ok {caret : Nat} {edited : Template × Address} :
    t.insertConditional a caret = .ok edited ↔
      ∃ site s, t.textTarget a = .ok (site, s) ∧
        edited = (Template.refresh ⟨site.splice site.index (site.index + 1)
            [.ofText (cutAt s caret).1, .emptyConditional, .ofText (cutAt s caret).2] t.nodes⟩,
          ((a.sibling (site.index + 1) .conditional).branch .condition).child 0 .text) := by
  rw [insertConditional, Outcome.bind_eq_ok]
  constructor
  · rintro ⟨⟨site, s⟩, htarget, h⟩
    exact ⟨site, s, htarget, (Except.ok.inj h).symm⟩
  · rintro ⟨site, s, htarget, rfl⟩
    exact ⟨(site, s), htarget, rfl⟩

end Template

/-- The text that ends where the node at this `Site` starts, if a text does. -/
def Site.textBefore (site : Site) (forest : List Node) : Option String :=
  if site.index = 0 then none else (site.siblings forest)[site.index - 1]?.bind Node.text?

/-- The text that starts where the node at this `Site` ends, if a text does. -/
def Site.textAfter (site : Site) (forest : List Node) : Option String :=
  (site.siblings forest)[site.index + 1]?.bind Node.text?

/-- The position of the text that the node at this `Site` and the texts next to it become. -/
def Site.seam (site : Site) (forest : List Node) : Nat :=
  if (site.textBefore forest).isSome then site.index - 1 else site.index

namespace Template

variable {t : Template} {a : Address} {site : Site}

/-- `deleteConditional` applies exactly if there is a conditional; a single text takes the place of
it and of the texts next to it, and the focus stands where the two meet. -/
theorem deleteConditional_eq_ok {edited : Template × Focus} :
    t.deleteConditional a = .ok edited ↔
      ∃ site, t.conditionalTarget a = .ok site ∧
        edited = (Template.refresh ⟨site.splice (site.seam t.nodes)
            (if (site.textAfter t.nodes).isSome then site.index + 2 else site.index + 1)
            [.ofText ((site.textBefore t.nodes).getD "" ++ (site.textAfter t.nodes).getD "")]
            t.nodes⟩,
          ⟨a.sibling (site.seam t.nodes) .text, ((site.textBefore t.nodes).getD "").length⟩) := by
  rw [deleteConditional, Outcome.bind_eq_ok]
  constructor
  · rintro ⟨site, htarget, h⟩
    exact ⟨site, htarget, (Except.ok.inj h).symm⟩
  · rintro ⟨site, htarget, rfl⟩
    exact ⟨site, htarget, rfl⟩

end Template

/-! ## Edits as functions of their targets -/

namespace Edit

/-- `insertText` as a function of the text that `textTarget` finds. -/
theorem apply_insertText (a : Address) (caret : Nat) (literal : String) (t : Template) :
    (insertText a caret literal).apply t = (t.textTarget a).map fun v =>
      ⟨t.setTextAt v.1 ((cutAt v.2 caret).1 ++ literal ++ (cutAt v.2 caret).2),
        some ⟨a, clampCaret v.2 caret + literal.length⟩⟩ := by
  rw [apply, Template.insertText]
  cases t.textTarget a with
  | error cause => rfl
  | ok v => rfl

/-- `replaceText` as a function of the text that `textTarget` finds. -/
theorem apply_replaceText (a : Address) (s : String) (t : Template) :
    (replaceText a s).apply t = (t.textTarget a).map fun v => ⟨t.setTextAt v.1 s, none⟩ := by
  rw [apply, Template.replaceText]
  cases t.textTarget a with
  | error cause => rfl
  | ok v => rfl

/-- `insertConditional` as a function of the text that `textTarget` finds. -/
theorem apply_insertConditional (a : Address) (caret : Nat) (t : Template) :
    (insertConditional a caret).apply t = (t.textTarget a).map fun v =>
      ⟨.refresh ⟨v.1.splice v.1.index (v.1.index + 1)
          [.ofText (cutAt v.2 caret).1, .emptyConditional, .ofText (cutAt v.2 caret).2] t.nodes⟩,
        some ⟨((a.sibling (v.1.index + 1) .conditional).branch .condition).child 0 .text,
          0⟩⟩ := by
  rw [apply, Template.insertConditional]
  cases t.textTarget a with
  | error cause => rfl
  | ok v => rfl

/-- `deleteConditional` as a function of the place that `conditionalTarget` finds. -/
theorem apply_deleteConditional (a : Address) (t : Template) :
    (deleteConditional a).apply t = (t.conditionalTarget a).map fun site =>
      ⟨.refresh ⟨site.splice (site.seam t.nodes)
          (if (site.textAfter t.nodes).isSome then site.index + 2 else site.index + 1)
          [.ofText ((site.textBefore t.nodes).getD "" ++ (site.textAfter t.nodes).getD "")]
          t.nodes⟩,
        some ⟨a.sibling (site.seam t.nodes) .text,
          ((site.textBefore t.nodes).getD "").length⟩⟩ := by
  rw [apply, Template.deleteConditional]
  cases t.conditionalTarget a with
  | error cause => rfl
  | ok site => rfl

/-- Whatever the edit, it finds a node of its kind (`target`) and makes something of it: its address
and its kind alone decide whether it applies. -/
theorem exists_made (e : Edit) (t : Template) :
    ∃ made : Site × Node → Edited, e.apply t = (t.target e.kind e.address).map made := by
  cases e with
  | insertText a caret literal =>
    exact ⟨_, (apply_insertText a caret literal t).trans Outcome.map_map⟩
  | replaceText a s => exact ⟨_, (apply_replaceText a s t).trans Outcome.map_map⟩
  | insertConditional a caret =>
    exact ⟨_, (apply_insertConditional a caret t).trans Outcome.map_map⟩
  | deleteConditional a => exact ⟨_, (apply_deleteConditional a t).trans Outcome.map_map⟩

end Edit

/-! ## Well-formedness -/

/-- A node stays `Placed` under `setText`, when its text is exchanged, since the fingerprint is
exchanged with it. -/
theorem Node.Placed.setText {path : Address} {index : Nat} {n : Node}
    (h : n.Placed path index) (s : String) : (n.setText s).Placed path index := by
  cases n with
  | text a f old =>
    rw [Placed] at h
    rw [Node.setText, Node.Placed]
    exact ⟨h.1, rfl⟩
  | conditional a c t e => exact h

/-- A template stays well formed under `setTextAt`, when a text is exchanged where it stands. -/
theorem Template.WellFormed.setTextAt {t : Template} (h : t.WellFormed) (site : Site)
    (s : String) : (t.setTextAt site s).WellFormed :=
  Node.WellFormed.exchange
    (fun _ _ hforest => hforest.modify site.index fun _ hn => hn.setText s) site.way .root t.nodes h

namespace Edit

/-- An edit either exchanges a text where it stands (`setTextAt`) or computes everything anew
(`refresh`). -/
theorem apply_eq_ok {e : Edit} {t : Template} {edited : Edited} (h : e.apply t = .ok edited) :
    (∃ site s, edited.template = t.setTextAt site s) ∨
      ∃ spliced : Template, edited.template = spliced.refresh := by
  cases e with
  | insertText a caret s =>
    rw [apply_insertText, Outcome.map_eq_ok] at h
    obtain ⟨v, -, rfl⟩ := h
    exact .inl ⟨v.1, _, rfl⟩
  | replaceText a s =>
    rw [apply_replaceText, Outcome.map_eq_ok] at h
    obtain ⟨v, -, rfl⟩ := h
    exact .inl ⟨v.1, s, rfl⟩
  | insertConditional a caret =>
    rw [apply_insertConditional, Outcome.map_eq_ok] at h
    obtain ⟨v, -, rfl⟩ := h
    exact .inr ⟨_, rfl⟩
  | deleteConditional a =>
    rw [apply_deleteConditional, Outcome.map_eq_ok] at h
    obtain ⟨site, -, rfl⟩ := h
    exact .inr ⟨_, rfl⟩

/-- Whatever the edit, it makes a well-formed template of a well-formed one.  This is all that
sessions need to know of edits to keep their templates well formed. -/
theorem apply_wellFormed {e : Edit} {t : Template} {edited : Edited} (h : t.WellFormed)
    (he : e.apply t = .ok edited) : edited.template.WellFormed := by
  obtain ⟨site, s, heq⟩ | ⟨spliced, heq⟩ := apply_eq_ok he
  · rw [heq]
    exact h.setTextAt site s
  · rw [heq]
    exact spliced.refresh_wellFormed

end Edit

end MessageTemplate
