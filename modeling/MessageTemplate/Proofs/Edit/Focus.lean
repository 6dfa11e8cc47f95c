/-
Where editing goes on after an edit.

A focus stands in a text if its address is that of a place where a text is, and its caret is not
beyond the end of that text (`Focus.StandsIn`).  Every edit that gives a focus gives one that stands
in a text of the template it makes (`Edit.focus_stands`).  For an edit of a text this is the place
of that text, for an insertion the first text of the new condition, and for a deletion the text that
is made at the seam.

A place is spoken of here by its position.  That the address also resolves needs positions of 64
bits, and only the last lemma asks for them.
-/
import MessageTemplate.Proofs.Edit.Effect
import MessageTemplate.Proofs.Tree.Sites

set_option autoImplicit false

namespace MessageTemplate

/-- The focus is in a text of the template: its address is that of the text's site, and its caret
counts no more characters than the text has. -/
def Focus.StandsIn (f : Focus) (t : Template) : Prop :=
  ∃ (s : Site) (n : Node) (text : String), (s.siblings t.nodes)[s.index]? = some n ∧
    n.text? = some text ∧ f.address = s.address .text ∧ f.caret ≤ text.length

/-- A node that has a text is a text.  The address of its site is then the one of a text, which is
what `Focus.StandsIn` asks for. -/
theorem Node.kind_of_text? {n : Node} {text : String} (h : n.text? = some text) :
    n.kind = .text := by
  cases n with
  | text a f s => rfl
  | conditional a c t e => exact absurd h nofun

/-- A text that is exchanged for another is the other.  A conditional has no text, and `setText`
leaves it alone. -/
theorem Node.text?_setText {n : Node} {old : String} (h : n.text? = some old) (s : String) :
    (n.setText s).text? = some s := by
  cases n with
  | text a f s' => rfl
  | conditional a c t e => exact absurd h nofun

/-! ## Targets -/

namespace Template

variable {t : Template} {a : Address} {site : Site}

/-- A `target` stands in the tree at its site, and the address that led to it is the one that the
site has for the kind of node asked for. -/
theorem site_of_target {k : Kind} {n : Node} (h : t.target k a = .ok (site, n)) :
    (site.siblings t.nodes)[site.index]? = some n ∧ n.kind = k ∧ a = site.address k := by
  obtain ⟨hsite, rfl⟩ := target_eq_ok.mp h
  obtain ⟨-, hn, ha⟩ := Node.siteOf_eq_ok.mp hsite
  exact ⟨hn, rfl, ha⟩

/-- A text that `textTarget` finds stands at its site, and its address is that of the site. -/
theorem site_of_textTarget {s : String} (h : t.textTarget a = .ok (site, s)) :
    ∃ n, (site.siblings t.nodes)[site.index]? = some n ∧ n.text? = some s ∧
      a = site.address .text := by
  obtain ⟨⟨found, n⟩, htarget, heq⟩ := Outcome.map_eq_ok.mp h
  obtain ⟨rfl, hs⟩ := Prod.mk.inj heq
  obtain ⟨hn, hk, ha⟩ := site_of_target htarget
  exact ⟨n, hn, Node.text?_eq_some.mpr ⟨hk, hs⟩, ha⟩

/-- The conditional that `conditionalTarget` finds stands at its site, and the address is the one of
the site. -/
theorem site_of_conditionalTarget (h : t.conditionalTarget a = .ok site) :
    ∃ n, (site.siblings t.nodes)[site.index]? = some n ∧ a = site.address .conditional := by
  obtain ⟨⟨found, n⟩, htarget, rfl⟩ := Outcome.map_eq_ok.mp h
  obtain ⟨hn, -, ha⟩ := site_of_target htarget
  exact ⟨n, hn, ha⟩

/-- The text that `resolve` finds can be edited: `textTarget` finds it as well.  There is a locator
for reading and one for editing, and both come to the site of the address. -/
theorem textTarget_of_resolve {r : Resolved} {s : String} (hr : Node.resolve t.nodes a = .ok r)
    (htext : r.node.text? = some s) :
    ∃ site, site.Bounded ∧ (site.siblings t.nodes)[site.index]? = some r.node ∧
      a = site.address .text ∧ t.textTarget a = .ok (site, s) := by
  obtain ⟨site, n, hbounded, hn, ha, rfl⟩ := Node.resolve_eq_ok.mp hr
  refine ⟨site, hbounded, hn, ?_,
    textTarget_eq_ok.mpr ⟨n, Node.siteOf_eq_ok.mpr ⟨hbounded, hn, ha⟩, htext⟩⟩
  rw [ha, Node.kind_of_text? htext]

end Template

/-! ## Edits of a text -/

/-- The two parts that `cutAt` makes of a text are the text. -/
theorem cutAt_append (s : String) (caret : Nat) : (cutAt s caret).1 ++ (cutAt s caret).2 = s := by
  rw [cutAt, ← String.ofList_append, List.take_append_drop, String.ofList_toList]

/-- `cutAt` cuts a text at the caret, or at its end if the caret is beyond it, so the first part has
as many characters as `clampCaret` says. -/
theorem length_cutAt (s : String) (caret : Nat) :
    (cutAt s caret).1.length = clampCaret s caret := by
  rw [cutAt, clampCaret, String.length_ofList, List.length_take, String.length_toList]

/-- After `setTextAt` the node at the site has its text exchanged, and the way to it stays, as
nothing is put in or taken out. -/
theorem Template.getElem?_setTextAt {t : Template} {site : Site} {n : Node}
    (hn : (site.siblings t.nodes)[site.index]? = some n) (s : String) :
    (site.siblings (t.setTextAt site s).nodes)[site.index]? = some (n.setText s) := by
  rw [setTextAt, Site.siblings, Site.exchange, Node.forestAt_exchange _ site.way hn,
    List.getElem?_modify_eq]
  show Option.map _ (site.siblings t.nodes)[site.index]? = _
  rw [hn, Option.map_some]

/-- After `setTextAt` the address of the text leads to what the text is exchanged for. -/
theorem Template.resolve_setTextAt {t : Template} {site : Site} {n : Node} {old : String}
    (hbounded : site.Bounded) (hn : (site.siblings t.nodes)[site.index]? = some n)
    (htext : n.text? = some old) (s : String) :
    Node.resolve (t.setTextAt site s).nodes (site.address .text) =
      .ok ⟨n.setText s, site.siblings (t.setTextAt site s).nodes, site.index⟩ := by
  refine Node.resolve_eq_ok.mpr ⟨site, _, hbounded, getElem?_setTextAt hn s, ?_, rfl⟩
  rw [Node.kind_of_text? (Node.text?_setText htext s)]

namespace Focus

/-- After `setTextAt` a caret within the new text stands there (`StandsIn`). -/
theorem stands_setTextAt {t : Template} {a : Address} {site : Site} {old s : String}
    (h : t.textTarget a = .ok (site, old)) {caret : Nat} (hcaret : caret ≤ s.length) :
    StandsIn ⟨a, caret⟩ (t.setTextAt site s) := by
  obtain ⟨n, hn, htext, ha⟩ := Template.site_of_textTarget h
  exact ⟨site, n.setText s, s, Template.getElem?_setTextAt hn s, Node.text?_setText htext s, ha,
    hcaret⟩

/-! ## Edits of the structure -/

/-- `refresh` leaves a focus where it is.  It computes addresses anew, but positions, kinds and
texts stay, and `StandsIn` speaks of nothing else. -/
theorem StandsIn.refresh {f : Focus} {t : Template} (h : f.StandsIn t) : f.StandsIn t.refresh := by
  obtain ⟨s, n, text, hn, htext, ha, hcaret⟩ := h
  refine ⟨s, n.refresh (Address.root.along s.way) s.index, text, ?_, ?_, ha, hcaret⟩
  · exact Node.getElem?_forestAt_refreshForest s.way hn
  · rw [Node.text?_refresh, htext]

/-- The siblings of a node after a `splice` among them.  What is put in stands between those in
front and those behind. -/
theorem siblings_splice {site : Site} {forest : List Node} {n : Node}
    (hn : (site.siblings forest)[site.index]? = some n) (start stop : Nat) (nodes : List Node) :
    Node.forestAt (site.splice start stop nodes forest) site.way =
      (site.siblings forest).take start ++ nodes ++ (site.siblings forest).drop stop := by
  rw [Site.splice, Site.exchange, Node.forestAt_exchange _ site.way hn]
  rfl

/-- Where a node stands after a `splice` that puts it in: so many places behind the start of the
splice as it has in front of it among the new nodes. -/
theorem getElem?_splice {siblings nodes : List Node} {start : Nat}
    (hstart : start ≤ siblings.length) {i : Nat} (hi : i < nodes.length) (stop : Nat) :
    (siblings.take start ++ nodes ++ siblings.drop stop)[start + i]? = nodes[i]? := by
  have htake : (siblings.take start).length = start := List.length_take_of_le hstart
  rw [List.append_assoc, List.getElem?_append_right (by omega), htake, Nat.add_sub_cancel_left,
    List.getElem?_append_left hi]

/-- The `condition` of the conditional that is put behind the first half of a text is one empty
text. -/
theorem getElem?_condition_splice {site : Site} {forest : List Node} {n : Node}
    (hn : (site.siblings forest)[site.index]? = some n) (first second : Node) :
    (Site.siblings ⟨site.way ++ [(site.index + 1, .condition)], 0⟩ (site.splice site.index
      (site.index + 1) [first, .emptyConditional, second] forest))[0]? = some (.ofText "") := by
  have hle : site.index ≤ (site.siblings forest).length :=
    Nat.le_of_lt (Node.lt_length_of_getElem? hn)
  rw [Site.siblings, Node.forestAt_append, siblings_splice hn, Node.forestAt,
    getElem?_splice hle (Nat.succ_lt_succ (Nat.zero_lt_succ _))]
  rfl

/-- The focus after `insertConditional` is in the empty text of the new condition.  The template is
put in order by `refresh` at the end, and `StandsIn.refresh` takes the focus through it. -/
theorem stands_insertConditional {t : Template} {a : Address} {caret : Nat}
    {edited : Template × Address} (h : t.insertConditional a caret = .ok edited) :
    StandsIn ⟨edited.2, 0⟩ edited.1 := by
  obtain ⟨site, s, htarget, rfl⟩ := Template.insertConditional_eq_ok.mp h
  obtain ⟨n, hn, -, rfl⟩ := Template.site_of_textTarget htarget
  refine StandsIn.refresh ⟨⟨site.way ++ [(site.index + 1, .condition)], 0⟩, .ofText "", "",
    getElem?_condition_splice hn _ _, rfl, ?_, Nat.zero_le _⟩
  dsimp only
  rw [Site.sibling_address, Site.address_inside]

/-- The `seam` is at the position of the node or one before it. -/
theorem seam_le (site : Site) (forest : List Node) : site.seam forest ≤ site.index := by
  rw [Site.seam]
  split
  case isTrue => exact Nat.sub_le _ _
  case isFalse => exact Nat.le_refl _

/-- The focus after `deleteConditional` is in the text at the `seam`.  Its caret is as far in as the
text in front was long, so it is not beyond the end. -/
theorem stands_deleteConditional {t : Template} {a : Address} {edited : Template × Focus}
    (h : t.deleteConditional a = .ok edited) : edited.2.StandsIn edited.1 := by
  obtain ⟨site, htarget, rfl⟩ := Template.deleteConditional_eq_ok.mp h
  obtain ⟨n, hn, rfl⟩ := Template.site_of_conditionalTarget htarget
  have hlt := Node.lt_length_of_getElem? hn
  have hseam : site.seam t.nodes ≤ (site.siblings t.nodes).length :=
    Nat.le_trans (seam_le site t.nodes) (Nat.le_of_lt hlt)
  refine StandsIn.refresh ⟨⟨site.way, site.seam t.nodes⟩,
    .ofText ((site.textBefore t.nodes).getD "" ++ (site.textAfter t.nodes).getD ""), _, ?_, rfl,
    ?_, ?_⟩
  -- What stands at the seam is the one new text, and the caret is where its halves meet.
  · rw [Site.siblings, siblings_splice hn]
    refine getElem?_splice (i := 0) hseam ?_ _
    exact Nat.zero_lt_one
  · exact Site.sibling_address site .conditional _ .text
  · rw [String.length_append]
    exact Nat.le_add_right _ _

end Focus

/-! ## Edits as values -/

namespace Edit

/-- The focus that an edit gives stands in a text (`StandsIn`) of the template that the edit
makes. -/
theorem focus_stands {e : Edit} {t : Template} {edited : Edited} {f : Focus}
    (he : e.apply t = .ok edited) (hfocus : edited.focus = some f) :
    f.StandsIn edited.template := by
  cases e with
  | insertText a caret literal =>
    rw [apply, Outcome.map_eq_ok] at he
    obtain ⟨made, hinsert, rfl⟩ := he
    obtain ⟨site, s, htarget, rfl⟩ := Template.insertText_eq_ok.mp hinsert
    obtain rfl := Option.some.inj hfocus
    refine Focus.stands_setTextAt htarget ?_
    rw [String.length_append, String.length_append, length_cutAt]
    exact Nat.le_add_right _ _
  | replaceText a s =>
    rw [apply, Outcome.map_eq_ok] at he
    obtain ⟨made, -, rfl⟩ := he
    exact absurd hfocus.symm (Option.some_ne_none f)
  | insertConditional a caret =>
    rw [apply, Outcome.map_eq_ok] at he
    obtain ⟨made, hinsert, rfl⟩ := he
    obtain rfl := Option.some.inj hfocus
    exact Focus.stands_insertConditional hinsert
  | deleteConditional a =>
    rw [apply, Outcome.map_eq_ok] at he
    obtain ⟨made, hdelete, rfl⟩ := he
    obtain rfl := Option.some.inj hfocus
    exact Focus.stands_deleteConditional hdelete

/-- `insertText` into the text that an address resolves to is never refused, and the address then
resolves to the text with the literal in it.  What is said of insertions in bytes or other units
starts from this. -/
theorem resolve_insertText {t : Template} {a : Address} {r : Resolved} {s : String}
    (hr : Node.resolve t.nodes a = .ok r) (htext : r.node.text? = some s) (caret : Nat)
    (literal : String) :
    ∃ t' r', (insertText a caret literal).apply t =
        .ok ⟨t', some ⟨a, clampCaret s caret + literal.length⟩⟩ ∧
      Node.resolve t'.nodes a = .ok r' ∧
      r'.node.text? = some ((cutAt s caret).1 ++ literal ++ (cutAt s caret).2) := by
  obtain ⟨site, hbounded, hn, rfl, htarget⟩ := Template.textTarget_of_resolve hr htext
  have happly := apply_insertText (site.address .text) caret literal t
  rw [htarget] at happly
  exact ⟨_, _, happly, Template.resolve_setTextAt hbounded hn htext _,
    Node.text?_setText htext _⟩

/-- `replaceText` gives no focus, but a caret in the new text stands there.  A session puts its
cursor where the text field has it, and at the end if the new text is not that long. -/
theorem replaceText_stands {a : Address} {s : String} {t : Template} {edited : Edited}
    (he : (Edit.replaceText a s).apply t = .ok edited) (caret : Nat) :
    Focus.StandsIn ⟨a, min caret s.length⟩ edited.template := by
  rw [apply, Outcome.map_eq_ok] at he
  obtain ⟨made, hreplace, rfl⟩ := he
  obtain ⟨site, old, htarget, rfl⟩ := Template.replaceText_eq_ok.mp hreplace
  exact Focus.stands_setTextAt htarget (Nat.min_le_right _ _)

end Edit

/-! ## Resolving a focus -/

namespace Focus

variable {f : Focus} {t : Template}

/-- A focus whose address resolves to a text stands in it, if its caret is not beyond the end. -/
theorem stands_of_resolve {r : Resolved} {text : String}
    (hr : Node.resolve t.nodes f.address = .ok r) (htext : r.node.text? = some text)
    (hcaret : f.caret ≤ text.length) : f.StandsIn t := by
  obtain ⟨s, n, -, hn, ha, rfl⟩ := Node.resolve_eq_ok.mp hr
  rw [Node.kind_of_text? htext] at ha
  exact ⟨s, n, text, hn, htext, ha, hcaret⟩

/-- The address of a focus that `StandsIn` a text resolves to that text, if the template `Fits`: a
position beyond 64 bits has an address, but none that is read again. -/
theorem StandsIn.resolve (h : f.StandsIn t) (hfits : Node.Fits t.nodes) :
    ∃ r text, Node.resolve t.nodes f.address = .ok r ∧ r.node.text? = some text ∧
      f.caret ≤ text.length := by
  obtain ⟨s, n, text, hn, htext, ha, hcaret⟩ := h
  refine ⟨⟨n, s.siblings t.nodes, s.index⟩, text, Node.resolve_eq_ok.mpr ?_, htext, hcaret⟩
  refine ⟨s, n, hfits.bounded s.way hn, hn, ?_, rfl⟩
  rw [Node.kind_of_text? htext, ha]

end Focus

end MessageTemplate
