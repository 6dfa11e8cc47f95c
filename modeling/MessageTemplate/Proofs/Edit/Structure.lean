/-
The edits of the structure, node by node.

Inserting a conditional puts three nodes in the place of a text, and deleting one puts a text in the
place of up to three nodes.  Both are splices of the forest that owns the node, so what becomes of
all the other nodes is known from splices in general (`Template.Spliced`); here it is said which
nodes are replaced, by what, and where editing goes on (`InsertedAt`, `DeletedAt`).

The two belong together.  What is deleted after an insertion are exactly the three nodes that were
inserted: on both sides of the new conditional there is a half of the text, an empty one if need be,
so a text further out is never joined.  This is why the template comes back whatever stands next to
the text (`delete_insertConditional`).
-/
import MessageTemplate.Proofs.Edit.Focus
import MessageTemplate.Proofs.Tree.Splicing

set_option autoImplicit false

namespace MessageTemplate

/-! ## What is found after a splice -/

namespace Node

/-- The `content` of a new conditional: an empty text in each branch. -/
theorem content_emptyConditional :
    emptyConditional.content = .conditional [.text ""] [.text ""] [.text ""] := rfl

/-- What `insertConditional` puts in the place of a text has no empty branch, so filling does not
change it and it is stored as it is written here. -/
theorem fill_content_halves (first second : String) :
    ∀ n ∈ [ofText first, emptyConditional, ofText second], n.content.fill = n.content := by
  simp only [List.forall_mem_cons, fill_content_ofText, true_and]
  refine ⟨?_, fun n hn => absurd hn List.not_mem_nil⟩
  rw [content_emptyConditional]
  rfl

end Node

namespace Template

variable {t : Template} {site : Site} {n : Node}

/-- A text without a place (`ofText`) gets from `refresh` the address of the site where it was
put. -/
theorem finds_refresh_text {s : Site} {text : String}
    (htext : (s.siblings t.nodes)[s.index]? = some (.ofText text)) :
    t.refresh.Finds s (.text (s.address .text) (.of text) text) := by
  have hfound := finds_refresh htext
  rw [Node.ofText, Node.refresh] at hfound
  exact hfound

theorem getElem?_splice (hn : (site.siblings t.nodes)[site.index]? = some n) {start : Nat}
    (hstart : start ≤ site.index) {nodes : List Node} {i : Nat} {m : Node}
    (hm : nodes[i]? = some m) (stop : Nat) :
    (Site.siblings ⟨site.way, start + i⟩ (site.splice start stop nodes t.nodes))[start + i]? =
      some m := by
  have hle : start ≤ (site.siblings t.nodes).length :=
    Nat.le_trans hstart (Nat.le_of_lt (Node.lt_length_of_getElem? hn))
  rw [Site.siblings, Focus.siblings_splice hn,
    Focus.getElem?_splice hle (Node.lt_length_of_getElem? hm), hm]

end Template

/-! ## Which edits apply -/

namespace Template

variable {t : Template} {a : Address}

/-- `insertConditional` succeeds exactly where a text is found.  Neither the caret nor what stands
next to the text is a reason to refuse. -/
theorem exists_insertConditional_iff {caret : Nat} :
    (∃ made, t.insertConditional a caret = .ok made) ↔
      ∃ r, Node.resolve t.nodes a = .ok r ∧ r.node.kind = .text := by
  rw [← Node.exists_siteOf_iff (p := fun n => n.kind = .text)]
  constructor
  · rintro ⟨made, hmade⟩
    obtain ⟨site, s, htarget, -⟩ := insertConditional_eq_ok.mp hmade
    obtain ⟨n, hsite, htext⟩ := textTarget_eq_ok.mp htarget
    exact ⟨site, n, hsite, Node.kind_of_text? htext⟩
  · rintro ⟨site, n, hsite, hkind⟩
    cases n with
    | conditional b c th el => exact absurd hkind nofun
    | text b f s =>
      exact ⟨_, insertConditional_eq_ok.mpr ⟨site, s, textTarget_eq_ok.mpr ⟨_, hsite, rfl⟩, rfl⟩⟩

/-- `deleteConditional` succeeds exactly where a conditional is found, whatever it holds. -/
theorem exists_deleteConditional_iff :
    (∃ made, t.deleteConditional a = .ok made) ↔
      ∃ r, Node.resolve t.nodes a = .ok r ∧ r.node.kind = .conditional := by
  rw [← Node.exists_siteOf_iff (p := fun n => n.kind = .conditional)]
  constructor
  · rintro ⟨made, hmade⟩
    obtain ⟨site, htarget, -⟩ := deleteConditional_eq_ok.mp hmade
    obtain ⟨n, hsite, hkind⟩ := conditionalTarget_eq_ok.mp htarget
    exact ⟨site, n, hsite, hkind⟩
  · rintro ⟨site, n, hsite, hkind⟩
    have htarget := conditionalTarget_eq_ok.mpr ⟨n, hsite, hkind⟩
    exact ⟨_, deleteConditional_eq_ok.mpr ⟨site, htarget, rfl⟩⟩

end Template

/-! ## Inserting and deleting -/

/-- A conditional was put into the text `s` of a site.  The text is cut at the caret, the
conditional stands between the halves and has an empty text in each branch, and whatever
stands behind moves two places on.  Editing goes on in its condition. -/
structure InsertedAt (t : Template) (site : Site) (s : String) (caret : Nat) (edited : Edited) :
    Prop where
  spliced : ∃ first second, s = first ++ second ∧ first.length = min caret s.length ∧
    t.Spliced site.way site.index (site.index + 1)
      [.text first, .conditional [.text ""] [.text ""] [.text ""], .text second]
      (fun i => if i ≤ site.index then i else i + 2) edited.template
  focus : ∃ b, edited.focus = some ⟨b, 0⟩ ∧
    edited.template.Finds ⟨site.way ++ [(site.index + 1, .condition)], 0⟩ (.text b (.of "") "")

namespace Site

/-- How many texts are next to the node at a `Site`: none, one or two.  A deletion moves what stands
behind it back by so many places. -/
def texts (site : Site) (forest : List Node) : Nat :=
  (site.textBefore forest).toList.length + (site.textAfter forest).toList.length

/-- The texts next to the node at a `Site`, joined; a text that is missing counts as an empty
one. -/
def joined (site : Site) (forest : List Node) : String :=
  (site.textBefore forest).getD "" ++ (site.textAfter forest).getD ""

end Site

/-- The conditional at a site was deleted.  It and the texts next to it have become one text,
and whatever stands behind moves back by as many places as there were texts.  Editing goes on
where the joined texts meet. -/
structure DeletedAt (t : Template) (site : Site) (edited : Edited) : Prop where
  spliced : t.Spliced site.way (site.seam t.nodes)
    (site.index + 1 + (site.textAfter t.nodes).toList.length) [.text (site.joined t.nodes)]
    (fun i => if i ≤ site.index then i else i - site.texts t.nodes) edited.template
  focus : ∃ b, edited.focus = some ⟨b, ((site.textBefore t.nodes).getD "").length⟩ ∧
    edited.template.Finds ⟨site.way, site.seam t.nodes⟩
      (.text b (.of (site.joined t.nodes)) (site.joined t.nodes))

namespace Site

/-- A text in front of a node has a position of its own, and it is the `seam`.  If there is none,
the seam is the position of the node. -/
theorem seam_add (site : Site) (forest : List Node) :
    site.seam forest + (site.textBefore forest).toList.length = site.index := by
  rw [seam]
  cases hbefore : site.textBefore forest with
  | none => rfl
  | some s =>
    have hindex : site.index ≠ 0 := by
      intro hzero
      rw [textBefore, if_pos hzero] at hbefore
      exact Option.some_ne_none s hbefore.symm
    rw [if_pos (Option.isSome_some), Option.toList_some, List.length_singleton]
    omega

/-- What stands one place in front of a node is its `textBefore` if it is a text. -/
theorem textBefore_eq {site : Site} {forest : List Node} {index : Nat} {n : Node}
    (hindex : site.index = index + 1) (hn : (site.siblings forest)[index]? = some n) :
    site.textBefore forest = n.text? := by
  rw [textBefore, hindex, if_neg (Nat.succ_ne_zero index), Nat.add_sub_cancel, hn,
    Option.bind_some]

/-- What stands one place behind a node is its `textAfter` if it is a text. -/
theorem textAfter_eq {site : Site} {forest : List Node} {n : Node}
    (hn : (site.siblings forest)[site.index + 1]? = some n) :
    site.textAfter forest = n.text? := by
  rw [textAfter, hn, Option.bind_some]

/-- A deletion reaches one place further if there is a `textAfter`. -/
theorem index_add_textAfter (site : Site) (forest : List Node) :
    (if (site.textAfter forest).isSome then site.index + 2 else site.index + 1) =
      site.index + 1 + (site.textAfter forest).toList.length := by
  cases site.textAfter forest with
  | none => rfl
  | some s => rfl

end Site

namespace Template

variable {t : Template} {a : Address}

/-- An insertion that applies has done what `InsertedAt` says, to the text that its address leads
to.  The splice is `WellFormed.spliced` with three nodes for one, and the focus is found by
`finds_refresh_text`. -/
theorem insertedAt_of_eq_ok (h : t.WellFormed) {caret : Nat} {made : Template × Address}
    (hmade : t.insertConditional a caret = .ok made) :
    ∃ site f s, site.Bounded ∧ t.Finds site (.text a f s) ∧
      InsertedAt t site s caret ⟨made.1, some ⟨made.2, 0⟩⟩ := by
  obtain ⟨site, s, htarget, rfl⟩ := insertConditional_eq_ok.mp hmade
  obtain ⟨n, hsite, htext⟩ := textTarget_eq_ok.mp htarget
  obtain ⟨hbounded, hn, ha⟩ := Node.siteOf_eq_ok.mp hsite
  rw [Node.kind_of_text? htext] at ha
  have hfinds := h.finds hn
  refine ⟨site, ?_⟩
  cases n with
  | conditional b c t e => exact absurd htext nofun
  | text b f s' =>
    obtain rfl : s' = s := Option.some.inj htext
    obtain rfl : a = b := ha.trans hfinds.address.symm
    refine ⟨f, s', hbounded, hfinds,
      ⟨_, _, (cutAt_append s' caret).symm, length_cutAt s' caret, ?_⟩,
      _, rfl, ?_⟩
    -- One node goes and three come, so what stands behind it moves by two.
    · refine h.spliced hn (Nat.le_refl _) (Nat.le_succ _) (List.cons_ne_nil _ _)
        (Node.fill_content_halves _ _) (fun i hi => if_pos (Nat.le_of_lt hi)) fun i hi => ?_
      rw [if_neg (by omega), List.length_cons, List.length_cons, List.length_singleton]
      omega
    · rw [ha, Site.sibling_address, Site.address_inside]
      exact finds_refresh_text (Focus.getElem?_condition_splice hn _ _)

/-- A deletion that applies has done what `DeletedAt` says, to the conditional that its address
leads to.  The splice starts at the `seam` and goes as far as there is a text behind the
conditional. -/
theorem deletedAt_of_eq_ok (h : t.WellFormed) {made : Template × Focus}
    (hmade : t.deleteConditional a = .ok made) :
    ∃ site c th el, site.Bounded ∧ t.Finds site (.conditional a c th el) ∧
      DeletedAt t site ⟨made.1, some made.2⟩ := by
  obtain ⟨site, htarget, rfl⟩ := deleteConditional_eq_ok.mp hmade
  obtain ⟨n, hsite, hkind⟩ := conditionalTarget_eq_ok.mp htarget
  obtain ⟨hbounded, hn, ha⟩ := Node.siteOf_eq_ok.mp hsite
  rw [hkind] at ha
  have hfinds := h.finds hn
  have hseam := site.seam_add t.nodes
  refine ⟨site, ?_⟩
  cases n with
  | text b f s => exact absurd hkind nofun
  | conditional b c th el =>
    obtain rfl : a = b := ha.trans hfinds.address.symm
    refine ⟨c, th, el, hbounded, hfinds, ?_, _, rfl, ?_⟩
    -- The run starts at the `seam` and has one node more than there are texts; one node comes.
    · have hlow : ∀ i < site.seam t.nodes,
          (if i ≤ site.index then i else i - site.texts t.nodes) = i :=
        fun i hi => if_pos (Nat.le_of_lt (Nat.lt_of_lt_of_le hi (Focus.seam_le site t.nodes)))
      have hstop : site.seam t.nodes ≤ site.index + 1 + (site.textAfter t.nodes).toList.length := by
        omega
      have hfilled : ∀ n ∈ [Node.ofText (site.joined t.nodes)], n.content.fill = n.content :=
        List.forall_mem_singleton.mpr (Node.fill_content_ofText _)
      rw [Site.index_add_textAfter]
      refine h.spliced hn (Focus.seam_le site t.nodes) hstop (List.cons_ne_nil _ _) hfilled hlow
        fun i hi => ?_
      rw [if_neg (by omega), List.length_singleton, Site.texts]
      omega
    · rw [ha, Site.sibling_address]
      exact finds_refresh_text
        (getElem?_splice hn (i := 0) (Focus.seam_le site t.nodes) rfl _)

end Template

namespace Edit

/-- What the edits of the structure do to a well-formed template.  An insertion applies exactly if
its address resolves (`resolve`) to a text, and it puts the two halves of this text, with a
conditional of empty texts between them, in its place.  A deletion applies exactly if its address
resolves to a conditional, and it puts one text in the place of this conditional and of the texts
next to it.  Nothing else of the stored form changes; every other node is found again, where the
changed positions lead, with its kind and, unless it is around the changed forest, with its content;
and the focus is found in the new template. -/
theorem structural_effect {t : Template} (h : t.WellFormed) (a : Address) :
    (∀ caret,
      ((∃ edited, (insertConditional a caret).apply t = .ok edited) ↔
        ∃ r, Node.resolve t.nodes a = .ok r ∧ r.node.kind = .text) ∧
      ∀ edited, (insertConditional a caret).apply t = .ok edited →
        ∃ site f s, site.Bounded ∧ t.Finds site (.text a f s) ∧
          InsertedAt t site s caret edited) ∧
    ((∃ edited, (deleteConditional a).apply t = .ok edited) ↔
      ∃ r, Node.resolve t.nodes a = .ok r ∧ r.node.kind = .conditional) ∧
    ∀ edited, (deleteConditional a).apply t = .ok edited →
      ∃ site condition consequent alternative, site.Bounded ∧
        t.Finds site (.conditional a condition consequent alternative) ∧
        DeletedAt t site edited := by
  refine ⟨fun caret => ⟨?_, fun edited hinsert => ?_⟩, ?_, fun edited hdelete => ?_⟩
  · simp only [apply, Outcome.map_eq_ok, exists_comm, exists_and_left, exists_eq', and_true]
    exact Template.exists_insertConditional_iff
  · rw [apply, Outcome.map_eq_ok] at hinsert
    obtain ⟨made, hmade, rfl⟩ := hinsert
    exact Template.insertedAt_of_eq_ok h hmade
  · simp only [apply, Outcome.map_eq_ok, exists_comm, exists_and_left, exists_eq', and_true]
    exact Template.exists_deleteConditional_iff
  · rw [apply, Outcome.map_eq_ok] at hdelete
    obtain ⟨made, hmade, rfl⟩ := hdelete
    exact Template.deletedAt_of_eq_ok h hmade

/-- A text inside of the conditional behind the changed nodes is found two places on after an
insertion, and two places back after a deletion that joins two texts. -/
theorem structural_effect_behind :
    let t := Template.ofContents [.conditional []
      [.text "ab", .conditional [] [.text "q"] [], .text "y", .conditional [.text "z"] [] []] []]
    let insert : Edit := .insertConditional ⟨"/0-if-then/0-text"⟩ 1
    let delete : Edit := .deleteConditional ⟨"/0-if-then/1-if"⟩
    t.WellFormed ∧
      (∃ edited n, insert.apply t = .ok edited ∧
        edited.template.Finds ⟨[(0, .consequent), (5, .condition)], 0⟩ n ∧
        n.content = .text "z") ∧
      ∃ edited n b, delete.apply t = .ok edited ∧ edited.focus = some ⟨b, 2⟩ ∧
        edited.template.Finds ⟨[(0, .consequent)], 0⟩ (.text b (.of "aby") "aby") ∧
        edited.template.Finds ⟨[(0, .consequent), (1, .condition)], 0⟩ n ∧
        n.content = .text "z" := by
  intro t insert delete
  have h : t.WellFormed := Template.ofContents_wellFormed _
  have hz : t.Finds ⟨[(0, .consequent), (3, .condition)], 0⟩
      (.text ⟨"/0-if-then/3-if-cond/0-text"⟩ (.of "z") "z") := h.finds (by decide +kernel)
  -- Its path goes through the changed forest behind the changed nodes.
  have hthrough : ∀ i, Site.through [(0, .consequent)] ⟨[(0, .consequent), (3, .condition)], 0⟩ =
      some i → i = 3 := fun i hi => (Option.some.inj hi).symm
  have haround : ¬ Site.Around ⟨[(0, .consequent), (3, .condition)], 0⟩ [(0, .consequent)] := by
    rintro ⟨b, rest, hway⟩
    exact absurd (congrArg List.length hway) (by simp)
  have hbounded : ∀ i < 4, Site.Bounded ⟨[(0, .consequent)], i⟩ := by
    intro i hi
    simp only [Site.Bounded, List.forall_mem_singleton, indexBound, UInt64.size]
    omega
  have hinsert : (insert.apply t).toOption.isSome = true := by decide +kernel
  have hdelete : (delete.apply t).toOption.isSome = true := by decide +kernel
  refine ⟨h, ?_, ?_⟩
  · cases hedited : insert.apply t with
    | error e =>
      rw [hedited] at hinsert
      exact absurd hinsert Bool.false_ne_true
    | ok edited =>
      have haddress : (⟨"/0-if-then/0-text"⟩ : Address) =
          Site.address ⟨[(0, .consequent)], 0⟩ .text := by decide +kernel
      obtain ⟨site, f, s, hsite, hfinds, ⟨first, second, -, -, hspliced⟩, -⟩ :=
        ((structural_effect h _).1 1).2 edited hedited
      obtain rfl : site = ⟨[(0, .consequent)], 0⟩ := Site.address_inj hsite
        (hbounded 0 (by decide)) (hfinds.address.symm.trans haddress)
      obtain ⟨n, hn, -, hcontent, -⟩ := hspliced.kept _ _ hz fun i hi => by
        rw [hthrough i hi]
        decide
      exact ⟨edited, n, rfl, hn, hcontent haround⟩
  · cases hedited : delete.apply t with
    | error e =>
      rw [hedited] at hdelete
      exact absurd hdelete Bool.false_ne_true
    | ok edited =>
      have haddress : (⟨"/0-if-then/1-if"⟩ : Address) =
          Site.address ⟨[(0, .consequent)], 1⟩ .conditional := by decide +kernel
      obtain ⟨site, c, th, el, hsite, hfinds, hspliced, b, hfocus, hmade⟩ :=
        (structural_effect h _).2.2 edited hedited
      obtain rfl : site = ⟨[(0, .consequent)], 1⟩ := Site.address_inj hsite
        (hbounded 1 (by decide)) (hfinds.address.symm.trans haddress)
      have hcaret : ((Site.textBefore ⟨[(0, .consequent)], 1⟩ t.nodes).getD "").length = 2 := by
        decide +kernel
      have hjoined : Site.joined ⟨[(0, .consequent)], 1⟩ t.nodes = "aby" := by decide +kernel
      have htexts : Site.texts ⟨[(0, .consequent)], 1⟩ t.nodes = 2 := by decide +kernel
      obtain ⟨n, hn, -, hcontent, -⟩ := hspliced.kept _ _ hz fun i hi => by
        rw [hthrough i hi]
        decide +kernel
      rw [hcaret] at hfocus
      rw [hjoined] at hmade
      rw [htexts] at hn
      exact ⟨edited, n, b, rfl, hfocus, hmade, hn, hcontent haround⟩

end Edit

/-! ## Deleting what was inserted -/

namespace Template

/-- The template with the text at a `Site` cut in two around a new conditional. -/
def split (t : Template) (site : Site) (first second : String) : Template :=
  .refresh ⟨site.splice site.index (site.index + 1)
    [.ofText first, .emptyConditional, .ofText second] t.nodes⟩

section

variable {t : Template} {site : Site} {n : Node} (first second : String)

theorem getElem?_split (hn : (site.siblings t.nodes)[site.index]? = some n) {i : Nat} {m : Node}
    (hm : [.ofText first, .emptyConditional, .ofText second][i]? = some m) :
    (site.siblings (t.split site first second).nodes)[site.index + i]? =
      some (m.refresh (Address.root.along site.way) (site.index + i)) :=
  (finds_refresh (getElem?_splice hn (Nat.le_refl _) hm _)).stands

/-- `conditionalTarget` finds the new conditional by its address, right behind the first half. -/
theorem conditionalTarget_split (hn : (site.siblings t.nodes)[site.index]? = some n)
    (hbehind : Site.Bounded ⟨site.way, site.index + 1⟩) :
    (t.split site first second).conditionalTarget
      (Site.address ⟨site.way, site.index + 1⟩ .conditional) =
        .ok ⟨site.way, site.index + 1⟩ := by
  have hnew := getElem?_split first second hn (i := 1) rfl
  have hkind := Node.kind_refresh (Address.root.along site.way) (site.index + 1) .emptyConditional
  refine conditionalTarget_eq_ok.mpr ⟨_, Node.siteOf_eq_ok.mpr ⟨hbehind, hnew, ?_⟩, hkind⟩
  rw [hkind]
  rfl

theorem textBefore_split (hn : (site.siblings t.nodes)[site.index]? = some n) :
    Site.textBefore ⟨site.way, site.index + 1⟩ (t.split site first second).nodes = some first := by
  have hfirst : (Site.siblings ⟨site.way, site.index + 1⟩
      (t.split site first second).nodes)[site.index]? = _ :=
    getElem?_split first second hn (i := 0) rfl
  rw [Site.textBefore_eq rfl hfirst, Node.text?_refresh]
  rfl

theorem textAfter_split (hn : (site.siblings t.nodes)[site.index]? = some n) :
    Site.textAfter ⟨site.way, site.index + 1⟩ (t.split site first second).nodes = some second := by
  have hsecond : (Site.siblings ⟨site.way, site.index + 1⟩
      (t.split site first second).nodes)[site.index + 2]? = _ :=
    getElem?_split first second hn (i := 2) rfl
  rw [Site.textAfter_eq hsecond, Node.text?_refresh]
  rfl

/-- Joining the halves of `split` again gives the template back. -/
theorem WellFormed.refresh_splice_split (h : t.WellFormed)
    (hn : (site.siblings t.nodes)[site.index]? = some n)
    (htext : n.text? = some (first ++ second)) :
    refresh ⟨site.splice site.index (site.index + 3) [.ofText (first ++ second)]
      (t.split site first second).nodes⟩ = t := by
  have hcontent : (Node.ofText (first ++ second)).content = n.content := by
    cases n with
    | text a f s => rw [Option.some.inj htext]; rfl
    | conditional a c th el => exact absurd htext nofun
  -- Only the second `splice` shows, and that one puts the old text in its own place.
  refine Eq.trans ?_ (h.refresh_splice_self hn hcontent)
  exact h.refresh_splice_refresh hn (Nat.le_refl _) (List.cons_ne_nil _ _)
    (Node.fill_content_halves first second) [.ofText (first ++ second)]

end

/-- A text of a well-formed template can always be split around a new conditional, and deleting
that conditional gives the template back, with every address and fingerprint, and the caret
at the place of the split.  This needs nothing of what stands next to the text, only that the
position behind the text can be written in 64 bits. -/
theorem delete_insertConditional {t : Template} (h : t.WellFormed) {a : Address} {r : Resolved}
    {s : String} (hr : Node.resolve t.nodes a = .ok r) (htext : r.node.text? = some s)
    (hindex : r.index + 1 < indexBound) (caret : Nat) :
    ∃ inserted, t.insertConditional a caret = .ok inserted ∧
      inserted.1.deleteConditional (a.sibling (r.index + 1) .conditional) =
        .ok (t, ⟨a, min caret s.length⟩) := by
  obtain ⟨site, n, hbounded, hn, rfl, rfl⟩ := Node.resolve_eq_ok.mp hr
  have htarget : t.textTarget (site.address n.kind) = .ok (site, s) :=
    textTarget_eq_ok.mpr ⟨n, Node.siteOf_eq_ok.mpr ⟨hbounded, hn, rfl⟩, htext⟩
  have hhalves : (cutAt s caret).1 ++ (cutAt s caret).2 = s := cutAt_append s caret
  have hrestored := h.refresh_splice_split _ _ hn (htext.trans (congrArg some hhalves.symm))
  refine ⟨(t.split site (cutAt s caret).1 (cutAt s caret).2, _),
    insertConditional_eq_ok.mpr ⟨site, s, htarget, rfl⟩, ?_⟩
  rw [Site.sibling_address]
  refine deleteConditional_eq_ok.mpr
    ⟨_, conditionalTarget_split _ _ hn ⟨hbounded.1, hindex⟩, ?_⟩
  rw [Site.seam, textBefore_split _ _ hn, textAfter_split _ _ hn]
  simp only [Option.isSome_some, if_true, Option.getD_some]
  rw [length_cutAt, clampCaret, Site.sibling_address, Node.kind_of_text? htext]
  exact congrArg (fun back => (back, _)) hrestored.symm

/-- A text between another text and a conditional, split inside and at its end. -/
theorem delete_insertConditional_between :
    let t := Template.ofContents
      [.conditional [] [.text "a", .text "bcd", .conditional [] [] [], .text "e"] []]
    let a : Address := ⟨"/0-if-then/1-text"⟩
    let n : Node := .text a (.of "bcd") "bcd"
    let siblings := Node.forestAt t.nodes [(0, .consequent)]
    t.WellFormed ∧ Node.resolve t.nodes a = .ok ⟨n, siblings, 1⟩ ∧ n.text? = some "bcd" ∧
      1 + 1 < indexBound ∧
      (∃ inserted, t.insertConditional a 2 = .ok inserted ∧
        inserted.1.deleteConditional ⟨"/0-if-then/2-if"⟩ = .ok (t, ⟨a, 2⟩)) ∧
      ∃ inserted, t.insertConditional a 9 = .ok inserted ∧
        inserted.1.deleteConditional ⟨"/0-if-then/2-if"⟩ = .ok (t, ⟨a, 3⟩) := by
  intro t a n siblings
  have h : t.WellFormed := ofContents_wellFormed _
  have hbound : 1 + 1 < indexBound := by decide
  have hr : Node.resolve t.nodes a = .ok ⟨n, siblings, 1⟩ := by
    have hn : (Site.siblings ⟨[(0, .consequent)], 1⟩ t.nodes)[1]? = some n := by decide +kernel
    refine (h.finds hn).resolves ?_
    simp only [Site.Bounded, List.forall_mem_singleton, indexBound, UInt64.size]
    omega
  have hsibling : a.sibling (1 + 1) .conditional = ⟨"/0-if-then/2-if"⟩ := by decide +kernel
  refine ⟨h, hr, rfl, hbound, ?_, ?_⟩
  · rw [← hsibling]
    exact delete_insertConditional h hr rfl hbound 2
  · rw [← hsibling]
    exact delete_insertConditional h hr rfl hbound 9

end Template

end MessageTemplate
