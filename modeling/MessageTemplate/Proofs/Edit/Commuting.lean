/-
Edits in different places can be made in either order.

On a well-formed template an edit is a local matter (`exists_exchange`).  It sees the node that it
is meant for and the siblings of that node, it puts another forest in the place of these siblings,
and nothing else has to be computed anew.  So two edits whose nodes are owned by forests that lie in
different parts of the tree do not notice each other: each gives the focus or the refusal that it
would give alone, and the template that both leave is the same in either order
(`commute_of_parted`).

Edits of texts are more local still.  They see one text and change one text, and neither the number
nor the kinds of any siblings; two of them for different addresses do not notice each other wherever
they are, be it next to each other or one of them inside what the other takes for a conditional
(`commute_of_isText`).
-/
import MessageTemplate.Proofs.Edit.Focus
import MessageTemplate.Proofs.Tree.Apart

set_option autoImplicit false

namespace MessageTemplate

/-! ## What an edit comes to -/

namespace Edit

/-- What an `Edit` answers: where editing goes on if the edit decides it, or why the edit does not
apply. -/
def answer (e : Edit) (t : Template) : Except EditError (Option Focus) :=
  (e.apply t).map Edited.focus

/-- The template that an `Edit` leaves; one that does not apply leaves the template as it was. -/
def leave (e : Edit) (t : Template) : Template :=
  match e.apply t with
  | .ok edited => edited.template
  | .error _ => t

/-- An edit of a text, `insertText` or `replaceText`, which leaves the structure alone. -/
def IsText : Edit → Prop
  | .insertText _ _ _ => True
  | .replaceText _ _ => True
  | .insertConditional _ _ => False
  | .deleteConditional _ => False

/-- An edit leaves a well-formed template well formed, be it that it applies or not, so another edit
can follow. -/
theorem leave_wellFormed {t : Template} (h : t.WellFormed) (e : Edit) :
    (e.leave t).WellFormed := by
  rw [leave]
  split
  case h_1 edited he => exact apply_wellFormed h he
  case h_2 => exact h

end Edit

/-! ## What an edit sees of an address -/

/-- Of the node that was found, `textTarget` looks only at the text: two trees in which an address
leads to the same text, or to the same refusal, are the same to such an edit. -/
theorem Template.textTarget_congr {t t' : Template} {a : Address}
    (h : (Node.siteOf t'.nodes a).map (fun v => (v.1, v.2.text?)) =
      (Node.siteOf t.nodes a).map fun v => (v.1, v.2.text?)) :
    t'.textTarget a = t.textTarget a := by
  have hseen : ∀ t : Template, t.textTarget a =
      match (Node.siteOf t.nodes a).map fun v => (v.1, v.2.text?) with
      | .error cause => .error (.unresolved cause)
      | .ok (site, some s) => .ok (site, s)
      | .ok (_, none) => .error (.notText a) := by
    intro t
    rw [textTarget, target]
    rcases Node.siteOf t.nodes a with cause | ⟨site, n⟩
    · rfl
    · cases n with
      | text _ _ s => rfl
      | conditional _ _ _ _ => rfl
  rw [hseen, hseen, h]

namespace Template

/-- What `siteOf` finds at the address of a site stands at that site: a site whose positions have 64
bits is told by its address (`Site.address_inj`). -/
theorem eq_site_of_siteOf {forest : List Node} {s site : Site} {k : Kind} {n : Node}
    (hs : s.Bounded) (h : Node.siteOf forest (s.address k) = .ok (site, n)) : site = s := by
  obtain ⟨hsite, -, ha⟩ := Node.siteOf_eq_ok.mp h
  exact Site.address_inj hsite hs ha.symm

end Template

/-! ## Edits are local -/

namespace Edit

section

variable {e : Edit} {s : Site} {found : Except AddressError (Site × Node)} {siblings : List Node}

/-- For an edit that makes something of its `target`, it is enough to look at what it makes.
Whether it applies depends on what its address leads to, and this is given. -/
theorem exists_exchange_of_map {made : Template → Site × Node → Edited}
    (happly : ∀ t, e.apply t = (t.target e.kind e.address).map (made t))
    (hmade : ∀ v, found = .ok v → ∃ (f : List Node → List Node) (focus : Option Focus),
      ∀ t : Template, t.WellFormed → s.siblings t.nodes = siblings →
        made t v = ⟨⟨Node.exchange f t.nodes s.way⟩, focus⟩) :
    ∃ (reply : Except EditError (Option Focus)) (f : List Node → List Node),
      ∀ t : Template, t.WellFormed → Node.siteOf t.nodes e.address = found →
        s.siblings t.nodes = siblings →
          e.answer t = reply ∧ e.leave t = ⟨Node.exchange f t.nodes s.way⟩ := by
  cases hseen : e.kind.demand e.address found with
  | error cause =>
    -- An edit that is refused exchanges nothing.
    refine ⟨.error cause, id, fun t _ hfound _ => ?_⟩
    have he : e.apply t = .error cause := by
      rw [happly, Template.target, hfound, hseen]
      rfl
    rw [answer, leave, he, Node.exchange_id]
    exact ⟨rfl, rfl⟩
  | ok v =>
    obtain ⟨f, focus, hf⟩ := hmade v (Kind.demand_eq_ok.mp hseen).1
    refine ⟨.ok focus, f, fun t h hfound hsiblings => ?_⟩
    have he : e.apply t = .ok ⟨⟨Node.exchange f t.nodes s.way⟩, focus⟩ := by
      rw [happly, Template.target, hfound, hseen, Except.map, hf t h hsiblings]
    rw [answer, leave, he]
    exact ⟨rfl, rfl⟩

end

/-- An edit is an `exchange` of the forest that owns its node.  How it does that, and what it
answers, is settled by what its address leads to and by the siblings there; so it is the same in
every well-formed template in which both are the same. -/
theorem exists_exchange (e : Edit) {s : Site} {found : Except AddressError (Site × Node)}
    (hsite : ∀ site n, found = .ok (site, n) → site = s) (siblings : List Node) :
    ∃ (reply : Except EditError (Option Focus)) (f : List Node → List Node),
      ∀ t : Template, t.WellFormed → Node.siteOf t.nodes e.address = found →
        s.siblings t.nodes = siblings →
          e.answer t = reply ∧ e.leave t = ⟨Node.exchange f t.nodes s.way⟩ := by
  cases e with
  | insertText a caret literal =>
    refine exists_exchange_of_map
      (fun t => (apply_insertText a caret literal t).trans Outcome.map_map) fun v hv => ?_
    obtain rfl := hsite v.1 v.2 hv
    exact ⟨_, _, fun t _ _ => rfl⟩
  | replaceText a text =>
    refine exists_exchange_of_map
      (fun t => (apply_replaceText a text t).trans Outcome.map_map) fun v hv => ?_
    obtain rfl := hsite v.1 v.2 hv
    exact ⟨_, _, fun t _ _ => rfl⟩
  | insertConditional a caret =>
    refine exists_exchange_of_map
      (fun t => (apply_insertConditional a caret t).trans Outcome.map_map) fun v hv => ?_
    obtain rfl := hsite v.1 v.2 hv
    let old := v.2.text?.getD ""
    refine ⟨fun owner => Node.refreshForest (Address.root.along v.1.way)
        (owner.take v.1.index ++
          [.ofText (cutAt old caret).1, .emptyConditional, .ofText (cutAt old caret).2] ++
          owner.drop (v.1.index + 1)),
      some ⟨((a.sibling (v.1.index + 1) .conditional).branch .condition).child 0 .text, 0⟩,
      fun t h _ => ?_⟩
    rw [Site.splice, Site.exchange, h.refresh_exchange]
  | deleteConditional a =>
    refine exists_exchange_of_map
      (fun t => (apply_deleteConditional a t).trans Outcome.map_map) fun v hv => ?_
    obtain rfl := hsite v.1 v.2 hv
    -- The texts next to the conditional are those next to its position among the `siblings`.
    let here : Site := ⟨[], v.1.index⟩
    refine ⟨fun owner => Node.refreshForest (Address.root.along v.1.way)
        (owner.take (here.seam siblings) ++
          [.ofText ((here.textBefore siblings).getD "" ++ (here.textAfter siblings).getD "")] ++
          owner.drop (if (here.textAfter siblings).isSome then v.1.index + 2 else v.1.index + 1)),
      some ⟨a.sibling (here.seam siblings) .text, ((here.textBefore siblings).getD "").length⟩,
      fun t h hsiblings => ?_⟩
    subst hsiblings
    rw [Site.splice, Site.exchange, h.refresh_exchange]
    rfl

/-- Two edits whose addresses are `Parted` do not notice each other.  By `exists_exchange` each
exchanges a forest, and what it looks at is outside of the forest that the other one exchanges. -/
theorem commute_of_parted {t : Template} (h : t.WellFormed) {e e' : Edit}
    (hparted : e.address.Parted e'.address) :
    e'.answer (e.leave t) = e'.answer t ∧ e.answer (e'.leave t) = e.answer t ∧
      e'.leave (e.leave t) = e.leave (e'.leave t) := by
  obtain ⟨s, s', k, k', ⟨hs, ha⟩, ⟨hs', ha'⟩, hapart⟩ := hparted.sites
  have hsite : ∀ site n, Node.siteOf t.nodes e.address = .ok (site, n) → site = s := by
    rw [ha]
    exact fun site n => Template.eq_site_of_siteOf hs
  have hsite' : ∀ site n, Node.siteOf t.nodes e'.address = .ok (site, n) → site = s' := by
    rw [ha']
    exact fun site n => Template.eq_site_of_siteOf hs'
  obtain ⟨reply, f, hf⟩ := e.exists_exchange hsite (s.siblings t.nodes)
  obtain ⟨reply', f', hf'⟩ := e'.exists_exchange hsite' (s'.siblings t.nodes)
  obtain ⟨hanswer, hleave⟩ := hf t h rfl rfl
  obtain ⟨hanswer', hleave'⟩ := hf' t h rfl rfl
  -- Each edit finds in the template that the other one leaves what it found before.
  have hafter := hf (e'.leave t) (e'.leave_wellFormed h)
    (by rw [hleave', ha, Node.siteOf_exchange_of_apart f' hs k hapart.symm])
    (by rw [hleave', Site.siblings, Node.forestAt_exchange_of_apart hapart.symm, Site.siblings])
  have hafter' := hf' (e.leave t) (e.leave_wellFormed h)
    (by rw [hleave, ha', Node.siteOf_exchange_of_apart f hs' k' hapart])
    (by rw [hleave, Site.siblings, Node.forestAt_exchange_of_apart hapart, Site.siblings])
  refine ⟨hafter'.1.trans hanswer'.symm, hafter.1.trans hanswer.symm, ?_⟩
  rw [hafter.2, hafter'.2, hleave, hleave', Node.exchange_comm hapart]

end Edit

/-! ## Edits of texts -/

namespace Node

variable (x : String)

/-- Exchanging its text leaves the kind of a node. -/
theorem kind_setText (n : Node) : (n.setText x).kind = n.kind := by
  cases n with
  | text a f s => rfl
  | conditional a c t e => rfl

/-- Exchanging its text leaves the branches of a node: a text has none, and a conditional is left as
it is. -/
theorem branch_setText (n : Node) (b : Branch) : (n.setText x).branch b = n.branch b := by
  cases n with
  | text a f s => rfl
  | conditional a c t e => rfl

/-- A node keeps its text under `setBranch`, since a conditional has none. -/
theorem text?_setBranch (n : Node) (b : Branch) (forest : List Node) :
    (n.setBranch b forest).text? = n.text? := by
  cases n with
  | text a f s => rfl
  | conditional a c t e => cases b <;> rfl

/-- On one node, `setText` and `setBranch` can be done in either order, as each does something to
one kind only. -/
theorem setText_setBranch (n : Node) (b : Branch) (forest : List Node) :
    (n.setBranch b forest).setText x = (n.setText x).setBranch b forest := by
  cases n with
  | text a f s => rfl
  | conditional a c t e => cases b <;> rfl

/-- A conditional has no text to exchange. -/
theorem setText_of_conditional {n : Node} (h : n.kind = .conditional) : n.setText x = n := by
  cases n with
  | text a f s => exact absurd h nofun
  | conditional a c t e => rfl

/-- Exchanges the text of the node at a position, if it is one: `setText` at that place of a
forest. -/
def setTextOf (x : String) (index : Nat) (owner : List Node) : List Node :=
  owner.modify index (setText x)

/-- When `setTextOf` is used somewhere below a node, the branch of the node is the one with that
text exchanged; if the node has no branches, nothing is. -/
theorem branch_setBranch_setTextOf (index : Nat) (way : Way) (n : Node) (b : Branch) :
    (n.setBranch b (exchange (setTextOf x index) (n.branch b) way)).branch b =
      exchange (setTextOf x index) (n.branch b) way := by
  refine branch_setBranch_of_nil n b fun hnil => ?_
  rw [hnil]
  cases way with
  | nil => rw [exchange, setTextOf, List.modify_nil]
  | cons step rest => rw [exchange_nil_cons]

/-- At the end of its way an address is looked up like any segment, and what is found has the empty
way in front of it. -/
theorem followToSite_nil (a path : Address) (forest : List Node) (index : Nat) (k : Kind) :
    followToSite a path forest (Site.segments ⟨[], index⟩ k) =
      ((⟨index, k, none⟩ : Segment).lookUp path forest).map fun n => (⟨[], index⟩, n) := by
  rw [Site.segments, List.map_nil, List.nil_append, followToSite]
  cases Segment.lookUp ⟨index, k, none⟩ path forest with
  | error e => rfl
  | ok n => rfl

/-- What `followToSite` sees of the way to a node and of its text while another text is exchanged,
or while the address speaks of a conditional.  The induction is on the way to the node. -/
theorem seen_setTextOf (a : Address) {index : Nat} {k : Kind} {index' : Nat} {way : Way} :
    ∀ {way' : Way}, (⟨way, index⟩ : Site) ≠ ⟨way', index'⟩ ∨ k = .conditional →
      ∀ (path : Address) (forest : List Node),
        (followToSite a path (exchange (setTextOf x index') forest way')
            (Site.segments ⟨way, index⟩ k)).map (fun v => (v.1, v.2.text?)) =
          (followToSite a path forest (Site.segments ⟨way, index⟩ k)).map
            fun v => (v.1, v.2.text?) := by
  induction way with
  | nil =>
    intro way' hne path forest
    rw [followToSite_nil, followToSite_nil]
    cases way' with
    | nil =>
      rw [exchange, setTextOf, lookUp_modify (kind_setText x)]
      cases hn : Segment.lookUp ⟨index, k, none⟩ path forest with
      | error e => rfl
      | ok n =>
        show Except.ok (_, (if index' = index then n.setText x else n).text?) = .ok (_, n.text?)
        by_cases hindex : index' = index
        · -- The node has the position of the text, so the address speaks of a conditional.
          have hk : k = .conditional := hne.resolve_left fun h => h (by rw [hindex])
          have hkind : n.kind = .conditional := (lookUp_eq_ok.mp hn).2.trans hk
          rw [if_pos hindex, setText_of_conditional x hkind]
        · rw [if_neg hindex]
    | cons step' rest' =>
      rw [exchange, lookUp_modify fun n => n.kind_setBranch step'.2 _]
      cases Segment.lookUp ⟨index, k, none⟩ path forest with
      | error e => rfl
      | ok n =>
        show Except.ok (_, (if step'.1 = index then n.setBranch step'.2 _ else n).text?) =
          .ok (_, n.text?)
        split
        case isTrue => rw [text?_setBranch]
        case isFalse => rfl
  | cons step rest ih =>
    intro way' hne path forest
    have hseen : ∀ r : Except AddressError (Site × Node),
        (r.map fun v => (v.1.below step, v.2)).map (fun v => (v.1, v.2.text?)) =
          (r.map fun v => (v.1, v.2.text?)).map fun v => (v.1.below step, v.2) := by
      intro r
      cases r with
      | error e => rfl
      | ok v => rfl
    rw [followToSite_cons, followToSite_cons]
    cases way' with
    | nil =>
      rw [exchange, setTextOf, lookUp_modify (kind_setText x)]
      cases Segment.lookUp ⟨step.1, .conditional, some step.2⟩ path forest with
      | error e => rfl
      | ok n =>
        show Except.map _ (Except.map _ (followToSite a _
          ((if index' = step.1 then n.setText x else n).branch step.2) _)) =
            Except.map _ (Except.map _ (followToSite a _ (n.branch step.2) _))
        split
        case isTrue => rw [branch_setText]
        case isFalse => rfl
    | cons step' rest' =>
      obtain ⟨i, b⟩ := step
      obtain ⟨j, c⟩ := step'
      rw [exchange, lookUp_modify fun n => n.kind_setBranch c _]
      cases Segment.lookUp ⟨i, .conditional, some b⟩ path forest with
      | error e => rfl
      | ok n =>
        show Except.map _ (Except.map _ (followToSite a _
          ((if j = i then n.setBranch c _ else n).branch b) _)) =
            Except.map _ (Except.map _ (followToSite a _ (n.branch b) _))
        by_cases hij : j = i
        · rw [if_pos hij]
          by_cases hbc : c = b
          · subst hbc hij
            rw [branch_setBranch_setTextOf, hseen, hseen, ih]
            refine hne.imp_left fun h heq => h ?_
            rw [Site.mk.injEq] at heq ⊢
            exact ⟨congrArg _ heq.1, heq.2⟩
          · rw [branch_setBranch_of_ne hbc]
        · rw [if_neg hij]

/-- Two uses of `setTextOf` on texts that stand one above the other: the way to the one below leads
through a node that may be the one above. -/
theorem setTextOf_comm_above (y : String) (index index' : Nat) (step : Nat × Branch) (rest : Way)
    (forest : List Node) :
    setTextOf x index (exchange (setTextOf y index') forest (step :: rest)) =
      exchange (setTextOf y index') (setTextOf x index forest) (step :: rest) := by
  simp only [exchange, setTextOf]
  by_cases hindex : index = step.1
  · subst hindex
    rw [List.modify_modify_eq, List.modify_modify_eq]
    congr 1
    funext n
    simp only [Function.comp_apply]
    rw [branch_setText, setText_setBranch]
  · exact List.modify_modify_ne _ _ forest (Ne.symm hindex)

/-- Two texts at different sites can be exchanged by `setTextOf` in either order.  The induction is
on the way to the first; they part on the way, or one stands above the other, or they are
siblings. -/
theorem exchange_setTextOf_comm (y : String) {index index' : Nat} {way : Way} :
    ∀ {way' : Way}, (⟨way, index⟩ : Site) ≠ ⟨way', index'⟩ → ∀ forest : List Node,
      exchange (setTextOf x index) (exchange (setTextOf y index') forest way') way =
        exchange (setTextOf y index') (exchange (setTextOf x index) forest way) way' := by
  induction way with
  | nil =>
    intro way' hne forest
    cases way' with
    | nil =>
      have hindex : index ≠ index' := fun h => hne (by rw [h])
      exact List.modify_modify_ne _ _ forest (Ne.symm hindex)
    | cons step' rest' => exact setTextOf_comm_above x y index index' step' rest' forest
  | cons step rest ih =>
    intro way' hne forest
    cases way' with
    | nil => exact (setTextOf_comm_above y x index' index step rest forest).symm
    | cons step' rest' =>
      obtain ⟨i, b⟩ := step
      obtain ⟨j, c⟩ := step'
      simp only [exchange]
      by_cases hij : i = j
      · subst hij
        rw [List.modify_modify_eq, List.modify_modify_eq]
        congr 1
        funext n
        simp only [Function.comp_apply]
        by_cases hbc : b = c
        · subst hbc
          have hrest : (⟨rest, index⟩ : Site) ≠ ⟨rest', index'⟩ := by
            refine fun heq => hne ?_
            rw [Site.mk.injEq] at heq ⊢
            exact ⟨congrArg _ heq.1, heq.2⟩
          rw [branch_setBranch_setTextOf, branch_setBranch_setTextOf, setBranch_setBranch,
            setBranch_setBranch, ih hrest]
        · rw [branch_setBranch_of_ne hbc, branch_setBranch_of_ne (Ne.symm hbc), setBranch_comm hbc]
      · exact List.modify_modify_ne _ _ forest (Ne.symm hij)

end Node

namespace Template

/-- `setTextAt` does not show to an edit of a text with another address. -/
theorem textTarget_setTextAt {site : Site} {a : Address} (h : a ≠ site.address .text)
    (t : Template) (x : String) : (t.setTextAt site x).textTarget a = t.textTarget a := by
  refine textTarget_congr ?_
  rw [Node.siteOf, Node.siteOf]
  cases hsegments : a.segments with
  | error cause => rfl
  | ok path =>
    obtain ⟨s, k, hs, rfl, rfl⟩ := Site.of_segments_eq_ok hsegments
    refine Node.seen_setTextOf x _ ?_ .root t.nodes
    cases k with
    | conditional => exact .inr rfl
    | text => exact .inl fun (heq : s = site) => h (by rw [heq])

/-- In a template two uses of `setTextAt` at different sites can be made in either order. -/
theorem setTextAt_comm {site site' : Site} (h : site ≠ site') (t : Template) (x y : String) :
    (t.setTextAt site' y).setTextAt site x = (t.setTextAt site x).setTextAt site' y :=
  congrArg Template.mk (Node.exchange_setTextOf_comm x y h t.nodes)

end Template

namespace Edit

/-- An edit of a text (`IsText`) makes another text of it and takes its focus from it. -/
theorem IsText.exists_new {e : Edit} (h : e.IsText) :
    ∃ (new : String → String) (focus : String → Option Focus), ∀ t : Template,
      e.answer t = (t.textTarget e.address).map (fun v => focus v.2) ∧
        e.leave t =
          match t.textTarget e.address with
          | .ok v => t.setTextAt v.1 (new v.2)
          | .error _ => t := by
  cases e with
  | insertText a caret literal =>
    refine ⟨fun old => (cutAt old caret).1 ++ literal ++ (cutAt old caret).2,
      fun old => some ⟨a, clampCaret old caret + literal.length⟩, fun t => ?_⟩
    rw [answer, leave, apply_insertText, address]
    cases t.textTarget a with
    | error cause => exact ⟨rfl, rfl⟩
    | ok v => exact ⟨rfl, rfl⟩
  | replaceText a text =>
    refine ⟨fun _ => text, fun _ => none, fun t => ?_⟩
    rw [answer, leave, apply_replaceText, address]
    cases t.textTarget a with
    | error cause => exact ⟨rfl, rfl⟩
    | ok v => exact ⟨rfl, rfl⟩
  | insertConditional a caret => exact h.elim
  | deleteConditional a => exact h.elim

theorem IsText.textTarget_leave {e : Edit} (h : e.IsText) {a : Address} (hne : a ≠ e.address)
    (t : Template) : (e.leave t).textTarget a = t.textTarget a := by
  obtain ⟨new, focus, hnew⟩ := h.exists_new
  rw [(hnew t).2]
  cases htarget : t.textTarget e.address with
  | error cause => rfl
  | ok v =>
    obtain ⟨-, -, -, ha⟩ := Template.site_of_textTarget htarget
    exact Template.textTarget_setTextAt (ha ▸ hne) t _

/-- Two edits of texts (`IsText`) whose addresses are not the same do not notice each other. -/
theorem commute_of_isText {e e' : Edit} (h : e.IsText) (h' : e'.IsText)
    (hne : e.address ≠ e'.address) (t : Template) :
    e'.answer (e.leave t) = e'.answer t ∧ e.answer (e'.leave t) = e.answer t ∧
      e'.leave (e.leave t) = e.leave (e'.leave t) := by
  obtain ⟨new, focus, hnew⟩ := h.exists_new
  obtain ⟨new', focus', hnew'⟩ := h'.exists_new
  have hafter : (e'.leave t).textTarget e.address = t.textTarget e.address :=
    h'.textTarget_leave hne t
  have hafter' : (e.leave t).textTarget e'.address = t.textTarget e'.address :=
    h.textTarget_leave hne.symm t
  refine ⟨?_, ?_, ?_⟩
  · rw [(hnew' (e.leave t)).1, hafter', (hnew' t).1]
  · rw [(hnew (e'.leave t)).1, hafter, (hnew t).1]
  · rw [(hnew' (e.leave t)).2, hafter', (hnew (e'.leave t)).2, hafter, (hnew t).2, (hnew' t).2]
    cases htarget : t.textTarget e.address with
    | error cause => rfl
    | ok v =>
      cases htarget' : t.textTarget e'.address with
      | error cause => rfl
      | ok v' =>
        obtain ⟨-, -, -, ha⟩ := Template.site_of_textTarget htarget
        obtain ⟨-, -, -, ha'⟩ := Template.site_of_textTarget htarget'
        have hsite : v.1 ≠ v'.1 := fun heq => hne (by rw [ha, ha', heq])
        exact (Template.setTextAt_comm hsite t _ _).symm

/-! ## The order of edits -/

/-- Two edits in different parts (`Parted`) of a well-formed template, or two edits of texts with
different addresses wherever they are, do not notice each other.  Each applies after the other
exactly when it applies without it, and then gives the same focus, or else the same refusal; and the
template that both leave does not depend on their order. -/
theorem commute {t : Template} (h : t.WellFormed) {e e' : Edit}
    (hplaces : e.address.Parted e'.address ∨
      (e.IsText ∧ e'.IsText ∧ e.address ≠ e'.address)) :
    e'.answer (e.leave t) = e'.answer t ∧ e.answer (e'.leave t) = e.answer t ∧
      e'.leave (e.leave t) = e.leave (e'.leave t) := by
  rcases hplaces with hparted | ⟨htext, htext', hne⟩
  · exact commute_of_parted h hparted
  · exact commute_of_isText htext htext' hne t

/-- A conditional is deleted in one branch while a text is split in another, and a text is
changed whose neighbour is changed as well. -/
theorem commute_branches :
    let t := Template.ofContents
      [.conditional [.text "ab"] [.text "c", .conditional [] [] [], .text "d"] []]
    let split : Edit := .insertConditional ⟨"/0-if-cond/0-text"⟩ 1
    let delete : Edit := .deleteConditional ⟨"/0-if-then/1-if"⟩
    let insert : Edit := .insertText ⟨"/0-if-then/0-text"⟩ 0 "x"
    let replace : Edit := .replaceText ⟨"/0-if-then/2-text"⟩ "y"
    t.WellFormed ∧ split.address.Parted delete.address ∧
      (delete.answer (split.leave t)).toOption = some (some ⟨⟨"/0-if-then/0-text"⟩, 1⟩) ∧
      delete.leave (split.leave t) = split.leave (delete.leave t) ∧
      insert.IsText ∧ replace.IsText ∧ insert.address ≠ replace.address ∧
      replace.leave (insert.leave t) = insert.leave (replace.leave t) := by
  intro t split delete insert replace
  have h : t.WellFormed := Template.ofContents_wellFormed _
  have hparted : split.address.Parted delete.address :=
    ⟨[⟨0, .conditional, some .condition⟩, ⟨0, .text, none⟩],
      [⟨0, .conditional, some .consequent⟩, ⟨1, .conditional, none⟩],
      Address.segments_eq_ok.mpr
        ⟨by simp [Segment.IsPath, indexBound, UInt64.size], by decide +kernel⟩,
      Address.segments_eq_ok.mpr
        ⟨by simp [Segment.IsPath, indexBound, UInt64.size], by decide +kernel⟩,
      0, _, _, rfl, rfl, .inr nofun⟩
  have htext : insert.IsText := trivial
  have htext' : replace.IsText := trivial
  have hne : insert.address ≠ replace.address := by decide
  obtain ⟨hanswer, -, hleave⟩ := commute h (.inl hparted)
  refine ⟨h, hparted, ?_, hleave, htext, htext', hne,
    (commute h (.inr ⟨htext, htext', hne⟩)).2.2⟩
  rw [hanswer]
  decide +kernel

end Edit

end MessageTemplate
