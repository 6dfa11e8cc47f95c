/-
The edits of a text, node by node.

An edit of a text changes one text and computes nothing anew.  It could have: putting a text in the
place of the old one and computing the whole tree anew comes to the same, because the tree around it
is well formed already (`setTextAt_eq`).  So what is known of splices holds here too, with no
position moved.

A text is spliced in its own place, so the path of any other node can only go through it if the node
is inside of it, and nothing is inside of a text.  Hence every node is found where it was, with its
address; a conditional around the text has a changed branch, and every other text is the same node
as before (`Rewritten`).
-/
import MessageTemplate.Proofs.Edit.Focus
import MessageTemplate.Proofs.Tree.Splicing
import MessageTemplate.Text.Units

set_option autoImplicit false

namespace MessageTemplate

/-! ## Carets and bytes -/

/-- Cutting a text at a caret (`cutAt`) and cutting it at the `byteOffset` of the caret is the
same. -/
theorem splitAtByte_byteOffset (s : String) (caret : Nat) :
    Text.splitAtByte s (Text.byteOffset s.toList caret) = some (cutAt s caret) := by
  have hsplit := Text.splitAtByte_append (cutAt s caret).1 (cutAt s caret).2
  rw [cutAt_append] at hsplit
  rw [Text.byteOffset_eq]
  exact hsplit

/-- `insertAtCaret`, which works on bytes, gives the text and the caret that counting characters
gives; the second cut is at a boundary because the first one was. -/
theorem insertAtCaret_eq (s : String) (caret : Nat) (literal : String) :
    Text.insertAtCaret s caret literal =
      some ((cutAt s caret).1 ++ literal ++ (cutAt s caret).2,
        clampCaret s caret + literal.length) := by
  have hoffset : Text.byteOffset s.toList caret = (cutAt s caret).1.utf8ByteSize :=
    Text.byteOffset_eq s.toList caret
  have hnew : Text.splitAtByte ((cutAt s caret).1 ++ literal ++ (cutAt s caret).2)
      (Text.byteOffset s.toList caret) =
        some ((cutAt s caret).1, literal ++ (cutAt s caret).2) := by
    rw [hoffset, String.append_assoc]
    exact Text.splitAtByte_append _ _
  rw [Text.insertAtCaret, Text.insertAtByte, splitAtByte_byteOffset, Option.map_some]
  dsimp only [Option.bind_eq_bind, Option.bind_some]
  rw [hnew, Option.bind_some, length_cutAt]

/-! ## Paths through a position -/

/-- A path goes `through` a position of a forest if it ends there or goes on below. -/
theorem Site.eq_or_below_of_through {i : Nat} {way : Way} : ∀ {s : Site},
    s.through way = some i → s = ⟨way, i⟩ ∨ ∃ b rest, s.way = way ++ (i, b) :: rest := by
  induction way with
  | nil =>
    rintro ⟨steps, index⟩ h
    cases steps with
    | nil => exact .inl (by rw [Option.some.inj h])
    | cons step rest =>
      obtain rfl := Option.some.inj h
      exact .inr ⟨step.2, rest, rfl⟩
  | cons step rest ih =>
    rintro ⟨steps, index⟩ h
    cases steps with
    | nil => exact absurd h nofun
    | cons step' rest' =>
      rw [through] at h
      by_cases hstep : step = step'
      · rw [if_pos hstep] at h
        subst hstep
        rcases ih h with heq | ⟨b, more, hmore⟩
        · obtain ⟨hway, hindex⟩ := Site.mk.inj heq
          exact .inl (by rw [hway, hindex])
        · exact .inr ⟨b, more, congrArg (step :: ·) hmore⟩
      · rw [if_neg hstep] at h
        cases h

/-- A node that another one is inside of (`below`) is a conditional. -/
theorem Node.kind_of_below {forest : List Node} {way : Way} {i : Nat} {b : Branch} {rest : Way}
    {index : Nat} {n m : Node} (hn : (forestAt forest way)[i]? = some n)
    (hm : (forestAt forest (way ++ (i, b) :: rest))[index]? = some m) : n.kind = .conditional := by
  rw [forestAt_append] at hm
  obtain ⟨n', hn', hkind, -⟩ := step_of_getElem?_forestAt hm
  obtain rfl := Option.some.inj (hn.symm.trans hn')
  exact hkind

/-! ## Exchanging a text -/

/-- `setText` puts another text in the place of a text, as far as the `contents` go. -/
theorem Node.contents_modify_setText {owner : List Node} {i : Nat} {a : Address} {f : Fingerprint}
    {old : String} (hn : owner[i]? = some (.text a f old)) (s : String) :
    contents (owner.modify i (setText s)) =
      contents (owner.take i ++ [ofText s] ++ owner.drop (i + 1)) := by
  obtain ⟨hlt, hold⟩ := List.getElem?_eq_some_iff.mp hn
  rw [List.modify_eq_take_cons_drop hlt, hold, contents_eq_map, contents_eq_map,
    List.append_assoc]
  simp only [List.map_append, List.map_cons, List.singleton_append, setText, ofText, content]

namespace Template

/-- Of two uses of `setTextAt` at one site only the second shows. -/
theorem setTextAt_setTextAt (t : Template) (site : Site) (s s' : String) :
    (t.setTextAt site s).setTextAt site s' = t.setTextAt site s' := by
  have hnode : Node.setText s' ∘ Node.setText s = Node.setText s' := by
    funext n
    cases n with
    | text a f old => rfl
    | conditional a c th el => rfl
  simp only [setTextAt, Site.exchange, Node.exchange_exchange, List.modify_modify_eq, hnode]

variable {t : Template} {site : Site} {a : Address} {f : Fingerprint} {old : String}

/-- `setTextAt` comes to the same as putting another text in the place of a text and computing
everything anew (`refresh`). -/
theorem WellFormed.setTextAt_eq (h : t.WellFormed)
    (hn : (site.siblings t.nodes)[site.index]? = some (.text a f old)) (s : String) :
    t.setTextAt site s =
      refresh ⟨site.splice site.index (site.index + 1) [.ofText s] t.nodes⟩ := by
  -- A well-formed template is what is computed from its `contents`, and the contents are the same.
  have hcontents : (t.setTextAt site s).contents =
      contents ⟨site.splice site.index (site.index + 1) [.ofText s] t.nodes⟩ :=
    Node.contents_exchange_congr site.way (Node.contents_modify_setText hn s)
  rw [refresh_eq_ofContents, ← hcontents, ofContents_contents (h.setTextAt site s)]

/-- `setTextAt` with the old text changes nothing. -/
theorem WellFormed.setTextAt_self (h : t.WellFormed)
    (hn : (site.siblings t.nodes)[site.index]? = some (.text a f old)) :
    t.setTextAt site old = t := by
  rw [h.setTextAt_eq hn]
  exact h.refresh_splice_self hn rfl

/-- No position moves when a text is exchanged, so the `Spliced` positions are renumbered by
`id`. -/
theorem WellFormed.spliced_setTextAt (h : t.WellFormed)
    (hn : (site.siblings t.nodes)[site.index]? = some (.text a f old)) (s : String) :
    t.Spliced site.way site.index (site.index + 1) [.text s] id (t.setTextAt site s) := by
  have hfilled : ∀ n ∈ [Node.ofText s], n.content.fill = n.content :=
    List.forall_mem_singleton.mpr (Node.fill_content_ofText s)
  rw [h.setTextAt_eq hn]
  refine h.spliced hn (Nat.le_refl _) (Nat.le_succ _) (List.cons_ne_nil _ _) hfilled
    (fun _ _ => rfl) fun i _ => ?_
  rw [id_eq, Nat.succ_sub (Nat.le_refl _), Nat.sub_self, List.length_singleton]

/-- What is found at one site (`Finds`) of two well-formed templates is the same node if it has the
same `content`. -/
theorem Finds.eq_of_content {t' : Template} (h : t.WellFormed) (h' : t'.WellFormed) {s : Site}
    {n n' : Node} (hn : t.Finds s n) (hn' : t'.Finds s n') (hcontent : n'.content = n.content) :
    n' = n := by
  have hplaced := Node.WellFormed.placed s.way h hn.stands
  have hplaced' := Node.WellFormed.placed s.way h' hn'.stands
  rw [← Node.refresh_eq_self hplaced, ← Node.refresh_eq_self hplaced', Node.refresh_eq_place,
    Node.refresh_eq_place, hcontent]

/-- The text at a `Site` is another one, with its fingerprint, and this is all.  Every node is found
where it was, of the same kind and with the same address.  Another text is the very same node as
before, and so is a conditional unless the text is inside of it.  Where no node was there is
none. -/
structure Rewritten (t : Template) (site : Site) (s : String) (t' : Template) : Prop where
  wellFormed : t'.WellFormed
  changed : t'.Finds site (.text (site.address .text) (.of s) s)
  kept : ∀ other n, t.Finds other n → ∃ n', t'.Finds other n' ∧ n'.kind = n.kind ∧
    n'.address = n.address ∧
      (other ≠ site → n.kind = .text ∨ ¬ other.Around site.way → n' = n)
  found : ∀ other n', t'.Finds other n' → ∃ n, t.Finds other n

theorem WellFormed.changed_setTextAt (h : t.WellFormed)
    (hn : (site.siblings t.nodes)[site.index]? = some (.text a f old)) (s : String) :
    (t.setTextAt site s).Finds site (.text (site.address .text) (.of s) s) := by
  have ha : a = site.address .text := (h.finds hn).address
  have hchanged := (h.setTextAt site s).finds (getElem?_setTextAt hn s)
  rwa [Node.setText, ha] at hchanged

/-- What is found at any site after `setTextAt`, in the words of `Rewritten`. -/
theorem WellFormed.kept_setTextAt (h : t.WellFormed)
    (hn : (site.siblings t.nodes)[site.index]? = some (.text a f old)) (s : String) {other : Site}
    {n : Node} (hother : t.Finds other n) :
    ∃ n', (t.setTextAt site s).Finds other n' ∧ n'.kind = n.kind ∧ n'.address = n.address ∧
      (other ≠ site → n.kind = .text ∨ ¬ other.Around site.way → n' = n) := by
  by_cases hsite : other = site
  · subst hsite
    obtain rfl := Option.some.inj (hn.symm.trans hother.stands)
    exact ⟨_, h.changed_setTextAt hn s, rfl, hother.address.symm, fun hne => absurd rfl hne⟩
  · have hspliced := h.spliced_setTextAt hn s
    -- Nothing is inside of a text, so the path of another node goes past it.
    have hpast : ∀ i, other.through site.way = some i → i < site.index ∨ site.index + 1 ≤ i := by
      intro i hi
      refine Nat.lt_or_gt_of_ne ?_
      rintro rfl
      rcases Site.eq_or_below_of_through hi with heq | ⟨b, rest, hway⟩
      · exact hsite heq
      · have hstands := hother.stands
        rw [Site.siblings, hway] at hstands
        cases Node.kind_of_below hn hstands
    obtain ⟨n', hn', hkind, hcontent, haddress⟩ := hspliced.kept other n hother hpast
    have hsame : other.renumber id site.way = other := Site.renumber_eq_self fun _ _ => rfl
    rw [hsame] at hn'
    refine ⟨n', hn', hkind, haddress fun _ _ => rfl, fun _ hother' => ?_⟩
    refine Finds.eq_of_content h hspliced.wellFormed hother hn' (hcontent ?_)
    rcases hother' with htext | haround
    · rintro ⟨b, rest, hway⟩
      rw [Site.siblings, hway] at hn
      rw [Node.kind_of_below hother.stands hn] at htext
      cases htext
    · exact haround

/-- Exchanging a text does to a well-formed template what `Rewritten` says.  That no node appears is
read off from the way back, which takes none away. -/
theorem WellFormed.rewritten (h : t.WellFormed)
    (hn : (site.siblings t.nodes)[site.index]? = some (.text a f old)) (s : String) :
    t.Rewritten site s (t.setTextAt site s) := by
  have hwell := h.setTextAt site s
  have hchanged := h.changed_setTextAt hn s
  refine ⟨hwell, hchanged, fun other n => h.kept_setTextAt hn s, fun other n' hn' => ?_⟩
  -- Putting the old text back leads to the old template.
  obtain ⟨n, hfound, -⟩ := hwell.kept_setTextAt hchanged.stands old hn'
  rw [setTextAt_setTextAt, h.setTextAt_self hn] at hfound
  exact ⟨n, hfound⟩

end Template

/-! ## The two edits -/

namespace Edit

/-- What `insertText` and `replaceText` do to a well-formed template, if their address resolves to a
text.  The byte of any caret is that of the end of as many characters, or of all of them, so the
bytes can be cut there, and putting in a literal byte by byte gives the same text and the same caret
as doing it by characters.  An insertion puts the literal between the two halves, and editing goes
on behind it; a replacement puts in exactly the new text.  Both change nothing else. -/
theorem text_effect {t : Template} (h : t.WellFormed) {a : Address} {r : Resolved} {s : String}
    (hr : Node.resolve t.nodes a = .ok r) (htext : r.node.text? = some s) :
    ∃ site : Site, site.Bounded ∧ t.Finds site r.node ∧ a = site.address .text ∧
      (∀ (caret : Nat) (literal : String), ∃ before after t',
        s = before ++ after ∧ before.length = min caret s.length ∧
        Text.byteOffset s.toList caret = before.utf8ByteSize ∧
        Text.splitAtByte s (Text.byteOffset s.toList caret) = some (before, after) ∧
        Text.insertAtCaret s caret literal =
          some (before ++ literal ++ after, min caret s.length + literal.length) ∧
        (insertText a caret literal).apply t =
          .ok ⟨t', some ⟨a, min caret s.length + literal.length⟩⟩ ∧
        t.Rewritten site (before ++ literal ++ after) t') ∧
      ∀ text : String, ∃ t', (replaceText a text).apply t = .ok ⟨t', none⟩ ∧
        t.Rewritten site text t' := by
  obtain ⟨node, siblings, index⟩ := r
  obtain ⟨site, hbounded, hn, ha, htarget⟩ := Template.textTarget_of_resolve hr htext
  cases node with
  | conditional b c th el => exact absurd htext nofun
  | text b f old =>
    obtain rfl := Option.some.inj htext
    refine ⟨site, hbounded, h.finds hn, ha, fun caret literal => ?_, fun text => ?_⟩
    · refine ⟨(cutAt old caret).1, (cutAt old caret).2, _, (cutAt_append old caret).symm,
        length_cutAt old caret, Text.byteOffset_eq old.toList caret,
        splitAtByte_byteOffset old caret, insertAtCaret_eq old caret literal, ?_,
        h.rewritten hn _⟩
      rw [apply_insertText, htarget]
      rfl
    · refine ⟨_, ?_, h.rewritten hn text⟩
      rw [apply_replaceText, htarget]
      rfl

/-- A literal behind a character of four bytes, and one behind the end of the text.  The text
next to the conditional stays what it is. -/
theorem text_effect_bytes :
    let t := Template.ofContents [.text "x", .conditional [.text "aé😀b"] [] []]
    let a : Address := ⟨"/1-if-cond/0-text"⟩
    let site : Site := ⟨[(1, .condition)], 0⟩
    let n : Node := .text a (.of "aé😀b") "aé😀b"
    t.WellFormed ∧ Node.resolve t.nodes a = .ok ⟨n, site.siblings t.nodes, 0⟩ ∧
      n.text? = some "aé😀b" ∧
      (∃ t', (insertText a 3 "ß").apply t = .ok ⟨t', some ⟨a, 4⟩⟩ ∧
        t'.Finds site (.text a (.of "aé😀ßb") "aé😀ßb") ∧
        t'.Finds ⟨[], 0⟩ (.text ⟨"/0-text"⟩ (.of "x") "x")) ∧
      ∃ t', (insertText a 9 "ß").apply t = .ok ⟨t', some ⟨a, 5⟩⟩ ∧
        t'.Finds site (.text a (.of "aé😀bß") "aé😀bß") := by
  intro t a site n
  have h : t.WellFormed := Template.ofContents_wellFormed _
  have hbounded : site.Bounded := by
    simp only [site, Site.Bounded, List.forall_mem_singleton, indexBound, UInt64.size]
    omega
  have hn : (site.siblings t.nodes)[site.index]? = some n := by decide +kernel
  have hr : Node.resolve t.nodes a = .ok ⟨n, site.siblings t.nodes, 0⟩ :=
    (h.finds hn).resolves hbounded
  have haddress : a = site.address .text := by decide +kernel
  have hx : t.Finds ⟨[], 0⟩ (.text ⟨"/0-text"⟩ (.of "x") "x") := h.finds (by decide +kernel)
  obtain ⟨site', hbounded', -, haddress', hinsert, -⟩ := text_effect h hr rfl
  obtain rfl : site' = site := Site.address_inj hbounded' hbounded (haddress'.symm.trans haddress)
  have hinside : Text.insertAtCaret "aé😀b" 3 "ß" = some ("aé😀ßb", 4) := by decide +kernel
  have hbehind : Text.insertAtCaret "aé😀b" 9 "ß" = some ("aé😀bß", 5) := by decide +kernel
  refine ⟨h, hr, rfl, ?_, ?_⟩
  · obtain ⟨before, after, t', -, -, -, -, hmade, happly, hrewritten⟩ := hinsert 3 "ß"
    obtain ⟨htext, hcaret⟩ := Prod.mk.inj (Option.some.inj (hmade.symm.trans hinside))
    obtain ⟨n', hn', -, -, hsame⟩ := hrewritten.kept _ _ hx
    have hchanged := hrewritten.changed
    rw [htext, ← haddress] at hchanged
    rw [hsame (by decide) (.inl rfl)] at hn'
    rw [hcaret] at happly
    exact ⟨t', happly, hchanged, hn'⟩
  · obtain ⟨before, after, t', -, -, -, -, hmade, happly, hrewritten⟩ := hinsert 9 "ß"
    obtain ⟨htext, hcaret⟩ := Prod.mk.inj (Option.some.inj (hmade.symm.trans hbehind))
    have hchanged := hrewritten.changed
    rw [htext, ← haddress] at hchanged
    rw [hcaret] at happly
    exact ⟨t', happly, hchanged⟩

end Edit

end MessageTemplate
