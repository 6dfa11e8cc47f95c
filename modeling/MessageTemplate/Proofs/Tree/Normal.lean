/-
What building a template changes of what was stored, and that computing it anew agrees with it.

Building the working form of a stored forest and stripping it again gives the forest back, but for
one thing: where a forest was empty there is now one empty text.  This is said here by
`Content.fillForest`, a function on stored forests alone, which knows of no addresses and fills
every forest where it stands.  A forest that has been through this once is not changed by it any
more, and neither is one that comes from a well-formed tree.

A working tree may have been changed in place in any way: forests emptied, nodes moved, copied or
taken from elsewhere, addresses and fingerprints out of date.  `Node.refreshForest` computes the
derived fields anew and goes over such a tree where it stands; stripping it and building it from its
content makes another one.  Both come to the same tree, because neither looks at a derived field.

The same holds of nodes that never had a place.  Whoever makes them fills the empty branches on the
way, and building would have filled them as well, so it does not matter which of the two comes
first.
-/
import MessageTemplate.Proofs.Tree.WellFormed

set_option autoImplicit false

namespace MessageTemplate

/-! ## Filling stored forests -/

namespace Content

mutual

/-- A stored node with every empty branch in it filled, as `place` fills it. -/
def fill : Content → Content
  | .text s => .text s
  | .conditional c t e => .conditional (fillForest c) (fillForest t) (fillForest e)

/-- A stored forest with one empty text in place of every empty forest, itself among them: what
`contents` of `placeForest` comes to. -/
def fillForest : List Content → List Content
  | [] => [.text ""]
  | n :: rest => fill n :: fillFrom rest

/-- The nodes of a stored forest, each of them filled by `fill`; there may be none. -/
def fillFrom : List Content → List Content
  | [] => []
  | n :: rest => fill n :: fillFrom rest

end

/-! ## Stripping what was built -/

mutual

/-- A node that is built by `place` and stripped by `content` is the stored node with its empty
branches filled. -/
theorem content_place (path : Address) (index : Nat) :
    ∀ c : Content, (c.place path index).content = c.fill
  | .text s => by rw [place, Node.content, fill]
  | .conditional c t e => by
    rw [place, Node.content, fill, contents_placeForest _ c, contents_placeForest _ t,
      contents_placeForest _ e]

/-- The path at which a forest is built leaves no trace in its content. -/
theorem contents_placeForest (path : Address) :
    ∀ forest : List Content, Node.contents (placeForest path forest) = fillForest forest
  | [] => by
    rw [placeForest, fillForest]
    simp only [Node.contents, Node.content]
  | n :: rest => by
    rw [placeForest, Node.contents, fillForest, content_place path 0 n,
      contents_placeFrom path 1 rest]

theorem contents_placeFrom (path : Address) (index : Nat) :
    ∀ forest : List Content, Node.contents (placeFrom path index forest) = fillFrom forest
  | [] => by rw [placeFrom, Node.contents, fillFrom]
  | n :: rest => by
    rw [placeFrom, Node.contents, fillFrom, content_place path index n,
      contents_placeFrom path (index + 1) rest]

end

/-- What `placeForest` builds is not empty, so whoever fills empty forests later finds nothing to
do. -/
theorem filled_placeForest (path : Address) (forest : List Content) :
    Node.filled (placeForest path forest) = placeForest path forest := by
  cases forest with
  | nil => rw [placeForest, Node.filled]
  | cons n rest => rw [placeForest, Node.filled]

end Content

/-! ## The content of a template -/

namespace Template

/-- The template of a stored forest, which may be missing altogether (`none`). -/
def ofStored : Option (List Content) → Template
  | none => blank
  | some forest => ofContents forest

/-- A missing forest is built like an empty one, whose place `getD` takes. -/
theorem ofStored_eq (stored : Option (List Content)) :
    ofStored stored = ofContents (stored.getD []) := by
  cases stored with
  | none => rfl
  | some forest => rfl

/-- Building and stripping fills the empty forests (`fillForest`) and changes nothing else; what is
built is well formed and needs no filling any more; stripping and building again changes nothing of
a well-formed template, and so nothing of one that was built. -/
theorem contents_ofStored :
    (∀ stored : Option (List Content),
      (ofStored stored).contents = Content.fillForest (stored.getD []) ∧
        (ofStored stored).WellFormed) ∧
    (∀ (path : Address) (forest : List Content),
      Node.filled (Content.placeForest path forest) = Content.placeForest path forest) ∧
    (∀ t : Template, t.WellFormed → ofStored (some t.contents) = t) ∧
    ∀ stored : Option (List Content),
      ofStored (some (ofStored stored).contents) = ofStored stored := by
  have hwell : ∀ stored : Option (List Content), (ofStored stored).WellFormed := by
    intro stored
    rw [ofStored_eq]
    exact ofContents_wellFormed _
  have hback : ∀ t : Template, t.WellFormed → ofStored (some t.contents) = t := by
    intro t ht
    rw [ofStored]
    exact ofContents_contents ht
  refine ⟨fun stored => ⟨?_, hwell stored⟩, Content.filled_placeForest, hback, fun stored => ?_⟩
  · rw [ofStored_eq, ofContents, contents, Content.contents_placeForest]
  · exact hback _ (hwell stored)

/-- Three levels of branches for `fillForest`, of which some are empty and one holds an empty text
already. -/
theorem contents_ofStored_hollow :
    let stored : List Content :=
      [.conditional [.text ""] [] [.conditional [] [.text "a", .text ""] []], .text "b"]
    let t := ofContents stored
    t.WellFormed ∧ ofStored (some t.contents) = t ∧
      t.contents =
        [.conditional [.text ""] [.text ""]
          [.conditional [.text ""] [.text "a", .text ""] [.text ""]], .text "b"] := by
  intro stored t
  have hwell : t.WellFormed := ofContents_wellFormed stored
  exact ⟨hwell, contents_ofStored.2.2.1 t hwell, (contents_ofStored.1 (some stored)).1⟩

end Template

namespace Content

/-! ## Building what is filled -/

mutual

theorem place_fill (path : Address) (index : Nat) :
    ∀ c : Content, c.fill.place path index = c.place path index
  | .text s => by rw [fill]
  | .conditional c t e => by
    rw [fill, place, place, placeForest_fillForest _ c, placeForest_fillForest _ t,
      placeForest_fillForest _ e]

/-- Filling a forest with `fillForest` before it is built changes nothing of what is built. -/
theorem placeForest_fillForest (path : Address) :
    ∀ forest : List Content, placeForest path (fillForest forest) = placeForest path forest
  | [] => by rw [fillForest, placeForest, placeForest, placeFrom, place]
  | n :: rest => by
    rw [fillForest, placeForest, placeForest, place_fill path 0 n, placeFrom_fillFrom path 1 rest]

theorem placeFrom_fillFrom (path : Address) (index : Nat) :
    ∀ forest : List Content, placeFrom path index (fillFrom forest) = placeFrom path index forest
  | [] => by rw [fillFrom]
  | n :: rest => by
    rw [fillFrom, placeFrom, placeFrom, place_fill path index n,
      placeFrom_fillFrom path (index + 1) rest]

end

/-- It is also enough to fill the branches, with `fillFrom`: `placeForest` fills the forest
itself. -/
theorem placeForest_fillFrom (path : Address) (forest : List Content) :
    placeForest path (fillFrom forest) = placeForest path forest := by
  cases forest with
  | nil => rw [fillFrom]
  | cons n rest =>
    rw [fillFrom, placeForest, placeForest, place_fill path 0 n, placeFrom_fillFrom path 1 rest]

/-! ## Nodes without a place -/

/-- Filling the forest on top, `Node.filled`, shows in its content only if the forest was empty. -/
theorem contents_filled (forest : List Node) :
    Node.contents (Node.filled forest) =
      if forest = [] then [.text ""] else Node.contents forest := by
  cases forest with
  | nil => rw [Node.filled, if_pos rfl, Node.contents, Node.contents, Node.ofText, Node.content]
  | cons n rest => rw [Node.filled, if_neg (List.cons_ne_nil n rest)]

mutual

/-- A node made without a place (`unplaced`) has its branches filled. -/
theorem content_unplaced : ∀ c : Content, c.unplaced.content = c.fill
  | .text s => by rw [unplaced, Node.ofText, Node.content, fill]
  | .conditional c t e => by
    rw [unplaced, Node.ofBranches, Node.content, fill, contents_filled_unplacedForest c,
      contents_filled_unplacedForest t, contents_filled_unplacedForest e]

/-- A branch made of `unplaced` nodes is filled through and through, as `Node.ofBranches` fills the
branch itself. -/
theorem contents_filled_unplacedForest : ∀ forest : List Content,
    Node.contents (Node.filled (unplacedForest forest)) = fillForest forest
  | [] => by rw [unplacedForest, contents_filled, if_pos rfl, fillForest]
  | n :: rest => by
    rw [unplacedForest, contents_filled, if_neg (List.cons_ne_nil _ _), Node.contents, fillForest,
      content_unplaced n, contents_unplacedForest rest]

/-- The nodes of `unplacedForest` are filled each, and the forest itself is not. -/
theorem contents_unplacedForest : ∀ forest : List Content,
    Node.contents (unplacedForest forest) = fillFrom forest
  | [] => by rw [unplacedForest, Node.contents, fillFrom]
  | n :: rest => by
    rw [unplacedForest, Node.contents, fillFrom, content_unplaced n, contents_unplacedForest rest]

end

end Content

/-! ## Templates computed anew -/

namespace Template

/-- `refresh` of a template is `ofContents` of its `contents`. -/
theorem refresh_eq_ofContents (t : Template) : t.refresh = ofContents t.contents := by
  rw [refresh, ofContents, contents, Node.refreshForest_eq_placeForest]

/-- Well-formed templates are those that `refresh` leaves alone. -/
theorem refresh_eq_self_iff {t : Template} : t.refresh = t ↔ t.WellFormed := by
  constructor
  · intro h
    rw [← h]
    exact refresh_wellFormed t
  · intro h
    rw [refresh_eq_ofContents, ofContents_contents h]

/-- `unplaced` nodes, made one by one and then put together by `ofNodes`, come to the template of
the stored forest. -/
theorem ofNodes_unplacedForest (forest : List Content) :
    ofNodes (Content.unplacedForest forest) = ofContents forest := by
  rw [ofNodes, refresh_eq_ofContents, contents, Content.contents_unplacedForest, ofContents,
    ofContents, Content.placeForest_fillFrom]

/-- Whatever was done to a template, `refresh` gives the template of its content.  So doing it again
changes nothing, neither does doing it to a well-formed template and to no other, and of the content
nothing changes but that empty forests are filled.  The nodes made of a stored forest one by one
come to its template as well. -/
theorem refresh_rebuilds :
    (∀ t : Template, t.refresh = ofStored (some t.contents)) ∧
    (∀ t : Template, t.refresh.refresh = t.refresh) ∧
    (∀ t : Template, t.refresh = t ↔ t.WellFormed) ∧
    (∀ t : Template, t.refresh.contents = Content.fillForest t.contents) ∧
    ∀ forest : List Content,
      ofNodes (Content.unplacedForest forest) = ofStored (some forest) := by
  refine ⟨refresh_eq_ofContents, fun t => ?_, fun t => refresh_eq_self_iff, fun t => ?_,
    ofNodes_unplacedForest⟩
  · exact refresh_eq_self_iff.mpr (refresh_wellFormed t)
  · rw [refresh_eq_ofContents, ofContents, contents, Content.contents_placeForest]

end Template

end MessageTemplate
