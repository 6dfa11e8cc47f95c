/-
Both forms of a tree say the same.

The stored and the working form are rendered by two functions, and a template is stripped, built and
computed anew many times in its life.  What it says must not depend on that.  Stripping only takes
away what rendering does not read (`renderForest_contents`).  Building fills empty forests, and the
text that fills them is empty and stays empty whatever the values are (`renderForest_fillForest`);
so no condition says something that said nothing before, and every conditional goes on showing the
branch that it showed.

Everything else is put together from these two facts: what is built is, once stripped, what was
filled.  The branches that conditionals show are gathered by functions of their own, `choices`, and
for them the same two facts are shown beside those for the message.
-/
import MessageTemplate.Render.Message
import MessageTemplate.Proofs.Tree.Normal

set_option autoImplicit false

namespace MessageTemplate

/-! ## Selected branches -/

/-- The `Branch` that a conditional shows if its condition says this. -/
def Branch.shown (condition : String) : Branch :=
  if condition.isEmpty then .alternative else .consequent

namespace Content

mutual

/-- The branches that the conditionals at or below a stored node show (`Branch.shown`), in the order
in which they are written. -/
def choices (values : Option Values) : Content → List Branch
  | .text _ => []
  | .conditional c t e =>
    .shown (renderForest values c) ::
      (choicesAmong values c ++ choicesAmong values t ++ choicesAmong values e)

/-- The branches that the conditionals of a stored forest show, at any depth: the `choices` of its
nodes. -/
def choicesAmong (values : Option Values) : List Content → List Branch
  | [] => []
  | n :: rest => choices values n ++ choicesAmong values rest

end

end Content

namespace Node

mutual

/-- The branches that the conditionals at or below a node show, in the order of
`Content.choices`. -/
def choices (values : Option Values) : Node → List Branch
  | .text _ _ _ => []
  | .conditional _ c t e =>
    .shown (renderForest values c) ::
      (choicesAmong values c ++ choicesAmong values t ++ choicesAmong values e)

/-- The branches that the conditionals of a forest show, at any depth: the `choices` of its
nodes. -/
def choicesAmong (values : Option Values) : List Node → List Branch
  | [] => []
  | n :: rest => choices values n ++ choicesAmong values rest

end

end Node

section

variable (values : Option Values)

/-- An empty text says nothing under any values or none; it has no placeholder.  Therefore an empty
branch may be filled with one. -/
theorem substitute_empty : substitute values "" = "" := by
  cases values with
  | none => rfl
  | some v => rfl

/-! ## Stripping -/

namespace Node

mutual

/-- A node says what its `content` says: rendering reads the text of a node and its branches, but
neither the address nor the fingerprint, and these are all that `content` takes away. -/
theorem render_content : ∀ n : Node, n.content.render values = n.render values
  | .text _ _ s => by rw [content, Content.render, render]
  | .conditional _ c t e => by
    rw [content, Content.render, render, renderForest_contents c, renderForest_contents t,
      renderForest_contents e]

/-- A forest says what its `contents` say, well formed or not. -/
theorem renderForest_contents :
    ∀ forest : List Node, Content.renderForest values (contents forest) = renderForest values forest
  | [] => by rw [contents, Content.renderForest, renderForest]
  | n :: rest => by
    rw [contents, Content.renderForest, renderForest, render_content n, renderForest_contents rest]

end

mutual

/-- The conditionals at or below a node show what those of its `content` show.  Each is decided by
what its condition says, and that is `renderForest_contents`. -/
theorem choices_content : ∀ n : Node, n.content.choices values = n.choices values
  | .text _ _ s => by rw [content, Content.choices, choices]
  | .conditional _ c t e => by
    rw [content, Content.choices, choices, renderForest_contents values c, choicesAmong_contents c,
      choicesAmong_contents t, choicesAmong_contents e]

/-- The conditionals of a forest show what those of its `contents` show. -/
theorem choicesAmong_contents :
    ∀ forest : List Node, Content.choicesAmong values (contents forest) = choicesAmong values forest
  | [] => by rw [contents, Content.choicesAmong, choicesAmong]
  | n :: rest => by
    rw [contents, Content.choicesAmong, choicesAmong, choices_content n, choicesAmong_contents rest]

end

end Node

/-! ## Filling -/

namespace Content

mutual

/-- A node says the same when its empty branches are filled by `fill`.  The three lemmas for a node,
for a forest that may be empty and for the rest of one go together, as the three functions do. -/
theorem render_fill : ∀ c : Content, c.fill.render values = c.render values
  | .text s => by rw [fill]
  | .conditional c t e => by
    rw [fill, render, render, renderForest_fillForest c, renderForest_fillForest t,
      renderForest_fillForest e]

/-- The text with which `fillForest` fills an empty forest says nothing (`substitute_empty`), as the
forest did. -/
theorem renderForest_fillForest :
    ∀ forest : List Content, renderForest values (fillForest forest) = renderForest values forest
  | [] => by
    rw [fillForest, renderForest, renderForest, render, substitute_empty, String.empty_append,
      renderForest]
  | n :: rest => by
    rw [fillForest, renderForest, renderForest, render_fill n, renderForest_fillFrom rest]

theorem renderForest_fillFrom :
    ∀ forest : List Content, renderForest values (fillFrom forest) = renderForest values forest
  | [] => by rw [fillFrom]
  | n :: rest => by
    rw [fillFrom, renderForest, renderForest, render_fill n, renderForest_fillFrom rest]

end

mutual

/-- A condition that `fill` fills decides as before, so the conditionals of a node show what they
showed. -/
theorem choices_fill : ∀ c : Content, c.fill.choices values = c.choices values
  | .text s => by rw [fill]
  | .conditional c t e => by
    rw [fill, choices, choices, renderForest_fillForest values c, choicesAmong_fillForest c,
      choicesAmong_fillForest t, choicesAmong_fillForest e]

/-- The text with which `fillForest` fills an empty forest has no conditionals. -/
theorem choicesAmong_fillForest :
    ∀ forest : List Content, choicesAmong values (fillForest forest) = choicesAmong values forest
  | [] => by
    rw [fillForest, choicesAmong, choicesAmong, choices, List.nil_append, choicesAmong]
  | n :: rest => by
    rw [fillForest, choicesAmong, choicesAmong, choices_fill n, choicesAmong_fillFrom rest]

theorem choicesAmong_fillFrom :
    ∀ forest : List Content, choicesAmong values (fillFrom forest) = choicesAmong values forest
  | [] => by rw [fillFrom]
  | n :: rest => by
    rw [fillFrom, choicesAmong, choicesAmong, choices_fill n, choicesAmong_fillFrom rest]

end

/-! ## Building -/

/-- What `placeForest` builds of a stored forest says what the forest says: what is built is, once
stripped, what was filled (`contents_placeForest`), and neither stripping nor filling is heard. -/
theorem renderForest_placeForest (path : Address) (forest : List Content) :
    Node.renderForest values (placeForest path forest) = renderForest values forest := by
  rw [← Node.renderForest_contents, contents_placeForest, renderForest_fillForest]

/-- The conditionals of what `placeForest` builds show what those of the stored forest show, for the
same reason as `renderForest_placeForest`. -/
theorem choicesAmong_placeForest (path : Address) (forest : List Content) :
    Node.choicesAmong values (placeForest path forest) = choicesAmong values forest := by
  rw [← Node.choicesAmong_contents, contents_placeForest, choicesAmong_fillForest]

end Content

/-! ## Computing anew -/

namespace Node

/-- A forest says after `refreshForest` what it said before, since to compute it anew is to build it
from its stored form (`refreshForest_eq_placeForest`). -/
theorem renderForest_refreshForest (path : Address) (forest : List Node) :
    renderForest values (refreshForest path forest) = renderForest values forest := by
  rw [refreshForest_eq_placeForest, Content.renderForest_placeForest, renderForest_contents]

/-- The conditionals of a forest show after `refreshForest` what they showed before. -/
theorem choicesAmong_refreshForest (path : Address) (forest : List Node) :
    choicesAmong values (refreshForest path forest) = choicesAmong values forest := by
  rw [refreshForest_eq_placeForest, Content.choicesAmong_placeForest, choicesAmong_contents]

end Node

end

/-! ## The forms of a template -/

namespace Template

/-- Under any values or none, a template says what the stored forest says that it was built
from, a working forest says what its stored form says, well formed or not, and computing a
forest anew does not change what it says; and each time every conditional, at whatever
depth, shows the branch that it shows in the other form. -/
theorem render_forms (values : Option Values) :
    (∀ stored : Option (List Content),
      (ofStored stored).render values = Content.renderForest values (stored.getD []) ∧
        Node.choicesAmong values (ofStored stored).nodes =
          Content.choicesAmong values (stored.getD [])) ∧
    (∀ forest : List Node,
      Content.renderForest values (Node.contents forest) = Node.renderForest values forest ∧
        Content.choicesAmong values (Node.contents forest) = Node.choicesAmong values forest) ∧
    ∀ (path : Address) (forest : List Node),
      Node.renderForest values (Node.refreshForest path forest) =
          Node.renderForest values forest ∧
        Node.choicesAmong values (Node.refreshForest path forest) =
          Node.choicesAmong values forest := by
  refine ⟨fun stored => ?_, fun forest => ?_, fun path forest => ?_⟩
  · rw [ofStored_eq]
    exact ⟨Content.renderForest_placeForest values .root _,
      Content.choicesAmong_placeForest values .root _⟩
  · exact ⟨Node.renderForest_contents values forest, Node.choicesAmong_contents values forest⟩
  · exact ⟨Node.renderForest_refreshForest values path forest,
      Node.choicesAmong_refreshForest values path forest⟩

end Template

end MessageTemplate
