/-
Checking an edit foretells what comes of applying it.

An edit is checked by reading its node, and it is applied by asking for the place of its node;
besides, both ask in their own way whether the node is of the right kind.  What both come to is
decided by two things: what the address comes to in the tree, and, if it leads to a node, the kind
of that node.  So there is one verdict, `Kind.judge`, and a lemma for each of the two that says it
is theirs (`check_judged`, `apply_judged`).  The kind is a parameter of the verdict, as it is one of
the target.

Nothing is asked of the tree.  Its addresses may be those of another tree, and the verdict is the
same on both sides all the same.
-/
import MessageTemplate.Proofs.Edit.Effect
import MessageTemplate.Proofs.Tree.Descent

set_option autoImplicit false

namespace MessageTemplate

/-! ## The verdict -/

/-- What is said to one who needs a node of a `Kind` at an address, when the address has come to
something (`ComesTo`). -/
def Kind.judge (k : Kind) (a : Address) : Except AddressError Arrival → Except EditError Unit
  | .error cause => .error (.unresolved cause)
  | .ok r => if r.node.kind = k then .ok () else .error (k.misfit a)

namespace Template

variable {t : Template} {a : Address} {o : Except AddressError Arrival}

/-- The `target` of an edit, for whatever kind of node it asks for, is judged by what its address
comes to.  The two kinds need no lemmas of their own. -/
theorem target_judged (k : Kind) (h : Node.ComesTo t.nodes a o) :
    ((t.target k a).map fun _ => ()) = k.judge a o := by
  rw [target, h.siteOf_eq]
  rcases o with cause | ⟨way, siblings, index, n⟩
  · rfl
  · show ((k.demand a (.ok (⟨way, index⟩, n))).map fun _ => ()) =
      k.judge a (.ok ⟨way, siblings, index, n⟩)
    rw [Kind.demand, Kind.judge]
    split
    case isTrue => rfl
    case isFalse => rfl

end Template

/-! ## Checking and applying -/

namespace Edit

variable {e : Edit} {t : Template} {o : Except AddressError Arrival}

/-- `check` is the verdict (`judge`) on what the address comes to, for the kind of node that the
edit is meant for. -/
theorem check_judged (h : Node.ComesTo t.nodes e.address o) :
    e.check t = e.kind.judge e.address o := by
  rw [check, h.resolve_eq]
  rcases o with cause | ⟨way, siblings, index, n⟩
  · rfl
  -- Whether the kinds agree is one question on the right and eight cases on the left.
  · cases n <;> cases e <;> rfl

/-- What comes of an edit is left out; whether anything does is the verdict (`judge`) on its
target. -/
theorem apply_judged (h : Node.ComesTo t.nodes e.address o) :
    ((e.apply t).map fun _ => ()) = e.kind.judge e.address o := by
  obtain ⟨made, happly⟩ := e.exists_made t
  rw [happly, Outcome.map_map]
  exact Template.target_judged e.kind h

/-- `check` is `apply` of which only the success is kept. -/
theorem check_eq_map_apply (e : Edit) (t : Template) :
    e.check t = (e.apply t).map fun _ => () := by
  obtain ⟨o, h⟩ := Node.exists_comesTo t.nodes e.address
  rw [check_judged h, apply_judged h]

/-- An edit passes `check` exactly if it applies, and it is refused by both for the same reason.
This holds of every template, well formed or not, and of any address, caret and text. -/
theorem check_foretells (e : Edit) (t : Template) :
    (e.check t = .ok () ↔ ∃ edited, e.apply t = .ok edited) ∧
      ∀ cause, e.check t = .error cause ↔ e.apply t = .error cause := by
  rw [check_eq_map_apply]
  rcases e.apply t with cause | edited
  · exact ⟨⟨nofun, fun ⟨_, h⟩ => absurd h nofun⟩, fun cause' => by
      simp only [Except.map, Except.error.injEq]⟩
  · exact ⟨⟨fun _ => ⟨edited, rfl⟩, fun _ => rfl⟩, fun cause' => ⟨nofun, nofun⟩⟩

end Edit

end MessageTemplate
