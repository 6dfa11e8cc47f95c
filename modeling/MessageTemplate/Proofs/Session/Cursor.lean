/-
Where the cursor of a session can be.

The cursor stands in a text of the document's template, with a caret that is not beyond the text's
end (`Focus.StandsIn`).  It comes to its place in three ways: an edit says where editing goes on, it
is placed in a text, or it is looked after by `settle` when undoing and redoing have put another
template under it.  In the last case it goes back to the first text if its place is lost.

A template may begin with a conditional, and then it has no first text.  That is the only exception
in `CursorKept`: the cursor then waits where the first text would be, and every edit at the cursor
is refused.
-/
import MessageTemplate.Proofs.Edit.Focus
import MessageTemplate.Proofs.Session.Reachable

set_option autoImplicit false

namespace MessageTemplate

namespace Session

/-- The cursor stands in a text (`Focus.StandsIn`), or it waits at `home` because no text is
there. -/
def CursorKept (s : Session) : Prop :=
  s.cursor.StandsIn s.document.template ∨
    ∃ n, s.document.template.nodes[0]? = some n ∧ n.kind = .conditional ∧ s.cursor = home

/-! ## Placing the cursor -/

/-- `textLength`, by which every place for the cursor is checked, succeeds exactly on the addresses
that lead to a text. -/
theorem textLength_eq_ok {t : Template} {a : Address} {length : Nat} :
    textLength t a = .ok length ↔
      ∃ r text, Node.resolve t.nodes a = .ok r ∧ r.node.text? = some text ∧
        length = text.length := by
  rw [textLength, Outcome.bind_eq_ok]
  constructor
  · rintro ⟨r, hr, h⟩
    split at h
    case h_1 text htext =>
      exact ⟨r, text, Outcome.mapError_eq_ok.mp hr, htext, (Except.ok.inj h).symm⟩
    case h_2 => exact absurd h nofun
  · rintro ⟨r, text, hr, htext, rfl⟩
    refine ⟨r, Outcome.mapError_eq_ok.mpr hr, ?_⟩
    rw [htext]

/-- A caret that is cut down to the `textLength` stands in the text. -/
theorem stands_of_textLength {t : Template} {a : Address} {length : Nat}
    (h : textLength t a = .ok length) (caret : Nat) :
    Focus.StandsIn ⟨a, min caret length⟩ t := by
  obtain ⟨r, text, hr, htext, rfl⟩ := textLength_eq_ok.mp h
  exact Focus.stands_of_resolve hr htext (Nat.min_le_right _ _)

/-- The cursor at `home`.  A well-formed template has a first node, and only a conditional there is
an exception. -/
theorem kept_home {s : Session} (hwell : s.document.template.WellFormed)
    (hcursor : s.cursor = home) : s.CursorKept := by
  obtain ⟨hne, -⟩ := (Node.wellFormed_iff _ _).mp hwell
  obtain ⟨first, rest, hnodes⟩ := List.exists_cons_of_ne_nil hne
  have hfirst : s.document.template.nodes[0]? = some first := by
    rw [hnodes, List.getElem?_cons_zero]
  cases first with
  | text a f text =>
    refine .inl ⟨⟨[], 0⟩, .text a f text, text, hfirst, rfl, ?_, ?_⟩
    · rw [hcursor]
      rfl
    · rw [hcursor]
      exact Nat.zero_le _
  | conditional a c t e => exact .inr ⟨_, hfirst, rfl, hcursor⟩

/-- After `settle` the cursor is in its place, wherever it was before.  All that is asked of the
template is that it be well formed, for the case that the cursor has to go to the start. -/
theorem kept_settle {s : Session} (hwell : s.document.template.WellFormed) :
    s.settle.CursorKept := by
  rw [settle]
  split
  case h_1 length hlength => exact .inl (stands_of_textLength hlength _)
  case h_2 => exact kept_home hwell rfl

/-- `settle` looks after the cursor and nothing else. -/
theorem document_settle (s : Session) : s.settle.document = s.document := by
  rw [settle]
  split
  case h_1 => rfl
  case h_2 => rfl

/-- `moveCursor` puts the cursor into a text, or it does not move the cursor at all. -/
theorem kept_moveCursor {s : Session} (hs : s.CursorKept) (a : Address) (caret : Nat) :
    (s.moveCursor a caret).2.CursorKept := by
  rw [moveCursor]
  split
  case h_1 length hlength => exact .inl (stands_of_textLength hlength caret)
  case h_2 => exact hs

/-! ## Editing -/

/-- What an `Edit` of the present template leaves of a session, when it is recorded and the cursor
has gone where the edit says.  The cursor is looked after if the edit says nothing. -/
def made (s : Session) (e : Edit) (edited : Edited) : Session :=
  let s' := { s with
    history := s.history.record e s.document.template edited.template
    document := s.document.replace edited.template }
  match edited.focus with
  | some focus => { s' with cursor := focus }
  | none => s'.settle

/-- An edit is refused and leaves the session as it was, or it is `made`.  This is all that the
other modules need to know of `Session.apply`. -/
theorem apply_cases (s : Session) (e : Edit) :
    (∃ cause, e.apply s.document.template = .error cause ∧
      s.apply e = (.error (.edit cause), s)) ∨
    ∃ edited, e.apply s.document.template = .ok edited ∧
      s.apply e = (.ok ⟨s.document.version + 1, edited.focus⟩, s.made e edited) := by
  rw [apply, History.apply, Document.apply]
  cases hedit : e.apply s.document.template with
  | error cause => exact .inl ⟨cause, rfl, rfl⟩
  | ok edited =>
    refine .inr ⟨edited, rfl, ?_⟩
    dsimp only [made]
    cases edited.focus with
    | some focus => rfl
    | none => rfl

theorem template_made (s : Session) (e : Edit) (edited : Edited) :
    (s.made e edited).document.template = edited.template := by
  rw [made]
  cases edited.focus with
  | some focus => rfl
  | none =>
    dsimp only
    rw [document_settle]
    rfl

/-- After an edit the cursor is where the edit says, which is in a text by `Edit.focus_stands`, or
it has been looked after. -/
theorem kept_apply {s : Session} (hs : s.CursorKept) {e : Edit}
    (hwell : (s.apply e).2.document.template.WellFormed) : (s.apply e).2.CursorKept := by
  rcases s.apply_cases e with ⟨cause, -, hrefused⟩ | ⟨edited, hedit, hmade⟩
  · rw [hrefused]
    exact hs
  · rw [hmade] at hwell ⊢
    dsimp only at hwell ⊢
    rw [template_made] at hwell
    -- The cursor goes to the focus, or is looked after by `settle` where there is none.
    rw [made]
    cases hfocus : edited.focus with
    | some focus => exact .inl (Edit.focus_stands hedit hfocus)
    | none => exact kept_settle hwell

/-- `changeText` places the cursor in the text that it exchanges, wherever it was before. -/
theorem kept_changeText {s : Session} (hs : s.CursorKept) (a : Address) (caret : Nat)
    (text : String) : (s.changeText a caret text).2.CursorKept := by
  unfold changeText
  rcases s.apply_cases (.replaceText a text) with
    ⟨cause, -, hrefused⟩ | ⟨edited, hedit, hmade⟩
  · rw [hrefused]
    exact hs
  · rw [hmade]
    refine .inl ?_
    dsimp only
    rw [template_made]
    exact Edit.replaceText_stands hedit caret

/-! ## Steps and runs -/

/-- The step lemma: every `Step` leaves the cursor in its place, if the template that it leaves is
well formed. -/
theorem kept_perform {s : Session} (hs : s.CursorKept) {step : Step}
    (hwell : (s.perform step).2.document.template.WellFormed) :
    (s.perform step).2.CursorKept := by
  cases step with
  | typeText text => exact kept_apply hs hwell
  | insertVariable name => exact kept_apply hs hwell
  | changeText a caret text => exact kept_changeText hs a caret text
  | insertConditional => exact kept_apply hs hwell
  | deleteConditional a => exact kept_apply hs hwell
  | moveCursor a caret =>
    have hmoved := kept_moveCursor hs a caret
    rw [perform]
    split
    case h_1 heq => rwa [heq] at hmoved
    case h_2 heq => rwa [heq] at hmoved
  -- Undoing and redoing put back a template first, and then look after the cursor (`settle`).
  | undo =>
    have hwell' : s.undo.2.document.template.WellFormed := hwell
    rw [undo, document_settle] at hwell'
    exact kept_settle hwell'
  | redo =>
    have hwell' : s.redo.2.document.template.WellFormed := hwell
    rw [redo, document_settle] at hwell'
    exact kept_settle hwell'
  | beginBatch | endBatch | describe _ | clear => exact hs

/-- The run lemma.  The induction carries along that every template held is well formed
(`act_wellFormed`), since undoing and redoing bring any of them back. -/
theorem kept_run (steps : List Step) : ∀ {s : Session}, s.CursorKept →
    (∀ t ∈ s.templates, t.WellFormed) → (s.run steps).CursorKept := by
  induction steps with
  | nil => exact fun hs _ => hs
  | cons step rest ih =>
    intro s hs hwell
    have hnext : ∀ t ∈ (s.perform step).2.templates, t.WellFormed :=
      act_wellFormed hwell (.session step)
    -- The document's template is one of those held.
    have hdocument := hnext _ (History.mem_templates.mpr (.inl rfl))
    exact ih (kept_perform hs hdocument) hnext

theorem templates_start (id : String) (d : Document) (names : List String) :
    (start id d names).templates = [d.template] := rfl

/-- From a new session on any well-formed template, through any steps: if no forest has more nodes
than 64 bits can count (`Fits`), the cursor's address resolves to a text and the caret is not beyond
its end.  The one exception is a template that begins with a conditional, and there the cursor is at
the start. -/
theorem cursor_kept {d : Document} (hd : d.template.WellFormed) (id : String)
    (names : List String) (steps : List Step) :
    let s := (start id d names).run steps
    Node.Fits s.document.template.nodes →
      (∃ r text, Node.resolve s.document.template.nodes s.cursor.address = .ok r ∧
        r.node.text? = some text ∧ s.cursor.caret ≤ text.length) ∨
      (∃ n, s.document.template.nodes[0]? = some n ∧ n.kind = .conditional ∧
        s.cursor = ⟨⟨"/0-text"⟩, 0⟩) := by
  intro s hfits
  have hstart : (start id d names).CursorKept := kept_home hd rfl
  have hwell : ∀ t ∈ (start id d names).templates, t.WellFormed := by
    rw [templates_start]
    exact List.forall_mem_singleton.mpr hd
  rcases kept_run steps hstart hwell with hstands | hwaits
  · exact .inl (hstands.resolve hfits)
  · exact .inr hwaits

/-- The cursor types two conditionals deep.  When the outer one is deleted and the deletion
undone, it waits at the start, because the template begins with a conditional. -/
theorem cursor_kept_deep :
    let d := Document.ofContents [.conditional [] [.text "ab"] [], .text "c"]
    let typing := [Step.moveCursor ⟨"/0-if-then/0-text"⟩ 1, .insertConditional, .beginBatch,
      .typeText "x"]
    let leaving := typing ++ [.deleteConditional ⟨"/0-if"⟩, .endBatch, .undo]
    d.template.WellFormed ∧
      Node.Fits ((start "s" d []).run typing).document.template.nodes ∧
      Node.Fits ((start "s" d []).run leaving).document.template.nodes ∧
      (∃ r text, Node.resolve ((start "s" d []).run typing).document.template.nodes
          ((start "s" d []).run typing).cursor.address = .ok r ∧
        r.node.text? = some text ∧ ((start "s" d []).run typing).cursor.caret ≤ text.length) ∧
      ∃ n, ((start "s" d []).run leaving).document.template.nodes[0]? = some n ∧
        n.kind = .conditional ∧ ((start "s" d []).run leaving).cursor = ⟨⟨"/0-text"⟩, 0⟩ := by
  intro d typing leaving
  have hwell : d.template.WellFormed := Template.ofContents_wellFormed _
  have htyping : Node.Fits ((start "s" d []).run typing).document.template.nodes :=
    Template.fits_of_length_walk (by decide +kernel)
  have hleaving : Node.Fits ((start "s" d []).run leaving).document.template.nodes :=
    Template.fits_of_length_walk (by decide +kernel)
  refine ⟨hwell, htyping, hleaving, ?_, ?_⟩
  · refine (cursor_kept hwell "s" [] typing htyping).resolve_right fun hwaits => ?_
    obtain ⟨n, -, -, hcursor⟩ := hwaits
    have hmoved : ((start "s" d []).run typing).cursor ≠ ⟨⟨"/0-text"⟩, 0⟩ := by decide +kernel
    exact hmoved hcursor
  · refine (cursor_kept hwell "s" [] leaving hleaving).resolve_left fun hstands => ?_
    obtain ⟨r, text, hr, -⟩ := hstands
    have hlost : (Node.resolve ((start "s" d []).run leaving).document.template.nodes
        ((start "s" d []).run leaving).cursor.address).isOk = false := by
      decide +kernel
    rw [hr] at hlost
    exact absurd hlost nofun

end Session

end MessageTemplate
