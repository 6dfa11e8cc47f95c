/-
Texts that are cut in two.

When a text is cut, values can be put into both halves or into the whole.  The result is the same
unless the cut goes through a placeholder that has a value (`Clear`): each half then has a part of
it, which is ordinary characters there.  A placeholder without a value is written as it is, so it
may be cut, and a cut makes no placeholder that was not there before.

The proof of `fillIn_append` goes along the pieces of the first half and then along those of the
second.  A placeholder in either half is scanned as if it stood alone, so it can be set aside, until
neither half has one; and then whatever the whole has lies across the cut.
-/
import MessageTemplate.Edit.Basic
import MessageTemplate.Proofs.Render.Placeholders

set_option autoImplicit false

namespace MessageTemplate

/-! ## Filled texts -/

section

variable (v : Values)

/-- The characters of a text with its values put in: `substitute` for lists of characters. -/
def fillIn (text : List Char) : List Char :=
  (scan text).flatMap (Part.filled v)

/-- `substitute` under a map is `fillIn` of the characters. -/
theorem substitute_some (s : String) : substitute (some v) s = String.ofList (fillIn v s.toList) :=
  rfl

/-- `fillIn` of a text with a placeholder: this is filled by itself, and so are the text in front of
it and the text behind it. -/
theorem fillIn_placeholder (before after : List Char) {name : List Char}
    (h : isName name = true) :
    fillIn v (before ++ (Part.placeholder name).written ++ after) =
      fillIn v before ++ (Part.placeholder name).filled v ++ fillIn v after := by
  rw [fillIn, scan_placeholder before after h, List.flatMap_append, List.flatMap_cons, fillIn,
    fillIn, List.append_assoc]

variable {v}

/-- `fillIn` writes names without a value as they are. -/
theorem fillIn_eq_self {text : List Char}
    (h : ∀ before name after, isName name = true →
      text = before ++ (Part.placeholder name).written ++ after →
        v.get? (String.ofList name) = none) : fillIn v text = text := by
  have hwritten : ∀ part ∈ scan text, part.filled v = part.written := by
    intro part hpart
    cases part with
    | literal c => rfl
    | placeholder name =>
      obtain ⟨hname, before, after, htext⟩ := mem_scan_iff.mp hpart
      rw [Part.filled, h before name after hname htext]
      rfl
  rw [fillIn, List.flatMap_congr hwritten, flatMap_written_scan]

theorem fillIn_of_not_hasPlaceholder {text : List Char} (h : ¬ HasPlaceholder text) :
    fillIn v text = text :=
  fillIn_eq_self fun before name after hname htext =>
    absurd ⟨before, name, after, hname, htext⟩ h

/-! ## What lies across a cut -/

/-- Every placeholder that has a value stands in the `first` text or in the `second`, and not across
the cut between them. -/
def Clear (v : Values) (first second : List Char) : Prop :=
  ∀ before name after, isName name = true →
    first ++ second = before ++ (Part.placeholder name).written ++ after →
      v.get? (String.ofList name) ≠ none →
        first.length ≤ before.length ∨
          before.length + (Part.placeholder name).written.length ≤ first.length

/-- A cut that is `Clear` stays so when something at the end is left out. -/
theorem Clear.of_append_right {first second more : List Char} (h : Clear v first (second ++ more)) :
    Clear v first second := by
  intro before name after hname htext
  refine h before name (after ++ more) hname ?_
  rw [← List.append_assoc, htext, List.append_assoc]

/-- A cut that is `Clear` stays so when something in front is left out. -/
theorem Clear.of_append_left {more first second : List Char} (h : Clear v (more ++ first) second) :
    Clear v first second := by
  intro before name after hname htext hbound
  have hwhole : (more ++ first) ++ second =
      (more ++ before) ++ (Part.placeholder name).written ++ after := by
    rw [List.append_assoc, htext]
    simp only [List.append_assoc]
  have hclear := h (more ++ before) name after hname hwhole hbound
  rw [List.length_append, List.length_append] at hclear
  omega

/-- Where neither half has a placeholder, the whole can only have some across the cut. -/
theorem fillIn_append_of_neither {first second : List Char} (hfirst : ¬ HasPlaceholder first)
    (hsecond : ¬ HasPlaceholder second) (h : Clear v first second) :
    fillIn v (first ++ second) = first ++ second := by
  refine fillIn_eq_self fun before name after hname htext =>
    Classical.byContradiction fun hbound => ?_
  rcases h before name after hname htext hbound with hle | hle
  · -- It starts behind the cut.
    rw [List.append_assoc] at htext
    obtain ⟨more, rfl, hmore⟩ | ⟨more, rfl, hmore⟩ := List.append_eq_append_iff.mp htext
    · exact hsecond ⟨more, name, after, hname, by rw [hmore, List.append_assoc]⟩
    · have hnil : more = [] := by
        rw [List.length_append] at hle
        exact List.length_eq_zero_iff.mp (by omega)
      subst hnil
      exact hsecond ⟨[], name, after, hname, hmore.symm⟩
  · -- It ends in front of the cut.
    obtain ⟨more, hmore, rfl⟩ | ⟨more, rfl, -⟩ := List.append_eq_append_iff.mp htext
    · have hnil : more = [] := by
        have hlength := congrArg List.length hmore
        rw [List.length_append, List.length_append] at hlength
        exact List.length_eq_zero_iff.mp (by omega)
      subst hnil
      rw [List.append_nil] at hmore
      exact hfirst ⟨before, name, [], hname, by rw [hmore, List.append_nil]⟩
    · exact hfirst ⟨before, name, more, hname, rfl⟩

/-- The placeholders (`HasPlaceholder`) of the second half are set aside one after the other; the
first of them is enough, since what is behind it is far from the cut. -/
theorem fillIn_append_of_first {first second : List Char} (hfirst : ¬ HasPlaceholder first)
    (h : Clear v first second) :
    fillIn v (first ++ second) = fillIn v first ++ fillIn v second := by
  obtain ⟨⟨head, tail⟩, hproper, rfl⟩ := Pieces.exists_proper second
  rw [fillIn_of_not_hasPlaceholder hfirst]
  cases tail with
  | nil =>
    rw [Pieces.text_nil] at h ⊢
    rw [fillIn_append_of_neither hfirst hproper.head h, fillIn_of_not_hasPlaceholder hproper.head]
  | cons piece rest =>
    have hname := hproper.names piece List.mem_cons_self
    rw [Pieces.text_cons, List.append_assoc] at h
    rw [Pieces.text_cons, ← List.append_assoc, ← List.append_assoc, fillIn_placeholder v _ _ hname,
      fillIn_placeholder v _ _ hname, fillIn_of_not_hasPlaceholder hproper.head,
      fillIn_append_of_neither hfirst hproper.head h.of_append_right]
    simp only [List.append_assoc]

/-- `fillIn` may take both halves by themselves if the cut between them is `Clear`.  The induction
is on the placeholders of the first half. -/
theorem fillIn_append {first second : List Char} (h : Clear v first second) :
    fillIn v (first ++ second) = fillIn v first ++ fillIn v second := by
  obtain ⟨⟨head, tail⟩, hproper, rfl⟩ := Pieces.exists_proper first
  induction tail generalizing head with
  | nil =>
    rw [Pieces.text_nil] at h ⊢
    exact fillIn_append_of_first hproper.head h
  | cons piece rest ih =>
    have hname := hproper.names piece List.mem_cons_self
    rw [Pieces.text_cons] at h ⊢
    rw [List.append_assoc, fillIn_placeholder v _ _ hname, fillIn_placeholder v _ _ hname,
      ih _ hproper.of_cons h.of_append_left]
    simp only [List.append_assoc]

end

/-! ## Carets -/

/-- A caret stands inside of a placeholder `name` of a text, behind its first brace and in front of
its last one at the latest. -/
def CaretInside (s : String) (caret : Nat) (name : String) : Prop :=
  ∃ before after, isName name.toList = true ∧
    s.toList = before ++ (Part.placeholder name.toList).written ++ after ∧
      before.length < caret ∧ caret < before.length + name.length + 2

/-- It is enough to look at the places in front of the caret, so `CaretInside` can be decided. -/
theorem caretInside_iff {s : String} {caret : Nat} {name : String} :
    CaretInside s caret name ↔
      isName name.toList = true ∧ ∃ start < caret, caret < start + name.length + 2 ∧
        (Part.placeholder name.toList).written <+: s.toList.drop start := by
  constructor
  · rintro ⟨before, after, hname, hs, hstart, hstop⟩
    refine ⟨hname, before.length, hstart, hstop, after, ?_⟩
    rw [hs, List.append_assoc, List.drop_left]
  · rintro ⟨hname, start, hstart, hstop, after, hafter⟩
    have hle : start ≤ s.toList.length := by
      refine Nat.le_of_not_lt fun hlt => ?_
      rw [List.drop_of_length_le (Nat.le_of_lt hlt)] at hafter
      exact absurd hafter (List.cons_ne_nil _ _)
    have hlength : (s.toList.take start).length = start := List.length_take_of_le hle
    refine ⟨s.toList.take start, after, hname, ?_, by rwa [hlength], by rwa [hlength]⟩
    rw [List.append_assoc, hafter, List.take_append_drop]

instance (s : String) (caret : Nat) (name : String) : Decidable (CaretInside s caret name) :=
  decidable_of_iff _ caretInside_iff.symm

/-- A caret that is inside of no placeholder with a value (`CaretInside`) makes a `Clear` cut. -/
theorem clear_cutAt {v : Values} {s : String} {caret : Nat}
    (h : ∀ name, v.get? name ≠ none → ¬ CaretInside s caret name) :
    Clear v (s.toList.take caret) (s.toList.drop caret) := by
  intro before name after hname htext hbound
  rw [List.take_append_drop] at htext
  have hlength := congrArg List.length htext
  have houtside := h (String.ofList name) hbound
  rw [CaretInside, String.toList_ofList, String.length_ofList] at houtside
  have hcaret : ¬ (before.length < caret ∧ caret < before.length + name.length + 2) :=
    fun hinside => houtside ⟨before, after, hname, htext, hinside⟩
  rw [Part.written] at hlength ⊢
  simp only [List.length_append, List.length_cons, List.length_nil, List.length_take] at hlength ⊢
  omega

/-- `substitute` may take both halves of a text by themselves if the cut is not inside of a
placeholder that has a value. -/
theorem substitute_cutAt {values : Option Values} {s : String} {caret : Nat}
    (h : ∀ v, values = some v → ∀ name, v.get? name ≠ none → ¬ CaretInside s caret name) :
    substitute values (cutAt s caret).1 ++ substitute values (cutAt s caret).2 =
      substitute values s := by
  rw [cutAt]
  cases values with
  | none =>
    rw [substitute, substitute, ← String.ofList_append, List.take_append_drop,
      String.ofList_toList]
    rfl
  | some v =>
    rw [substitute_some, substitute_some, substitute_some, String.toList_ofList,
      String.toList_ofList, ← String.ofList_append, ← fillIn_append (clear_cutAt (h v rfl)),
      List.take_append_drop]

end MessageTemplate
