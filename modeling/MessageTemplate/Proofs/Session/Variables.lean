/-
Inserting a variable.

A variable is inserted as text, its name in braces.  Whether it is then a placeholder does not
depend on where it is put.  A name that a placeholder can have (`isName`) is found even in the
middle of another placeholder or behind a stray brace, because its own first brace gives up whatever
is open there; by `scan_placeholder` the texts in front of it and behind it are read as if they
stood alone.  A name that a placeholder cannot have is not found anywhere.
-/
import MessageTemplate.Proofs.Render.Cutting
import MessageTemplate.Proofs.Session.Cursor

set_option autoImplicit false

namespace MessageTemplate

/-! ## Names among the placeholders -/

/-- The names of a text are those of the placeholders that `scan` finds. -/
theorem mem_placeholders {name s : String} :
    name ∈ placeholders s ↔ Part.placeholder name.toList ∈ scan s.toList := by
  rw [placeholders, List.mem_filterMap]
  constructor
  · rintro ⟨part, hpart, hname⟩
    cases part with
    | literal c => cases hname
    | placeholder cs =>
      rw [← Option.some.inj hname, String.toList_ofList]
      exact hpart
  · intro h
    exact ⟨_, h, congrArg some String.ofList_toList⟩

/-- The `placeholders` of a text with a name in braces somewhere: in front of it and behind it are
those of the two texts on their own. -/
theorem placeholders_insert {name : String} (h : isName name.toList = true)
    (before after : String) :
    placeholders (before ++ String.ofList (Part.placeholder name.toList).written ++ after) =
      placeholders before ++ [name] ++ placeholders after := by
  rw [placeholders, String.toList_append, String.toList_append, String.toList_ofList,
    scan_placeholder _ _ h, List.filterMap_append, List.filterMap_cons, Part.name?,
    String.ofList_toList, placeholders, placeholders, List.append_assoc, List.singleton_append]

/-- The same for `substitute`.  The new placeholder becomes the value of its name; without a value,
or without a map, it stays as it is written. -/
theorem substitute_insert {name : String} (h : isName name.toList = true)
    (values : Option Values) (before after : String) :
    substitute values (before ++ String.ofList (Part.placeholder name.toList).written ++ after) =
      substitute values before ++
        ((values.bind fun v => v.get? name).getD
          (String.ofList (Part.placeholder name.toList).written)) ++
        substitute values after := by
  cases values with
  | none => rfl
  | some v =>
    rw [substitute_some, String.toList_append, String.toList_append, String.toList_ofList,
      fillIn_placeholder v _ _ h, String.ofList_append, String.ofList_append, ← substitute_some,
      ← substitute_some, Part.filled_placeholder, String.ofList_toList, Option.bind_some]
    cases v.get? name with
    | some value => rw [Option.map_some, Option.getD_some, Option.getD_some, String.ofList_toList]
    | none => rfl

/-! ## Typing -/

namespace Session

/-- What `typeText` types stands at the cursor, in whatever template.  All that is asked is that the
cursor's address leads to a text; well-formedness is not needed. -/
theorem typeText_eq_ok {session : Session} {r : Resolved} {text : String}
    (hr : Node.resolve session.document.template.nodes session.cursor.address = .ok r)
    (htext : r.node.text? = some text) (literal : String) :
    ∃ change r', (session.typeText literal).1 = .ok change ∧
      Node.resolve (session.typeText literal).2.document.template.nodes session.cursor.address =
        .ok r' ∧
      r'.node.text? = some ((cutAt text session.cursor.caret).1 ++ literal ++
        (cutAt text session.cursor.caret).2) := by
  obtain ⟨t', r', happly, hr', htext'⟩ :=
    Edit.resolve_insertText hr htext session.cursor.caret literal
  rcases session.apply_cases (.insertText session.cursor.address session.cursor.caret literal) with
    ⟨cause, hrefused, -⟩ | ⟨edited, hedit, hmade⟩
  · -- Typing into a text is never refused.
    cases happly.symm.trans hrefused
  · obtain rfl := Except.ok.inj (happly.symm.trans hedit)
    refine ⟨_, r', congrArg Prod.fst hmade, ?_, htext'⟩
    rw [typeText, hmade]
    dsimp only
    rw [template_made, hr']

/-- A variable that `insertVariable` puts in a text is a placeholder there exactly if its name is
not empty and made of characters of names only.  What the text says in front of the cursor and
behind it has no influence on this, and keeps its own placeholders.  With values put in, the new
placeholder is the value of its name, or its name in braces if it has none. -/
theorem insertVariable_live (session : Session) {r : Resolved} {text : String}
    (hr : Node.resolve session.document.template.nodes session.cursor.address = .ok r)
    (htext : r.node.text? = some text) (name : String) :
    ∃ change r' text' before after, (session.insertVariable name).1 = .ok change ∧
      Node.resolve (session.insertVariable name).2.document.template.nodes
        session.cursor.address = .ok r' ∧
      r'.node.text? = some text' ∧
      text = before ++ after ∧ before.length = min session.cursor.caret text.length ∧
      text' = before ++ "\x7b" ++ name ++ "\x7d" ++ after ∧
      (placeholders text' = placeholders before ++ [name] ++ placeholders after ↔
        name.toList ≠ [] ∧ ∀ c ∈ name.toList, isNameChar c = true) ∧
      (name.toList ≠ [] ∧ (∀ c ∈ name.toList, isNameChar c = true) →
        ∀ values : Option Values, substitute values text' =
          substitute values before ++
            (values.bind fun v => v.get? name).getD ("\x7b" ++ name ++ "\x7d") ++
            substitute values after) := by
  obtain ⟨change, r', hchange, hr', htext'⟩ :=
    typeText_eq_ok hr htext (String.ofList (Part.placeholder name.toList).written)
  have hbraces : String.ofList (Part.placeholder name.toList).written =
      "\x7b" ++ name ++ "\x7d" := by
    rw [Part.written, List.cons_append, String.ofList_cons, String.ofList_append,
      String.ofList_toList, String.append_assoc]
    rfl
  refine ⟨change, r', _, _, _, hchange, hr', htext', (cutAt_append _ _).symm, length_cutAt _ _,
    ?_, ?_, fun hname values => ?_⟩
  · rw [hbraces]
    simp only [String.append_assoc]
  · rw [← isName_iff]
    refine ⟨fun h => ?_, fun h => placeholders_insert h _ _⟩
    -- Whatever is found has a name, so the new name can only be found if it is one.
    have hmem : name ∈ placeholders ((cutAt text session.cursor.caret).1 ++
        String.ofList (Part.placeholder name.toList).written ++
        (cutAt text session.cursor.caret).2) := by
      rw [h]
      exact List.mem_append_left _ (List.mem_append_right _ (List.mem_singleton_self name))
    exact isName_of_mem_scan (mem_placeholders.mp hmem)
  · rw [substitute_insert (isName_iff.mpr hname), hbraces]

/-- In the middle of a placeholder: a variable breaks it and is found itself, and a name with
another letter breaks it as well and is not found. -/
theorem insertVariable_live_inside :
    let session :=
      ((start "s" (.ofContents [.text "\x7bab\x7d"]) []).moveCursor ⟨"/0-text"⟩ 2).2
    let n : Node := .text ⟨"/0-text"⟩ (.of "\x7bab\x7d") "\x7bab\x7d"
    let v : Values := .ofList [("ab", "1"), ("x y", "\x7bab\x7d")]
    Node.resolve session.document.template.nodes session.cursor.address = .ok ⟨n, [n], 0⟩ ∧
      n.text? = some "\x7bab\x7d" ∧
      (∃ change r' text', (session.insertVariable "x y").1 = .ok change ∧
        Node.resolve (session.insertVariable "x y").2.document.template.nodes
          session.cursor.address = .ok r' ∧
        r'.node.text? = some text' ∧ text' = "\x7ba\x7bx y\x7db\x7d" ∧
        placeholders text' = ["x y"] ∧ substitute (some v) text' = "\x7ba\x7bab\x7db\x7d") ∧
      ∃ change r' text', (session.insertVariable "é").1 = .ok change ∧
        Node.resolve (session.insertVariable "é").2.document.template.nodes
          session.cursor.address = .ok r' ∧
        r'.node.text? = some text' ∧ text' = "\x7ba\x7bé\x7db\x7d" ∧
        placeholders text' ≠ ["é"] := by
  intro session n v
  have hdocument : session.document = .ofContents [.text "\x7bab\x7d"] := by decide +kernel
  have hcursor : session.cursor = ⟨⟨"/0-text"⟩, 2⟩ := by decide +kernel
  have hr : Node.resolve session.document.template.nodes session.cursor.address =
      .ok ⟨n, [n], 0⟩ := by
    rw [hdocument, hcursor]
    have hforest : (Document.ofContents [.text "\x7bab\x7d"]).template.nodes = [n] := by
      decide +kernel
    rw [hforest]
    exact Node.resolve_eq_ok.mpr ⟨⟨[], 0⟩, n, ⟨List.forall_mem_nil _, by decide⟩, rfl,
      by decide +kernel, rfl⟩
  have htext : n.text? = some "\x7bab\x7d" := rfl
  have hcut : ∀ before after : String, "\x7bab\x7d" = before ++ after →
      before.length = min session.cursor.caret "\x7bab\x7d".length →
      before = "\x7ba" ∧ after = "b\x7d" := by
    intro before after hsplit hlength
    rw [hcursor] at hlength
    have hlists : "\x7ba".toList ++ "b\x7d".toList = before.toList ++ after.toList :=
      (congrArg String.toList hsplit).trans String.toList_append
    obtain ⟨hbefore, hafter⟩ := List.append_inj hlists hlength.symm
    exact ⟨String.toList_inj.mp hbefore.symm, String.toList_inj.mp hafter.symm⟩
  refine ⟨hr, htext, ?_, ?_⟩
  · obtain ⟨change, r', text', before, after, hchange, hr', htext', hsplit, hlength, hmade, hlive,
      hvalue⟩ := insertVariable_live session hr htext "x y"
    obtain ⟨rfl, rfl⟩ := hcut before after hsplit hlength
    have hname : "x y".toList ≠ [] ∧ ∀ c ∈ "x y".toList, isNameChar c = true :=
      isName_iff.mp (by decide)
    refine ⟨change, r', text', hchange, hr', htext', hmade, (hlive.mpr hname).trans ?_,
      (hvalue hname (some v)).trans ?_⟩
    · decide +kernel
    · decide +kernel
  · obtain ⟨change, r', text', before, after, hchange, hr', htext', hsplit, hlength, hmade, hlive,
      -⟩ := insertVariable_live session hr htext "é"
    obtain ⟨rfl, rfl⟩ := hcut before after hsplit hlength
    have hnone : placeholders "\x7ba" ++ ["é"] ++ placeholders "b\x7d" = ["é"] := by
      decide +kernel
    rw [hnone] at hlive
    refine ⟨change, r', text', hchange, hr', htext', hmade, fun h => ?_⟩
    exact absurd (isName_iff.mpr (hlive.mp h)) (by decide)

end Session

end MessageTemplate
