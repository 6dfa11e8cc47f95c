/-
Typing in pieces.

What is typed stands at the cursor, and the cursor goes behind it (`typeText_of_target`).  So the
next piece is put behind the last one, and the pieces come to what they are together.  Neither the
template nor the cursor has to be in order for this: a caret beyond the end of its text is taken to
the end once, and an address that leads to no text refuses every piece alike.

The history is where the two ways of typing differ.  It gets an entry for every piece, and the one
of the first piece starts from the template before the typing.  That entry lies one deeper with
every piece, and it is not forgotten before it is deeper than the bound of the history
(`History.getElem?_push`).  `Typed` is what holds after any number of pieces.
-/
import MessageTemplate.Proofs.Edit.Texts
import MessageTemplate.Proofs.Session.Cursor
import MessageTemplate.Proofs.Session.Limits

set_option autoImplicit false

namespace MessageTemplate

/-! ## The same text again -/

/-- After `setTextAt` an address that leads to the text leads to what it is exchanged for. -/
theorem Template.textTarget_setTextAt_self {t : Template} {a : Address} {site : Site} {old : String}
    (h : t.textTarget a = .ok (site, old)) (s : String) :
    (t.setTextAt site s).textTarget a = .ok (site, s) := by
  obtain ⟨n, hsite, htext⟩ := textTarget_eq_ok.mp h
  obtain ⟨hbounded, hn, ha⟩ := Node.siteOf_eq_ok.mp hsite
  have htext' := Node.text?_setText htext s
  have ha' : a = site.address (n.setText s).kind := by
    rw [ha, Node.kind_of_text? htext, Node.kind_of_text? htext']
  exact textTarget_eq_ok.mpr
    ⟨_, Node.siteOf_eq_ok.mpr ⟨hbounded, getElem?_setTextAt hn s, ha'⟩, htext'⟩

theorem cutAt_length (before after : String) :
    cutAt (before ++ after) before.length = (before, after) := by
  rw [cutAt, String.toList_append, ← String.length_toList, List.take_left, List.drop_left,
    String.ofList_toList, String.ofList_toList]

/-! ## Entries of a history -/

namespace History

theorem limit_push (h : History) (entry : Entry) : (h.push entry).limit = h.limit := rfl

/-- `push` adds an entry on top of the others, and these are what they were as deep as the bound
goes. -/
theorem getElem?_push {h : History} (entry : Entry) {k : Nat}
    (hk : h.limit = 0 ∨ k < h.limit) : (h.push entry).undos[k]? = (entry :: h.undos)[k]? := by
  by_cases hfull : 0 < h.limit ∧ h.limit < (entry :: h.undos).length
  · rw [push_of_full hfull]
    -- Only the last of too many entries is gone.
    have hlt : k < (entry :: h.undos).length - 1 := by omega
    rw [List.getElem?_dropLast, if_pos hlt]
  · rw [push_of_room hfull]

/-- Outside of a batch `record` makes an entry of its own for an edit, which starts from the
template before the edit. -/
theorem record_of_not_batching {h : History} (hbatching : h.batching = false) (e : Edit)
    (before after : Template) : h.record e before after = h.push (.single e before after) := by
  rw [record, if_neg (Bool.eq_false_iff.mp hbatching)]

/-- No `Move` changes the `limit` of a history. -/
theorem Move.limit_eq {h h' : History} {d d' : Document} {step : Step}
    (hmove : Move h d step h' d') : h'.limit = h.limit := by
  cases hmove with
  | recorded => exact limit_push h _
  | pushed => exact limit_push h.closed _
  | refused | opened | joined | nothingToUndo | undone | nothingToRedo | redone | begun | dropped
  | renamed | announced | ignored | cleared => rfl

theorem limit_perform (h : History) (d : Document) (step : Step) :
    (h.perform d step).2.1.limit = h.limit :=
  (h.move d step).limit_eq

end History

namespace Session

/-! ## The history of a session -/

/-- `settle` looks after the cursor and leaves the history alone. -/
theorem history_settle (s : Session) : s.settle.history = s.history := by
  rw [settle]
  split
  case h_1 => rfl
  case h_2 => rfl

/-- The operations of a session reach the history only through its own operations, so the `limit`
stays what it was; first for the edits. -/
theorem limit_apply (s : Session) (e : Edit) :
    (s.apply e).2.history.limit = s.history.limit := by
  have hlimit := (s.history.move_apply s.document e).limit_eq
  rw [apply]
  rcases hres : s.history.apply e s.document with ⟨cause | change, history, document⟩
  all_goals rw [hres] at hlimit
  · exact hlimit
  · dsimp only
    cases change.focus with
    | some focus => exact hlimit
    | none =>
      dsimp only
      rw [history_settle]
      exact hlimit

theorem limit_changeText (s : Session) (a : Address) (caret : Nat) (text : String) :
    (s.changeText a caret text).2.history.limit = s.history.limit := by
  have hlimit := s.limit_apply (.replaceText a text)
  unfold changeText
  rcases hres : s.apply (.replaceText a text) with ⟨cause | change, s'⟩
  all_goals
    rw [hres] at hlimit
    exact hlimit

/-- Every `Step` of a session keeps the `limit` of its history. -/
theorem limit_perform (s : Session) (step : Step) :
    (s.perform step).2.history.limit = s.history.limit := by
  cases step with
  | typeText text => exact s.limit_apply _
  | insertVariable name => exact s.limit_apply _
  | changeText a caret text => exact s.limit_changeText a caret text
  | insertConditional => exact s.limit_apply _
  | deleteConditional a => exact s.limit_apply _
  | moveCursor a caret =>
    rw [perform, moveCursor]
    cases textLength s.document.template a with
    | ok length => rfl
    | error cause => rfl
  | undo =>
    show s.undo.2.history.limit = _
    rw [undo, history_settle]
    exact (s.history.move_undo s.document).limit_eq
  | redo =>
    show s.redo.2.history.limit = _
    rw [redo, history_settle]
    exact (s.history.move_redo s.document).limit_eq
  | beginBatch => exact s.history.limit_perform s.document .beginBatch
  | endBatch => exact s.history.limit_perform s.document .endBatch
  | describe description => exact s.history.limit_perform s.document (.describe description)
  | clear => exact s.history.limit_perform s.document .clear

/-- And so does every other `Action` on a session, its document or its history. -/
theorem limit_actAll (actions : List Action) : ∀ s : Session,
    (s.actAll actions).history.limit = s.history.limit := by
  induction actions with
  | nil => exact fun _ => rfl
  | cons action rest ih =>
    intro s
    refine (ih (s.act action)).trans ?_
    cases action with
    | edit | editAt | replace => rfl
    | history step => exact s.history.limit_perform s.document step
    | session step => exact s.limit_perform step

/-! ## Undoing so often -/

/-- Every `undo` takes one entry off `undos`, as long as there is one. -/
theorem undos_run_undo (k : Nat) : ∀ s : Session,
    (s.run (List.replicate k .undo)).history.undos = s.history.undos.drop k := by
  induction k with
  | zero => exact fun _ => rfl
  | succ k ih =>
    intro s
    show (s.undo.2.run (List.replicate k .undo)).history.undos = _
    rw [ih, undo, history_settle, History.undo]
    cases hundos : s.history.undos with
    | nil =>
      show s.history.undos.drop k = _
      rw [hundos, List.drop_nil, List.drop_nil]
    | cons entry rest => rfl

/-- `undo` puts back what the most recent entry started from. -/
theorem template_undo {s : Session} {entry : History.Entry}
    (hentry : s.history.undos[0]? = some entry) :
    s.undo.1 = true ∧ s.undo.2.document.template = entry.before := by
  rw [undo, document_settle, History.undo]
  cases hundos : s.history.undos with
  | nil =>
    rw [hundos] at hentry
    cases hentry
  | cons first rest =>
    rw [hundos] at hentry
    obtain rfl := Option.some.inj hentry
    exact ⟨rfl, rfl⟩

/-- The last of `k + 1` undos puts back what its entry started from.  The entry is named by its
depth, so it does not matter what the entries above it are. -/
theorem template_run_undo {s : Session} {k : Nat} {entry : History.Entry}
    (hentry : s.history.undos[k]? = some entry) :
    (s.run (List.replicate k .undo)).undo.1 = true ∧
      (s.run (List.replicate (k + 1) .undo)).document.template = entry.before := by
  have hfirst : (s.run (List.replicate k .undo)).history.undos[0]? = some entry := by
    rw [undos_run_undo, List.getElem?_drop]
    exact hentry
  have hlast : s.run (List.replicate (k + 1) .undo) =
      (s.run (List.replicate k .undo)).undo.2 := by
    rw [List.replicate_succ', run, List.foldl_append]
    rfl
  rw [hlast]
  exact template_undo hfirst

/-! ## One piece -/

section

variable {s : Session}

/-- Where the cursor's address leads to no text, typing is refused with the cause that `textTarget`
gives, whatever is typed. -/
theorem typeText_of_error {cause : EditError}
    (h : s.document.template.textTarget s.cursor.address = .error cause) (literal : String) :
    s.typeText literal = (.error (.edit cause), s) := by
  have happly := Edit.apply_insertText s.cursor.address s.cursor.caret literal s.document.template
  rw [h] at happly
  rcases s.apply_cases (.insertText s.cursor.address s.cursor.caret literal) with
    ⟨cause', hrefused, hres⟩ | ⟨edited, hedit, -⟩
  · obtain rfl := Except.error.inj (happly.symm.trans hrefused)
    exact hres
  · cases happly.symm.trans hedit

/-- What `typeText` types stands between the two parts of the text, and the cursor behind it. -/
theorem typeText_of_target {site : Site} {old : String}
    (h : s.document.template.textTarget s.cursor.address = .ok (site, old)) (literal : String) :
    let t := s.document.template.setTextAt site
      ((cutAt old s.cursor.caret).1 ++ literal ++ (cutAt old s.cursor.caret).2)
    let focus : Focus := ⟨s.cursor.address, clampCaret old s.cursor.caret + literal.length⟩
    let e := Edit.insertText s.cursor.address s.cursor.caret literal
    s.typeText literal = (.ok ⟨s.document.version + 1, some focus⟩,
      { s with
        history := s.history.record e s.document.template t
        document := s.document.replace t
        cursor := focus }) := by
  intro t focus e
  have happly := Edit.apply_insertText s.cursor.address s.cursor.caret literal s.document.template
  rw [h] at happly
  rcases s.apply_cases e with ⟨cause, hrefused, -⟩ | ⟨edited, hedit, hres⟩
  · cases happly.symm.trans hrefused
  · obtain rfl := Except.ok.inj (happly.symm.trans hedit)
    exact hres

/-! ## Piece by piece -/

/-- The session `s'` is left when the literal has been typed in the session `s`, and so many
pieces of it after the first one.  The template and the cursor do not show the pieces.  In the
history the entry of the first piece lies under those of the others. -/
structure Typed (s : Session) (site : Site) (old literal : String) (more : Nat)
    (s' : Session) : Prop where
  template : s'.document.template = s.document.template.setTextAt site
    ((cutAt old s.cursor.caret).1 ++ literal ++ (cutAt old s.cursor.caret).2)
  cursor : s'.cursor = ⟨s.cursor.address, clampCaret old s.cursor.caret + literal.length⟩
  limit : s'.history.limit = s.history.limit
  batching : s.history.batching = false → s'.history.batching = false
  entry : s.history.batching = false → s.history.limit = 0 ∨ more < s.history.limit →
    ∃ entry, s'.history.undos[more]? = some entry ∧ entry.before = s.document.template

variable {site : Site} {old : String}

/-- `Typed` after the first piece: its entry is on top of the history. -/
theorem typed_first (h : s.document.template.textTarget s.cursor.address = .ok (site, old))
    (literal : String) :
    (∃ change, (s.typeText literal).1 = .ok change) ∧
      s.Typed site old literal 0 (s.typeText literal).2 := by
  have hlimit : (s.typeText literal).2.history.limit = s.history.limit := s.limit_apply _
  rw [typeText_of_target h literal] at hlimit ⊢
  refine ⟨⟨_, rfl⟩, rfl, rfl, hlimit, fun hbatching => ?_, fun hbatching hroom => ?_⟩
  · dsimp only
    rw [History.record_of_not_batching hbatching]
    exact hbatching
  · dsimp only
    rw [History.record_of_not_batching hbatching, History.getElem?_push _ hroom]
    exact ⟨_, rfl, rfl⟩

/-- The step lemma: with one more `piece` typed, the literal is longer by it, and the entry of the
first piece lies one deeper. -/
theorem Typed.next {s' : Session} {literal : String} {more : Nat}
    (h : s.document.template.textTarget s.cursor.address = .ok (site, old))
    (hs : s.Typed site old literal more s') (piece : String) :
    (∃ change, (s'.typeText piece).1 = .ok change) ∧
      s.Typed site old (literal ++ piece) (more + 1) (s'.typeText piece).2 := by
  -- The text is now the one with the literal in it, and the cursor stands behind the literal.
  have htarget : s'.document.template.textTarget s'.cursor.address = .ok (site,
      (cutAt old s.cursor.caret).1 ++ literal ++ (cutAt old s.cursor.caret).2) := by
    rw [hs.template, hs.cursor]
    exact Template.textTarget_setTextAt_self h _
  have hcaret : s'.cursor.caret = ((cutAt old s.cursor.caret).1 ++ literal).length := by
    rw [hs.cursor, String.length_append, length_cutAt]
  have hlimit : (s'.typeText piece).2.history.limit = s'.history.limit := s'.limit_apply _
  rw [typeText_of_target htarget piece] at hlimit ⊢
  refine ⟨⟨_, rfl⟩, ?_, ?_, hlimit.trans hs.limit, fun hbatching => ?_, fun hbatching hroom => ?_⟩
  · have hjoin : (cutAt old s.cursor.caret).1 ++ literal ++ piece =
        (cutAt old s.cursor.caret).1 ++ (literal ++ piece) := String.append_assoc
    show s'.document.template.setTextAt site _ = _
    rw [hs.template, Template.setTextAt_setTextAt, hcaret, cutAt_length]
    dsimp only
    rw [hjoin]
  · have hclamp : clampCaret ((cutAt old s.cursor.caret).1 ++ literal ++
        (cutAt old s.cursor.caret).2) s'.cursor.caret = s'.cursor.caret := by
      rw [clampCaret, hcaret, String.length_append (_ ++ _)]
      exact Nat.min_eq_left (Nat.le_add_right _ _)
    dsimp only
    rw [hclamp, hs.cursor, String.length_append, Nat.add_assoc]
  · dsimp only
    rw [History.record_of_not_batching (hs.batching hbatching)]
    exact hs.batching hbatching
  · dsimp only
    rw [History.record_of_not_batching (hs.batching hbatching)]
    rw [History.getElem?_push _ (hs.limit.symm ▸ hroom), List.getElem?_cons_succ]
    exact hs.entry hbatching (hroom.imp_right Nat.lt_of_succ_lt)

end

/-- Types texts one after the other by `typeText`, and gives all the answers. -/
def typeAll (s : Session) : List String → List (Except DocumentError Change) × Session
  | [] => ([], s)
  | text :: rest =>
    ((s.typeText text).1 :: ((s.typeText text).2.typeAll rest).1,
      ((s.typeText text).2.typeAll rest).2)

section

variable {s : Session} {site : Site} {old : String}

/-- If the first piece is refused, so are all the others, and for the same reason, since nothing
changes in between. -/
theorem typeAll_of_error {cause : EditError}
    (h : s.document.template.textTarget s.cursor.address = .error cause) (texts : List String) :
    s.typeAll texts = (List.replicate texts.length (.error (.edit cause)), s) := by
  induction texts with
  | nil => rfl
  | cons text rest ih =>
    rw [typeAll, typeText_of_error h]
    dsimp only
    rw [ih]
    rfl

/-- The run lemma.  The induction is on the pieces that are left, from any session in between, and
`Typed.next` is its step. -/
theorem Typed.rest (h : s.document.template.textTarget s.cursor.address = .ok (site, old))
    (pieces : List String) : ∀ {s' : Session} {literal : String} {more : Nat},
    s.Typed site old literal more s' →
      (∀ answer ∈ (s'.typeAll pieces).1, ∃ change, answer = .ok change) ∧
        s.Typed site old (literal ++ String.join pieces) (more + pieces.length)
          (s'.typeAll pieces).2 := by
  induction pieces with
  | nil =>
    intro s' literal more hs
    rw [String.join_nil, String.append_empty]
    exact ⟨List.forall_mem_nil _, hs⟩
  | cons piece rest ih =>
    intro s' literal more hs
    obtain ⟨hanswer, hnext⟩ := hs.next h piece
    obtain ⟨hanswers, hrest⟩ := ih hnext
    rw [typeAll]
    refine ⟨List.forall_mem_cons.mpr ⟨hanswer, hanswers⟩, ?_⟩
    rw [String.join_cons, ← String.append_assoc, List.length_cons, Nat.add_comm rest.length,
      ← Nat.add_assoc]
    exact hrest

end

theorem length_typeAll (texts : List String) : ∀ s : Session,
    (s.typeAll texts).1.length = texts.length := by
  induction texts with
  | nil => exact fun _ => rfl
  | cons text rest ih => exact fun s => congrArg Nat.succ (ih (s.typeText text).2)

/-! ## All of it -/

/-- The session was new once, and whatever was done since was an `Action` on it, on its document or
on its history. -/
def Reached (s : Session) : Prop :=
  ∃ id d names actions, (start id d names).actAll actions = s

/-- Texts are typed one after the other (`typeAll`), or what they are together is typed at once.
This leaves the same template and the same cursor.  Either everything is accepted, or everything is
refused, for the same reason, and the session stays as it is.  If it is accepted outside of a batch,
and the texts are not more than the history has room for, then as many undos in the one case and one
undo in the other lead back to the template from before the typing, and none of them has nothing to
undo. -/
theorem typing_pieces {s : Session} (hs : s.Reached) {texts : List String} (htexts : texts ≠ []) :
    let apart := s.typeAll texts
    let once := s.typeText (String.join texts)
    apart.2.document.template = once.2.document.template ∧ apart.2.cursor = once.2.cursor ∧
      apart.1.length = texts.length ∧
      (((∀ answer ∈ apart.1, ∃ change, answer = .ok change) ∧
          (∃ change, once.1 = .ok change) ∧
          (s.history.batching = false → texts.length ≤ History.usualLimit →
            (∀ k < texts.length, (apart.2.run (List.replicate k .undo)).undo.1 = true) ∧
            (apart.2.run (List.replicate texts.length .undo)).document.template =
              s.document.template ∧
            once.2.undo.1 = true ∧ once.2.undo.2.document.template = s.document.template)) ∨
        ∃ cause, (∀ answer ∈ apart.1, answer = .error cause) ∧ once.1 = .error cause ∧
          apart.2 = s ∧ once.2 = s) := by
  intro apart once
  have hlimit : s.history.limit = History.usualLimit := by
    obtain ⟨id, d, names, actions, rfl⟩ := hs
    exact limit_actAll actions (start id d names)
  obtain ⟨text, rest, rfl⟩ := List.exists_cons_of_ne_nil htexts
  cases htarget : s.document.template.textTarget s.cursor.address with
  | error cause =>
    have hapart : apart = (List.replicate (text :: rest).length (.error (.edit cause)), s) :=
      typeAll_of_error htarget (text :: rest)
    have honce : once = (.error (.edit cause), s) := typeText_of_error htarget _
    rw [hapart, honce]
    exact ⟨rfl, rfl, List.length_replicate,
      .inr ⟨.edit cause, fun _ => List.eq_of_mem_replicate, rfl, rfl, rfl⟩⟩
  | ok target =>
    obtain ⟨site, old⟩ := target
    obtain ⟨hfirst, htyped⟩ := typed_first htarget text
    obtain ⟨hrest, hall⟩ := htyped.rest htarget rest
    obtain ⟨hanswer, honce⟩ := typed_first htarget (String.join (text :: rest))
    rw [← String.join_cons, Nat.zero_add] at hall
    refine ⟨?_, ?_, length_typeAll _ s, .inl ⟨?_, hanswer, fun hbatching hroom => ?_⟩⟩
    · exact hall.template.trans honce.template.symm
    · exact hall.cursor.trans honce.cursor.symm
    · exact List.forall_mem_cons.mpr ⟨hfirst, hrest⟩
    · have hdeep : rest.length < s.history.limit := by
        rw [hlimit]
        exact hroom
      obtain ⟨entry, hentry, hbefore⟩ := hall.entry hbatching (.inr hdeep)
      have hone : s.history.limit = 0 ∨ 0 < s.history.limit := Nat.eq_zero_or_pos _
      obtain ⟨entry', hentry', hbefore'⟩ := honce.entry hbatching hone
      obtain ⟨hundone, htemplate⟩ := template_undo hentry'
      refine ⟨fun k hk => ?_, ?_, hundone, htemplate.trans hbefore'⟩
      · -- Above the entry of the first piece there are those of the others.
        obtain ⟨hlength, -⟩ := List.getElem?_eq_some_iff.mp hentry
        have hk' : k < apart.2.history.undos.length := Nat.lt_of_lt_of_le hk hlength
        exact (template_run_undo (List.getElem?_eq_getElem hk')).1
      · exact (template_run_undo hentry).2.trans hbefore

/-- A character of two bytes, nothing, and a placeholder in the middle of a text.  A template that
begins with a conditional has no text for them. -/
theorem typing_pieces_unicode :
    let placed := [Action.session (.moveCursor ⟨"/0-text"⟩ 1)]
    let s := (start "s" (.ofContents [.text "ab"]) []).actAll placed
    let s' := start "s" (.ofContents [.conditional [] [] []]) []
    let texts := ["é", "", "\x7bx\x7d"]
    s.Reached ∧ s'.Reached ∧ texts ≠ [] ∧ s.history.batching = false ∧
      texts.length ≤ History.usualLimit ∧
      (s.typeAll texts).2.cursor = ⟨⟨"/0-text"⟩, 5⟩ ∧
      (s.typeAll texts).2.document.template = .ofContents [.text "aé\x7bx\x7db"] ∧
      ((s.typeAll texts).2.run (List.replicate texts.length .undo)).document.template =
        .ofContents [.text "ab"] ∧
      (s'.typeAll texts).2 = s' := by
  intro placed s s' texts
  have hs : s.Reached := ⟨_, _, _, placed, rfl⟩
  have hs' : s'.Reached := ⟨_, _, _, [], rfl⟩
  have htexts : texts ≠ [] := List.cons_ne_nil _ _
  have hbatching : s.history.batching = false := by decide +kernel
  have hlength : texts.length ≤ History.usualLimit := by decide
  have haccepted : (s.typeText (String.join texts)).1.isOk = true := by decide +kernel
  have hrefused : (s'.typeText (String.join texts)).1.isOk = false := by decide +kernel
  obtain ⟨htemplate, hcursor, -, hcases⟩ := typing_pieces hs htexts
  obtain ⟨-, -, -, hcases'⟩ := typing_pieces hs' htexts
  refine ⟨hs, hs', htexts, hbatching, hlength, ?_, ?_, ?_, ?_⟩
  · rw [hcursor]
    decide +kernel
  · rw [htemplate]
    decide +kernel
  · rcases hcases with ⟨-, -, hundone⟩ | ⟨cause, -, hcause, -⟩
    · obtain ⟨-, hback, -⟩ := hundone hbatching hlength
      rw [hback]
      decide +kernel
    · rw [hcause] at haccepted
      exact absurd haccepted nofun
  · rcases hcases' with ⟨-, ⟨change, hchange⟩, -⟩ | ⟨cause, -, -, hsame, -⟩
    · rw [hchange] at hrefused
      exact absurd hrefused nofun
    · exact hsame

end Session

end MessageTemplate
