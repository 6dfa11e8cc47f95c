/-
Carets that a host counts in UTF-16 units.

A host hands over an offset in units, and the library edits at a caret (`Text.caretOfUnits`).  The
two are tied by one equivalence, `le_caretOfUnits_iff`: the caret of an offset is at or behind a
place exactly if the units in front of the place fit into the offset.  That the caret is the last
such place, that it moves forward with the offset, and that the offset of a caret leads back to the
caret are all read off from it.

The units of a text are those of its characters one after the other, so cutting the text at a caret
cuts its units at the offset of the caret.  An insertion that counts characters, and is carried out
at a byte, is therefore an insertion into the units as well.
-/
import Mathlib.Order.Bounds.Defs
import Mathlib.Order.Monotone.Basic
import MessageTemplate.Proofs.Edit.Texts

set_option autoImplicit false

namespace MessageTemplate

namespace Text

/-! ## Counting units -/

/-- How many UTF-16 units stand in front of a caret: the length of their `utf16`. -/
def unitsOfCaret (cs : List Char) (caret : Nat) : Nat :=
  (utf16 (cs.take caret)).length

/-- Every character takes at least one unit, so no two carets have the same offset. -/
theorem length_utf16Char_pos (c : Char) : 0 < (utf16Char c).length := by
  rw [utf16Char]
  split
  case isTrue => exact Nat.zero_lt_one
  case isFalse => exact Nat.zero_lt_two

theorem utf16_append (front back : List Char) :
    utf16 (front ++ back) = utf16 front ++ utf16 back :=
  List.flatMap_append

variable {cs : List Char} {caret n : Nat}

@[simp] theorem unitsOfCaret_zero : unitsOfCaret cs 0 = 0 := rfl

theorem unitsOfCaret_cons_succ (c : Char) (cs : List Char) (caret : Nat) :
    unitsOfCaret (c :: cs) (caret + 1) = (utf16Char c).length + unitsOfCaret cs caret := by
  rw [unitsOfCaret, List.take_succ_cons, utf16, List.flatMap_cons, List.length_append]
  rfl

/-- One place further `unitsOfCaret` is greater. -/
theorem unitsOfCaret_lt_succ (h : caret < cs.length) :
    unitsOfCaret cs caret < unitsOfCaret cs (caret + 1) := by
  induction cs generalizing caret with
  | nil => exact absurd h (Nat.not_lt_zero caret)
  | cons c rest ih =>
    cases caret with
    | zero =>
      rw [unitsOfCaret_zero, unitsOfCaret_cons_succ]
      exact Nat.add_pos_left (length_utf16Char_pos c) _
    | succ caret =>
      rw [unitsOfCaret_cons_succ, unitsOfCaret_cons_succ c rest (caret + 1)]
      exact Nat.add_lt_add_left (ih (Nat.lt_of_succ_lt_succ h)) _

/-! ## The caret of an offset -/

/-- `caretOfUnits` leads no offset beyond the end of the text. -/
theorem caretOfUnits_le_length (cs : List Char) : ∀ n, caretOfUnits cs n ≤ cs.length := by
  induction cs with
  | nil => exact fun n => Nat.le_refl 0
  | cons c rest ih =>
    intro n
    rw [caretOfUnits]
    split
    case isTrue => exact Nat.succ_le_succ (ih _)
    case isFalse => exact Nat.zero_le _

/-- The caret of an offset (`caretOfUnits`) is at or behind a place exactly if the units in front of
the place fit into the offset. -/
theorem le_caretOfUnits_iff (h : caret ≤ cs.length) :
    caret ≤ caretOfUnits cs n ↔ unitsOfCaret cs caret ≤ n := by
  induction cs generalizing caret n with
  | nil =>
    obtain rfl := Nat.le_zero.mp h
    exact iff_of_true (Nat.zero_le _) (Nat.zero_le _)
  | cons c rest ih =>
    cases caret with
    | zero =>
      rw [unitsOfCaret_zero]
      exact iff_of_true (Nat.zero_le _) (Nat.zero_le _)
    | succ caret =>
      have hrest : caret ≤ caretOfUnits rest (n - (utf16Char c).length) ↔
          unitsOfCaret rest caret ≤ n - (utf16Char c).length := ih (Nat.le_of_succ_le_succ h)
      rw [caretOfUnits, unitsOfCaret_cons_succ]
      split
      case isTrue hfits => omega
      -- An offset that ends inside of the first character stands in front of it.
      case isFalse hinside => omega

/-- The caret of an offset is the last place whose units fit into the offset, in the words of
`IsGreatest`. -/
theorem isGreatest_caretOfUnits (cs : List Char) (n : Nat) :
    IsGreatest {caret | caret ≤ cs.length ∧ unitsOfCaret cs caret ≤ n} (caretOfUnits cs n) := by
  have hle := caretOfUnits_le_length cs n
  exact ⟨⟨hle, (le_caretOfUnits_iff hle).mp (Nat.le_refl _)⟩,
    fun caret h => (le_caretOfUnits_iff h.1).mpr h.2⟩

theorem caretOfUnits_mono (cs : List Char) : Monotone (caretOfUnits cs) := by
  intro m n hmn
  obtain ⟨hle, hfits⟩ := (isGreatest_caretOfUnits cs m).1
  exact (le_caretOfUnits_iff hle).mpr (Nat.le_trans hfits hmn)

/-- `caretOfUnits` leads the offset of a caret back to the caret. -/
theorem caretOfUnits_unitsOfCaret (h : caret ≤ cs.length) :
    caretOfUnits cs (unitsOfCaret cs caret) = caret := by
  refine Nat.le_antisymm (Nat.le_of_not_lt fun hlt => ?_)
    ((le_caretOfUnits_iff h).mpr (Nat.le_refl _))
  -- One place further the units would have to fit as well, and there is at least one more.
  have hnext : caret + 1 ≤ cs.length := Nat.le_trans hlt (caretOfUnits_le_length cs _)
  have hfits : unitsOfCaret cs (caret + 1) ≤ unitsOfCaret cs caret :=
    (le_caretOfUnits_iff hnext).mp hlt
  exact absurd (unitsOfCaret_lt_succ hnext) (Nat.not_lt.mpr hfits)

/-! ## Cutting the units -/

/-- The units of both parts of a text (`cutAt`) are the units of the text. -/
theorem utf16_cut (cs : List Char) (caret : Nat) :
    utf16 (cs.take caret) ++ utf16 (cs.drop caret) = utf16 cs := by
  rw [← utf16_append, List.take_append_drop]

/-- The units in front of a caret are as many as `unitsOfCaret` says. -/
theorem utf16_take (cs : List Char) (caret : Nat) :
    utf16 (cs.take caret) = (utf16 cs).take (unitsOfCaret cs caret) := by
  rw [← utf16_cut cs caret]
  exact (List.take_left' rfl).symm

theorem utf16_drop (cs : List Char) (caret : Nat) :
    utf16 (cs.drop caret) = (utf16 cs).drop (unitsOfCaret cs caret) := by
  rw [← utf16_cut cs caret]
  exact (List.drop_left' rfl).symm

/-- Putting a literal in at a caret puts its units in at the offset of the caret, `unitsOfCaret`. -/
theorem utf16_insert (s : String) (caret : Nat) (literal : String) :
    utf16 ((cutAt s caret).1 ++ literal ++ (cutAt s caret).2).toList =
      (utf16 s.toList).take (unitsOfCaret s.toList caret) ++ utf16 literal.toList ++
        (utf16 s.toList).drop (unitsOfCaret s.toList caret) := by
  rw [String.toList_append, String.toList_append, utf16_append, utf16_append, cutAt,
    String.toList_ofList, String.toList_ofList, utf16_take, utf16_drop]

end Text

/-! ## Inserting at an offset -/

namespace Edit

/-- What a host that counts UTF-16 units may rely on.  The caret of an offset is the last place
in the text whose units fit into the offset, so it moves forward with the offset, and the offset
of a place leads back to the place.  At such an offset an insertion puts the units of the literal
between the units in front of the offset and those behind it, whether the text is cut by
characters or by bytes. -/
theorem insertText_in_units (s : String) :
    (∀ n, IsGreatest {caret | caret ≤ s.length ∧ Text.unitsOfCaret s.toList caret ≤ n}
      (Text.caretOfUnits s.toList n)) ∧
    Monotone (Text.caretOfUnits s.toList) ∧
    (∀ k ≤ s.length, Text.caretOfUnits s.toList (Text.unitsOfCaret s.toList k) = k) ∧
    ∀ (n k : Nat) (literal : String), k ≤ s.length → n = Text.unitsOfCaret s.toList k →
      ∃ made, Text.insertAtCaret s (Text.caretOfUnits s.toList n) literal =
          some (made, k + literal.length) ∧
        Text.utf16 made.toList = (Text.utf16 s.toList).take n ++ Text.utf16 literal.toList ++
          (Text.utf16 s.toList).drop n ∧
        ∀ (t : Template) (a : Address) (r : Resolved), Node.resolve t.nodes a = .ok r →
          r.node.text? = some s →
          ∃ t' r', (insertText a (Text.caretOfUnits s.toList n) literal).apply t =
              .ok ⟨t', some ⟨a, k + literal.length⟩⟩ ∧
            Node.resolve t'.nodes a = .ok r' ∧ r'.node.text? = some made := by
  have hback : ∀ k ≤ s.length,
      Text.caretOfUnits s.toList (Text.unitsOfCaret s.toList k) = k :=
    fun k hk => Text.caretOfUnits_unitsOfCaret hk
  refine ⟨Text.isGreatest_caretOfUnits s.toList, Text.caretOfUnits_mono s.toList, hback, ?_⟩
  rintro n k literal hk rfl
  have hclamp : clampCaret s k = k := Nat.min_eq_left hk
  rw [hback k hk]
  refine ⟨_, ?_, Text.utf16_insert s k literal, fun t a r hr htext => ?_⟩
  · rw [insertAtCaret_eq, hclamp]
  · have hedited := resolve_insertText hr htext k literal
    rwa [hclamp] at hedited

/-- A literal behind a pair of surrogates, and an offset that ends between the two. -/
theorem insertText_in_units_behind_pair :
    let t := Template.ofContents [.conditional [.text "a😀b"] [] []]
    let a : Address := ⟨"/0-if-cond/0-text"⟩
    let n : Node := .text a (.of "a😀b") "a😀b"
    let siblings := Site.siblings ⟨[(0, .condition)], 0⟩ t.nodes
    2 ≤ "a😀b".length ∧ 3 = Text.unitsOfCaret "a😀b".toList 2 ∧
      Node.resolve t.nodes a = .ok ⟨n, siblings, 0⟩ ∧ n.text? = some "a😀b" ∧
      Text.caretOfUnits "a😀b".toList 2 = 1 ∧
      Text.insertAtCaret "a😀b" (Text.caretOfUnits "a😀b".toList 3) "é" = some ("a😀éb", 3) ∧
      Text.utf16 "a😀éb".toList = [0x61, 0xD83D, 0xDE00] ++ [0xE9] ++ [0x62] ∧
      ∃ t' r', (insertText a (Text.caretOfUnits "a😀b".toList 3) "é").apply t =
          .ok ⟨t', some ⟨a, 3⟩⟩ ∧
        Node.resolve t'.nodes a = .ok r' ∧ r'.node.text? = some "a😀éb" := by
  intro t a n siblings
  have hlength : 2 ≤ "a😀b".length := by decide +kernel
  have hoffset : 3 = Text.unitsOfCaret "a😀b".toList 2 := by decide +kernel
  have hbounded : Site.Bounded ⟨[(0, .condition)], 0⟩ := by
    simp only [Site.Bounded, List.forall_mem_singleton, indexBound, UInt64.size]
    omega
  have hn : siblings[0]? = some n := by decide +kernel
  have hfinds : t.Finds ⟨[(0, .condition)], 0⟩ n := (Template.ofContents_wellFormed _).finds hn
  have hr : Node.resolve t.nodes a = .ok ⟨n, siblings, 0⟩ := hfinds.resolves hbounded
  obtain ⟨-, -, -, hinsert⟩ := insertText_in_units "a😀b"
  obtain ⟨made, hmade, hunits, hedit⟩ := hinsert 3 2 "é" hlength hoffset
  have hvalue : Text.insertAtCaret "a😀b" (Text.caretOfUnits "a😀b".toList 3) "é" =
      some ("a😀éb", 3) := by decide +kernel
  obtain ⟨rfl, -⟩ := Prod.mk.inj (Option.some.inj (hmade.symm.trans hvalue))
  obtain ⟨t', r', happly, hr', htext'⟩ := hedit t a _ hr rfl
  exact ⟨hlength, hoffset, hr, rfl, by decide +kernel, hvalue, hunits.trans (by decide +kernel),
    t', r', happly, hr', htext'⟩

end Edit

end MessageTemplate
