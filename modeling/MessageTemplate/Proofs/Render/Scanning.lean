/-
What a scanner has read, and what a text says depends on.

A scanner that has opened a brace does not know yet whether the characters since will be a
placeholder or ordinary characters.  Either way they are written the same, so at every moment the
parts that it would give if the text ended here spell what it has read so far (`Scanner.read`).  One
step adds one character to them; that is the invariant (`read_step`), and it needs no look at what
comes next.

So scanning loses nothing, and a text into which nothing is put stays as it is.  What is put in is
looked up by the names that the scan finds, and by no other name (`substitute_congr`).
-/
import Mathlib.Data.List.Basic
import MessageTemplate.Render.Message

set_option autoImplicit false

namespace MessageTemplate

/-! ## Nothing is lost -/

namespace Scanner

/-- The characters that a `Scanner` has read, spelled by the parts that it would give if the text
ended here. -/
def read (s : Scanner) : List Char :=
  s.finish.flatMap Part.written

theorem flatMap_written_literal (name : List Char) :
    (name.map Part.literal).flatMap Part.written = name := by
  rw [List.flatMap_map]
  exact List.flatMap_singleton' name

/-- What `giveUp` makes of a brace that opens nothing is written as the brace with what follows
it. -/
theorem flatMap_written_giveUp (parts : List Part) (name : List Char) :
    (giveUp parts name).reverse.flatMap Part.written =
      parts.reverse.flatMap Part.written ++ '{' :: name.reverse := by
  have hname := flatMap_written_literal name.reverse
  rw [List.map_reverse] at hname
  rw [giveUp, List.reverse_append, List.reverse_cons, List.flatMap_append, List.flatMap_append,
    hname, List.append_assoc]
  rfl

theorem read_closed (parts : List Part) :
    read ⟨parts, none⟩ = parts.reverse.flatMap Part.written := rfl

theorem read_opened (parts : List Part) (name : List Char) :
    read ⟨parts, some name⟩ = parts.reverse.flatMap Part.written ++ '{' :: name.reverse :=
  flatMap_written_giveUp parts name

theorem read_closed_cons (part : Part) (parts : List Part) :
    read ⟨part :: parts, none⟩ = parts.reverse.flatMap Part.written ++ part.written := by
  rw [read_closed, List.reverse_cons, List.flatMap_append, List.flatMap_singleton]

/-- One `step` has `read` one character more, whatever it makes of it. -/
theorem read_step (s : Scanner) (c : Char) : (s.step c).read = s.read ++ [c] := by
  obtain ⟨parts, opened⟩ := s
  rw [step]
  cases opened with
  | none =>
    dsimp only
    by_cases hopens : c = '{'
    · rw [if_pos hopens, read_opened, read_closed, hopens, List.reverse_nil]
    · rw [if_neg hopens, read_closed_cons, read_closed, Part.written]
  | some name =>
    dsimp only
    rw [read_opened]
    -- The character goes on with the name, closes it, opens another brace, or shows that the brace
    -- was none.
    by_cases hname : isNameChar c = true
    · rw [if_pos hname, read_opened, List.reverse_cons, List.append_assoc, List.cons_append]
    rw [if_neg hname]
    by_cases hcloses : c = '}' ∧ name ≠ []
    · rw [if_pos hcloses, read_closed_cons, Part.written, hcloses.1, List.append_assoc]
    rw [if_neg hcloses]
    by_cases hopens : c = '{'
    · rw [if_pos hopens, read_opened, flatMap_written_giveUp, hopens, List.reverse_nil]
    · rw [if_neg hopens, read_closed_cons, flatMap_written_giveUp, Part.written]

/-- All steps together have `read` all characters. -/
theorem read_foldl (cs : List Char) : ∀ s : Scanner, (cs.foldl step s).read = s.read ++ cs := by
  induction cs with
  | nil => exact fun s => (List.append_nil s.read).symm
  | cons c rest ih =>
    intro s
    rw [List.foldl_cons, ih, read_step, List.append_assoc, List.singleton_append]

end Scanner

/-- The parts that `scan` finds in a text spell the text. -/
theorem flatMap_written_scan (cs : List Char) : (scan cs).flatMap Part.written = cs :=
  Scanner.read_foldl cs .start

/-! ## What a text depends on -/

theorem Part.filled_empty (part : Part) : part.filled .empty = part.written := by
  cases part with
  | literal c => rfl
  | placeholder name => rfl

/-- For `substitute` a map that is missing counts as the map that binds nothing. -/
theorem substitute_getD (values : Option Values) (s : String) :
    substitute (some (values.getD .empty)) s = substitute values s := by
  cases values with
  | some v => rfl
  | none =>
    have hfilled : Part.filled .empty = Part.written := funext Part.filled_empty
    rw [Option.getD_none, substitute, substitute, hfilled, flatMap_written_scan,
      String.ofList_toList]

/-- What `filled` makes of a part depends on the value of its own name only. -/
theorem Part.filled_congr {v v' : Values} {part : Part}
    (h : ∀ name, part.name? = some name → v.get? name = v'.get? name) :
    part.filled v = part.filled v' := by
  cases part with
  | literal c => rfl
  | placeholder name => rw [filled, filled, h (String.ofList name) rfl]

/-- Two maps that agree on the `placeholders` of a text make the same of it. -/
theorem substitute_congr {values values' : Option Values} {s : String}
    (h : ∀ name ∈ placeholders s,
      (values.getD .empty).get? name = (values'.getD .empty).get? name) :
    substitute values s = substitute values' s := by
  rw [← substitute_getD values, ← substitute_getD values', substitute, substitute]
  refine congrArg String.ofList (List.flatMap_congr fun part hpart => ?_)
  exact Part.filled_congr fun name hname => h name (List.mem_filterMap.mpr ⟨part, hpart, hname⟩)

end MessageTemplate
