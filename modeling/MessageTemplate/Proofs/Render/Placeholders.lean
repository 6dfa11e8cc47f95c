/-
Which placeholders a text has.

A name has no braces in it.  This is the whole reason why a text can be read in only one way: a
brace that opens something gives up whatever was open before it, and when the placeholder is closed
nothing is open any more.  So if a placeholder is written anywhere in a text, the scan of the text
is the scan of what is in front of it, the placeholder, and the scan of what is behind it
(`scan_placeholder`).  Nothing else has to be known of the scanner.

Everything that is said here of whole texts follows from this.  A text can be taken apart into
`Pieces`, ordinary characters and placeholders, in such a way that no placeholder is left among the
ordinary characters; a search for the first placeholder, repeated behind each one that was found,
does it (`Search.proper`); and there is no second way, because the scan gives the same parts for
each (`Proper.eq`).
-/
import Mathlib.Data.Nat.Find
import MessageTemplate.Proofs.Render.Scanning

set_option autoImplicit false

namespace MessageTemplate

/-! ## Names -/

/-- A name has at least one character, and each is one that names are made of (`isNameChar`).  A
brace is not, on which everything in this module rests. -/
theorem isName_iff {name : List Char} :
    isName name = true ↔ name ≠ [] ∧ ∀ c ∈ name, isNameChar c = true := by
  rw [isName, Bool.and_eq_true, Bool.not_eq_true', List.isEmpty_eq_false_iff, List.all_eq_true]

/-- A text somewhere has a placeholder, written in full and with a name (`isName`). -/
def HasPlaceholder (text : List Char) : Prop :=
  ∃ before name after, isName name = true ∧
    text = before ++ (Part.placeholder name).written ++ after

/-! ## Scanning over a placeholder -/

namespace Scanner

/-- An opening brace makes the scanner `giveUp` what was open before it.  What was read is then
settled, as at `finish`, and a new name begins. -/
theorem step_brace (s : Scanner) : s.step '{' = ⟨s.finish.reverse, some []⟩ := by
  obtain ⟨parts, opened⟩ := s
  have hbrace : isNameChar '{' = false := by decide
  rw [step, finish]
  cases opened with
  | none => rw [List.reverse_reverse]; rfl
  | some name =>
    dsimp only
    rw [hbrace, if_neg Bool.false_ne_true, if_neg (fun h => absurd h.1 (by decide)), if_pos rfl,
      List.reverse_reverse]

/-- The characters of a name are collected one by one behind what is open already, the last one
first. -/
theorem foldl_step_name (parts : List Part) (name : List Char) :
    ∀ opened : List Char, (∀ c ∈ name, isNameChar c = true) →
      name.foldl step ⟨parts, some opened⟩ = ⟨parts, some (name.reverse ++ opened)⟩ := by
  induction name with
  | nil => exact fun _ _ => rfl
  | cons c rest ih =>
    intro opened h
    rw [List.forall_mem_cons] at h
    have hstep : step ⟨parts, some opened⟩ c = ⟨parts, some (c :: opened)⟩ := if_pos h.1
    rw [List.foldl_cons, hstep, ih _ h.2, List.reverse_cons, List.append_assoc,
      List.singleton_append]

/-- Whatever the scanner has read before a placeholder is settled, by `giveUp`, and nothing is open
behind it. -/
theorem foldl_step_placeholder (s : Scanner) {name : List Char} (h : isName name = true) :
    (Part.placeholder name).written.foldl step s =
      ⟨.placeholder name :: s.finish.reverse, none⟩ := by
  obtain ⟨hne, hname⟩ := isName_iff.mp h
  have hbrace : isNameChar '}' = false := by decide
  have hclose : step ⟨s.finish.reverse, some name.reverse⟩ '}' =
      ⟨.placeholder name.reverse.reverse :: s.finish.reverse, none⟩ := by
    rw [step]
    dsimp only
    rw [hbrace, if_neg Bool.false_ne_true,
      if_pos ⟨rfl, fun hnil => hne (List.reverse_eq_nil_iff.mp hnil)⟩]
  -- The first brace settles everything, the name is collected, and the last brace closes it.
  rw [Part.written, List.cons_append, List.foldl_cons, step_brace, List.foldl_append,
    foldl_step_name _ _ _ hname, List.append_nil, List.foldl_cons, List.foldl_nil, hclose,
    List.reverse_reverse]

/-- The `Scanner` with parts that were read before. -/
def behind (s : Scanner) (parts : List Part) : Scanner := ⟨s.parts ++ parts, s.opened⟩

/-- What `giveUp` turns an open brace into stands in front of the parts read before it.  These are
kept in reverse, so it comes after them in the text. -/
theorem giveUp_append (parts parts' : List Part) (name : List Char) :
    giveUp (parts ++ parts') name = giveUp parts name ++ parts' := by
  rw [giveUp, giveUp, List.append_assoc, List.cons_append]

/-- What `step` makes of a character does not depend on the parts read before it.  A scanner only
ever adds to them, so they can be taken off and put back. -/
theorem step_behind (s : Scanner) (parts : List Part) (c : Char) :
    (s.behind parts).step c = (s.step c).behind parts := by
  obtain ⟨own, opened⟩ := s
  rw [behind, step, step]
  cases opened with
  | none =>
    dsimp only
    by_cases hopens : c = '{'
    · rw [if_pos hopens, if_pos hopens]; rfl
    · rw [if_neg hopens, if_neg hopens]; rfl
  | some name =>
    dsimp only
    by_cases hname : isNameChar c = true
    · rw [if_pos hname, if_pos hname]; rfl
    rw [if_neg hname, if_neg hname]
    by_cases hcloses : c = '}' ∧ name ≠ []
    · rw [if_pos hcloses, if_pos hcloses]; rfl
    rw [if_neg hcloses, if_neg hcloses, giveUp_append]
    by_cases hopens : c = '{'
    · rw [if_pos hopens, if_pos hopens]; rfl
    · rw [if_neg hopens, if_neg hopens]; rfl

/-- So it is with any number of characters, and a text can be scanned as if nothing stood in front
of it. -/
theorem foldl_step_behind (parts : List Part) (cs : List Char) : ∀ s : Scanner,
    cs.foldl step (s.behind parts) = (cs.foldl step s).behind parts := by
  induction cs with
  | nil => exact fun _ => rfl
  | cons c rest ih =>
    intro s
    rw [List.foldl_cons, List.foldl_cons, step_behind, ih]

/-- At `finish` the parts read before come first.  This turns what was read in reverse into the
order of the text. -/
theorem finish_behind (s : Scanner) (parts : List Part) :
    (s.behind parts).finish = parts.reverse ++ s.finish := by
  obtain ⟨own, opened⟩ := s
  rw [behind, finish, finish]
  cases opened with
  | none => exact List.reverse_append
  | some name =>
    dsimp only
    rw [giveUp_append, List.reverse_append]

/-! ## The names that are found -/

/-- Every placeholder that a `Scanner` has read has a name, and so has the one that is open, as far
as it has been read. -/
structure Named (s : Scanner) : Prop where
  parts : ∀ name, Part.placeholder name ∈ s.parts → isName name = true
  opened : ∀ name, s.opened = some name → ∀ c ∈ name, isNameChar c = true

/-- `giveUp` of an open brace makes no placeholder.  The brace and the characters behind it become
ordinary characters. -/
theorem placeholder_mem_giveUp {parts : List Part} {opened name : List Char}
    (h : Part.placeholder name ∈ giveUp parts opened) : Part.placeholder name ∈ parts := by
  rw [giveUp, List.mem_append] at h
  rcases h with h | h
  · obtain ⟨c, -, hc⟩ := List.mem_map.mp h
    cases hc
  · rcases List.mem_cons.mp h with h | h
    · cases h
    · exact h

/-- A scanner with nothing open is `Named` if the parts are, and so it is after a placeholder has
been closed. -/
theorem Named.closed {parts : List Part}
    (h : ∀ name, Part.placeholder name ∈ parts → isName name = true) : Named ⟨parts, none⟩ :=
  ⟨h, fun _ hopened => absurd hopened nofun⟩

/-- An ordinary character that is read with nothing open leaves the scanner `Named`. -/
theorem Named.literal {parts : List Part}
    (h : ∀ name, Part.placeholder name ∈ parts → isName name = true) (c : Char) :
    Named ⟨.literal c :: parts, none⟩ :=
  .closed fun name hmem => h name ((List.mem_cons.mp hmem).resolve_left nofun)

/-- A brace that opens leaves the scanner `Named`, as the name behind it is still empty. -/
theorem Named.opening {parts : List Part}
    (h : ∀ name, Part.placeholder name ∈ parts → isName name = true) : Named ⟨parts, some []⟩ := by
  refine ⟨h, fun name hopened c hc => ?_⟩
  obtain rfl := Option.some.inj hopened
  exact absurd hc List.not_mem_nil

/-- `Named` is kept by every `step`: a placeholder is only made of characters that have been looked
at one by one, and of at least one. -/
theorem Named.step {s : Scanner} (h : s.Named) (c : Char) : (s.step c).Named := by
  obtain ⟨parts, opened⟩ := s
  obtain ⟨hparts, hopened⟩ := h
  dsimp only at hparts hopened
  rw [Scanner.step]
  cases opened with
  | none =>
    dsimp only
    by_cases hopens : c = '{'
    · rw [if_pos hopens]
      exact .opening hparts
    · rw [if_neg hopens]
      exact .literal hparts c
  | some name =>
    have hname := hopened name rfl
    have hgiven : ∀ other, Part.placeholder other ∈ giveUp parts name → isName other = true :=
      fun other hmem => hparts other (placeholder_mem_giveUp hmem)
    dsimp only
    by_cases hc : isNameChar c = true
    · rw [if_pos hc]
      refine ⟨hparts, fun other hother => ?_⟩
      obtain rfl := Option.some.inj hother
      exact List.forall_mem_cons.mpr ⟨hc, hname⟩
    rw [if_neg hc]
    by_cases hcloses : c = '}' ∧ name ≠ []
    · rw [if_pos hcloses]
      refine .closed fun other hmem => (List.mem_cons.mp hmem).elim (fun heq => ?_) (hparts other)
      obtain rfl := Part.placeholder.inj heq
      refine isName_iff.mpr ⟨fun hnil => hcloses.2 (List.reverse_eq_nil_iff.mp hnil), ?_⟩
      exact fun d hd => hname d (List.mem_reverse.mp hd)
    rw [if_neg hcloses]
    by_cases hopens : c = '{'
    · rw [if_pos hopens]
      exact .opening hgiven
    · rw [if_neg hopens]
      exact .literal hgiven c

theorem Named.foldl (cs : List Char) :
    ∀ {s : Scanner}, s.Named → (cs.foldl Scanner.step s).Named := by
  induction cs with
  | nil => exact fun h => h
  | cons c rest ih => exact fun h => ih (h.step c)

end Scanner

/-! ## The scan of a text -/

/-- `scan` finds a placeholder in a text, and the text in front of it and the text behind it are
scanned as if they stood alone. -/
theorem scan_placeholder (before after : List Char) {name : List Char} (h : isName name = true) :
    scan (before ++ (Part.placeholder name).written ++ after) =
      scan before ++ .placeholder name :: scan after := by
  have hclosed : Scanner.mk (.placeholder name :: (scan before).reverse) none =
      Scanner.start.behind (.placeholder name :: (scan before).reverse) := rfl
  rw [scan, List.foldl_append, List.foldl_append, Scanner.foldl_step_placeholder _ h, ← scan,
    hclosed, Scanner.foldl_step_behind, Scanner.finish_behind, ← scan, List.reverse_cons,
    List.reverse_reverse, List.append_assoc, List.singleton_append]

/-- A placeholder that `scan` finds has a name.  `Named` holds at the start and is kept by
`Named.step`, so it holds at the end of the text. -/
theorem isName_of_mem_scan {text name : List Char} (h : Part.placeholder name ∈ scan text) :
    isName name = true := by
  have hnamed : (text.foldl Scanner.step .start).Named :=
    .foldl text (.closed fun _ hmem => absurd hmem List.not_mem_nil)
  rw [scan, Scanner.finish] at h
  split at h
  case h_1 => exact hnamed.parts name (List.mem_reverse.mp h)
  case h_2 =>
    exact hnamed.parts name (Scanner.placeholder_mem_giveUp (List.mem_reverse.mp h))

/-- A placeholder that `scan` finds stands in the text, since the parts of a scan, as they are
written, are the text (`flatMap_written_scan`). -/
theorem exists_of_mem_scan {text name : List Char} (h : Part.placeholder name ∈ scan text) :
    ∃ before after, text = before ++ (Part.placeholder name).written ++ after := by
  obtain ⟨first, second, hscan⟩ := List.append_of_mem h
  refine ⟨first.flatMap Part.written, second.flatMap Part.written, ?_⟩
  rw [← flatMap_written_scan text, hscan, List.flatMap_append, List.flatMap_cons,
    List.append_assoc]

/-- `scan` finds a placeholder in every text that has one (`HasPlaceholder`), and in no other.  That
none is missed is `scan_placeholder`, whatever stands in front of it. -/
theorem mem_scan_iff {text name : List Char} :
    Part.placeholder name ∈ scan text ↔
      isName name = true ∧ ∃ before after,
        text = before ++ (Part.placeholder name).written ++ after := by
  refine ⟨fun h => ⟨isName_of_mem_scan h, exists_of_mem_scan h⟩, ?_⟩
  rintro ⟨hname, before, after, rfl⟩
  rw [scan_placeholder before after hname]
  exact List.mem_append_right _ List.mem_cons_self

/-- A text without a placeholder is nothing but ordinary characters to `scan`. -/
theorem scan_eq_map_literal {text : List Char} (h : ¬ HasPlaceholder text) :
    scan text = text.map .literal := by
  -- Each part is one character, so the parts are the characters that they are written with.
  have hliteral : ∀ part ∈ scan text, part.written.map Part.literal = [part] := by
    intro part hpart
    cases part with
    | literal c => rfl
    | placeholder name =>
      obtain ⟨hname, before, after, htext⟩ := mem_scan_iff.mp hpart
      exact absurd ⟨before, name, after, hname, htext⟩ h
  calc scan text = (scan text).flatMap fun part => [part] := (List.flatMap_singleton' _).symm
    _ = (scan text).flatMap fun part => part.written.map Part.literal :=
      List.flatMap_congr fun part hpart => (hliteral part hpart).symm
    _ = ((scan text).flatMap Part.written).map Part.literal := List.map_flatMap.symm
    _ = text.map Part.literal := by rw [flatMap_written_scan]

/-- A text has a placeholder if its `scan` is not just its characters, so this can be decided by
scanning. -/
theorem hasPlaceholder_iff {text : List Char} :
    HasPlaceholder text ↔ scan text ≠ text.map .literal := by
  refine ⟨?_, fun h => Classical.byContradiction fun hnone => h (scan_eq_map_literal hnone)⟩
  rintro ⟨before, name, after, hname, htext⟩ hscan
  have hmem : Part.placeholder name ∈ scan text := mem_scan_iff.mpr ⟨hname, before, after, htext⟩
  rw [hscan] at hmem
  obtain ⟨c, -, hc⟩ := List.mem_map.mp hmem
  exact absurd hc nofun

instance : DecidablePred HasPlaceholder := fun _ => decidable_of_iff _ hasPlaceholder_iff.symm

/-! ## Texts taken apart -/

/-- A text taken apart: ordinary characters (`head`), and then placeholders, each by its name and
with the ordinary characters that follow it. -/
structure Pieces where
  head : List Char
  tail : List (List Char × List Char)
  deriving DecidableEq, Repr

namespace Pieces

/-- The text that the `Pieces` are of, put together again. -/
def text (p : Pieces) : List Char :=
  p.head ++ p.tail.flatMap fun (name, literal) => '{' :: name ++ '}' :: literal

/-- The names of the placeholders of some `Pieces`, in order. -/
def names (p : Pieces) : List String :=
  p.tail.map fun (name, _) => String.ofList name

/-- The placeholders have names, and no placeholder is left among the ordinary characters
(`HasPlaceholder`). -/
structure Proper (p : Pieces) : Prop where
  names : ∀ piece ∈ p.tail, isName piece.1 = true
  head : ¬ HasPlaceholder p.head
  literals : ∀ piece ∈ p.tail, ¬ HasPlaceholder piece.2

instance : DecidablePred Proper := fun p =>
  decidable_of_iff ((∀ piece ∈ p.tail, isName piece.1 = true) ∧ ¬ HasPlaceholder p.head ∧
      ∀ piece ∈ p.tail, ¬ HasPlaceholder piece.2)
    ⟨fun ⟨hnames, hhead, hliterals⟩ => ⟨hnames, hhead, hliterals⟩,
      fun h => ⟨h.names, h.head, h.literals⟩⟩

/-- The `Pieces` that are found in a text by a search for the first placeholder that goes on behind
each one it finds. -/
inductive Search : List Char → Pieces → Prop
  | done {text : List Char} : ¬ HasPlaceholder text → Search text ⟨text, []⟩
  | found {text before name after : List Char} {p : Pieces} : isName name = true →
      text = before ++ (Part.placeholder name).written ++ after →
      (∀ before' name' after', isName name' = true →
        text = before' ++ (Part.placeholder name').written ++ after' →
          before.length ≤ before'.length) →
      Search after p → Search text ⟨before, (name, p.head) :: p.tail⟩

/-! ### One placeholder at a time -/

theorem text_nil (head : List Char) : text ⟨head, []⟩ = head :=
  List.append_nil head

theorem text_cons (head name literal : List Char) (rest : List (List Char × List Char)) :
    text ⟨head, (name, literal) :: rest⟩ =
      head ++ (Part.placeholder name).written ++ text ⟨literal, rest⟩ := by
  simp only [text, Part.written, List.flatMap_cons, List.append_assoc, List.cons_append,
    List.nil_append]

/-- The `text` may be cut at any of the placeholders: what is in front of it, the placeholder, and
what is behind it.  So a position among the pieces is a position in the text. -/
theorem text_append (head name literal : List Char) (first second : List (List Char × List Char)) :
    text ⟨head, first ++ (name, literal) :: second⟩ =
      text ⟨head, first⟩ ++ (Part.placeholder name).written ++ text ⟨literal, second⟩ := by
  simp only [text, Part.written, List.flatMap_append, List.flatMap_cons, List.append_assoc,
    List.cons_append, List.nil_append]

/-- The pieces behind a placeholder of `Proper` pieces are proper, which lets inductions go from
placeholder to placeholder. -/
theorem Proper.of_cons {head name literal : List Char} {rest : List (List Char × List Char)}
    (h : Proper ⟨head, (name, literal) :: rest⟩) : Proper ⟨literal, rest⟩ :=
  ⟨fun piece hpiece => h.names piece (List.mem_cons_of_mem _ hpiece),
    h.literals _ List.mem_cons_self,
    fun piece hpiece => h.literals piece (List.mem_cons_of_mem _ hpiece)⟩

/-- `Proper` pieces of a text in front of a placeholder and of the text behind it make proper pieces
of the whole. -/
theorem Proper.append {p q : Pieces} (hp : p.Proper) (hq : q.Proper) {name : List Char}
    (hname : isName name = true) : Proper ⟨p.head, p.tail ++ (name, q.head) :: q.tail⟩ := by
  refine ⟨fun piece hpiece => ?_, hp.head, fun piece hpiece => ?_⟩
  · rcases List.mem_append.mp hpiece with hmem | hmem
    · exact hp.names piece hmem
    · rcases List.mem_cons.mp hmem with rfl | hmem
      · exact hname
      · exact hq.names piece hmem
  · rcases List.mem_append.mp hpiece with hmem | hmem
    · exact hp.literals piece hmem
    · rcases List.mem_cons.mp hmem with rfl | hmem
      · exact hq.head
      · exact hq.literals piece hmem

/-! ### There is a way -/

/-- Of the placeholders in a text that `HasPlaceholder` there is a first one.  Where placeholders
start is a set of numbers, so it has a least one. -/
theorem exists_first {text : List Char} (h : HasPlaceholder text) :
    ∃ before name after, isName name = true ∧
      text = before ++ (Part.placeholder name).written ++ after ∧
      ∀ before' name' after', isName name' = true →
        text = before' ++ (Part.placeholder name').written ++ after' →
          before.length ≤ before'.length := by
  classical
  -- Where placeholders start is a set of numbers, and it has a least one.
  have hstarts : ∃ start, ∃ before name after, isName name = true ∧
      text = before ++ (Part.placeholder name).written ++ after ∧ before.length = start := by
    obtain ⟨before, name, after, hname, htext⟩ := h
    exact ⟨_, before, name, after, hname, htext, rfl⟩
  obtain ⟨before, name, after, hname, htext, hstart⟩ := Nat.find_spec hstarts
  refine ⟨before, name, after, hname, htext, fun before' name' after' hname' htext' => ?_⟩
  rw [hstart]
  exact Nat.find_min' hstarts ⟨before', name', after', hname', htext', rfl⟩

/-- A `Search` of every text comes to an end.  The induction is on the length of the text, of which
less is left behind each placeholder. -/
theorem exists_search (length : Nat) : ∀ text : List Char, text.length = length →
    ∃ p, Search text p := by
  induction length using Nat.strongRecOn with
  | ind length ih =>
    intro text hlength
    by_cases h : HasPlaceholder text
    · obtain ⟨before, name, after, hname, htext, hfirst⟩ := exists_first h
      have hafter : after.length < length := by
        rw [← hlength, htext, Part.written]
        simp only [List.length_append, List.length_cons, List.length_nil]
        omega
      obtain ⟨p, hp⟩ := ih after.length hafter after rfl
      exact ⟨_, .found hname htext hfirst hp⟩
    · exact ⟨_, .done h⟩

/-- What a `Search` finds is the whole text, and no placeholder is passed over (`Proper`): one in
front of the first placeholder would start before it.  The induction is on the search. -/
theorem Search.proper {text : List Char} {p : Pieces} (h : Search text p) :
    p.Proper ∧ p.text = text := by
  induction h with
  | done hnone =>
    exact ⟨⟨fun _ hmem => absurd hmem List.not_mem_nil, hnone,
      fun _ hmem => absurd hmem List.not_mem_nil⟩, text_nil _⟩
  | @found text before name after p hname htext hfirst _ ih =>
    obtain ⟨hproper, hafter⟩ := ih
    have hbefore : ¬ HasPlaceholder before := by
      rintro ⟨before', name', after', hname', rfl⟩
      -- It would be a placeholder of the text that starts before the first one.
      have hle := hfirst before' name' (after' ++ (Part.placeholder name).written ++ after) hname'
        (by rw [htext]; simp only [List.append_assoc])
      rw [Part.written] at hle
      simp only [List.length_append, List.length_cons, List.length_nil] at hle
      omega
    have hhead : Proper ⟨before, []⟩ :=
      ⟨fun _ hmem => absurd hmem List.not_mem_nil, hbefore,
        fun _ hmem => absurd hmem List.not_mem_nil⟩
    refine ⟨hhead.append hproper hname, ?_⟩
    rw [text_cons, hafter, htext]

/-- Every text can be taken apart into `Proper` pieces, by a `Search`. -/
theorem exists_proper (text : List Char) : ∃ p : Pieces, p.Proper ∧ p.text = text := by
  obtain ⟨p, hp⟩ := exists_search text.length text rfl
  exact ⟨p, hp.proper⟩

/-! ### There is no other way -/

/-- The `Pieces` as the `Part`s that a scan would give. -/
def parts (p : Pieces) : List Part :=
  p.head.map .literal ++ p.tail.flatMap fun (name, literal) =>
    .placeholder name :: literal.map .literal

/-- The parts up to a placeholder, the placeholder, and the parts behind it, in the way
`scan_placeholder` has them. -/
theorem parts_cons (head name literal : List Char) (rest : List (List Char × List Char)) :
    parts ⟨head, (name, literal) :: rest⟩ =
      head.map .literal ++ .placeholder name :: parts ⟨literal, rest⟩ := by
  simp only [parts, List.flatMap_cons, List.cons_append]

/-- `Part`s as `Pieces`: ordinary characters that stand next to each other are one piece. -/
def ofParts : List Part → Pieces
  | [] => ⟨[], []⟩
  | .literal c :: rest => ⟨c :: (ofParts rest).head, (ofParts rest).tail⟩
  | .placeholder name :: rest => ⟨[], (name, (ofParts rest).head) :: (ofParts rest).tail⟩

theorem ofParts_literals (cs : List Char) (rest : List Part) :
    ofParts (cs.map .literal ++ rest) = ⟨cs ++ (ofParts rest).head, (ofParts rest).tail⟩ := by
  induction cs with
  | nil => rfl
  | cons c cs ih => rw [List.map_cons, List.cons_append, ofParts, ih, List.cons_append]

/-- `ofParts` finds pieces again from their `parts`, so two that have the same parts are the
same. -/
theorem ofParts_parts (p : Pieces) : ofParts p.parts = p := by
  obtain ⟨head, tail⟩ := p
  induction tail generalizing head with
  | nil =>
    rw [parts, ofParts_literals]
    simp only [List.flatMap_nil, ofParts, List.append_nil]
  | cons piece rest ih =>
    rw [parts_cons, ofParts_literals, ofParts, ih, List.append_nil]

/-- `scan` of a text gives the parts of its `Proper` pieces. -/
theorem Proper.scan_text {p : Pieces} (h : p.Proper) : scan p.text = p.parts := by
  obtain ⟨head, tail⟩ := p
  induction tail generalizing head with
  | nil =>
    rw [text_nil, scan_eq_map_literal h.head, parts, List.flatMap_nil, List.append_nil]
  | cons piece rest ih =>
    rw [text_cons, scan_placeholder _ _ (h.names piece List.mem_cons_self),
      scan_eq_map_literal h.head, ih _ h.of_cons, parts_cons]

/-- There are no two `Proper` ways to take a text apart: `scan` knows the pieces. -/
theorem Proper.eq {p q : Pieces} (hp : p.Proper) (hq : q.Proper) (h : p.text = q.text) : p = q := by
  rw [← ofParts_parts p, ← ofParts_parts q, ← hp.scan_text, ← hq.scan_text, h]

end Pieces

/-! ## What follows for a text -/

namespace Pieces

theorem filterMap_name?_literals (cs : List Char) :
    (cs.map Part.literal).filterMap Part.name? = [] := by
  rw [List.filterMap_eq_nil_iff]
  intro part hpart
  obtain ⟨c, -, rfl⟩ := List.mem_map.mp hpart
  rfl

/-- The names among the `parts` are the `names` of the pieces. -/
theorem filterMap_name?_parts (p : Pieces) : p.parts.filterMap Part.name? = p.names := by
  obtain ⟨head, tail⟩ := p
  induction tail generalizing head with
  | nil =>
    rw [parts, List.flatMap_nil, List.append_nil, filterMap_name?_literals]
    rfl
  | cons piece rest ih =>
    rw [parts_cons, List.filterMap_append, filterMap_name?_literals, List.nil_append,
      List.filterMap_cons, ih]
    rfl

theorem flatMap_filled_literals (v : Values) (cs : List Char) :
    (cs.map Part.literal).flatMap (Part.filled v) = cs := by
  rw [List.flatMap_map]
  exact List.flatMap_singleton' cs

/-- Under a map `filled` exchanges each placeholder by itself, and the characters between them
stay. -/
theorem flatMap_filled_parts (v : Values) (p : Pieces) :
    p.parts.flatMap (Part.filled v) =
      p.head ++ p.tail.flatMap fun (name, literal) =>
        (Part.placeholder name).filled v ++ literal := by
  obtain ⟨head, tail⟩ := p
  induction tail generalizing head with
  | nil =>
    rw [parts, List.flatMap_nil, List.append_nil, flatMap_filled_literals]
    exact (List.append_nil head).symm
  | cons piece rest ih =>
    rw [parts_cons, List.flatMap_append, flatMap_filled_literals, List.flatMap_cons, ih,
      List.flatMap_cons, List.append_assoc]

end Pieces

/-- A placeholder under a map is the value of its name, or is `written` as it is if there is
none. -/
theorem Part.filled_placeholder (v : Values) (name : List Char) :
    (Part.placeholder name).filled v =
      ((v.get? (String.ofList name)).map String.toList).getD ('{' :: name ++ ['}']) := by
  rw [filled]
  cases v.get? (String.ofList name) with
  | some value => rfl
  | none => rfl

/-- `substitute` leaves a text of whose names none has a value. -/
theorem substitute_eq_self {values : Option Values} {s : String}
    (h : ∀ name ∈ placeholders s, (values.getD .empty).get? name = none) :
    substitute values s = s := by
  have hnone : substitute values s = substitute none s := substitute_congr h
  exact hnone

/-- A text is read in one way only, and in one pass.  It can be taken apart in exactly one way into
ordinary characters and placeholders such that no placeholder is left among the ordinary characters,
and this is what a search finds that goes from each placeholder to the first one behind it.  Its
names are the `placeholders` of the text, every placeholder that is written anywhere in the text is
one of them, at its place, and a map of values exchanges each one that it binds and nothing else,
whatever the values look like.  If none of the names is bound the text stays as it is, where a
missing map counts as the empty one. -/
theorem scan_single_pass (s : String) :
    (∃! p : Pieces, p.Proper ∧ p.text = s.toList) ∧
    (∀ p : Pieces, p.Proper → p.text = s.toList →
      Pieces.Search s.toList p ∧
      placeholders s = p.tail.map (fun (name, _) => String.ofList name) ∧
      (∀ before name after, isName name = true →
        s.toList = before ++ '{' :: name ++ '}' :: after →
          ∃ first literal second, p.tail = first ++ (name, literal) :: second ∧
            Pieces.text ⟨p.head, first⟩ = before ∧ Pieces.text ⟨literal, second⟩ = after) ∧
      ∀ v : Values, substitute (some v) s = String.ofList
        (p.head ++ p.tail.flatMap fun (name, literal) =>
          ((v.get? (String.ofList name)).map String.toList).getD ('{' :: name ++ ['}']) ++
            literal)) ∧
    ∀ values : Option Values,
      (∀ name ∈ placeholders s, (values.getD .empty).get? name = none) →
        substitute values s = s := by
  obtain ⟨p, hsearch⟩ := Pieces.exists_search s.toList.length s.toList rfl
  obtain ⟨hp, htext⟩ := hsearch.proper
  have hunique : ∀ q : Pieces, q.Proper → q.text = s.toList → q = p :=
    fun q hq hqtext => hq.eq hp (hqtext.trans htext.symm)
  have hscan : scan s.toList = p.parts := by rw [← htext, hp.scan_text]
  refine ⟨⟨p, ⟨hp, htext⟩, fun q hq => hunique q hq.1 hq.2⟩, fun q hq hqtext => ?_,
    fun values h => substitute_eq_self h⟩
  obtain rfl := hunique q hq hqtext
  refine ⟨hsearch, ?_, fun before name after hname hs => ?_, fun v => ?_⟩
  · rw [placeholders, hscan, Pieces.filterMap_name?_parts, Pieces.names]
  · -- Pieces of what is in front of the placeholder and of what is behind it are pieces of all.
    obtain ⟨first, hfirst, rfl⟩ := Pieces.exists_proper before
    obtain ⟨second, hsecond, rfl⟩ := Pieces.exists_proper after
    have hwhole : Pieces.text ⟨first.head, first.tail ++ (name, second.head) :: second.tail⟩ =
        s.toList := by
      rw [hs, Pieces.text_append, Part.written]
      simp only [List.append_assoc, List.cons_append, List.nil_append]
    obtain rfl := hunique _ (hfirst.append hsecond hname) hwhole
    exact ⟨first.tail, second.head, second.tail, rfl, rfl, rfl⟩
  · rw [substitute, hscan, Pieces.flatMap_filled_parts]
    simp only [Part.filled_placeholder]

/-- Stray braces and a brace that is opened twice belong to no placeholder, a value that looks
like a placeholder is not looked up, and an empty value leaves nothing. -/
theorem scan_single_pass_stray :
    let s := "\x7d\x7bx\x7ba\x7d\x7b\x7d\x7b\x7bb c\x7d\x7bé\x7d\x7ba"
    let p : Pieces := ⟨"\x7d\x7bx".toList,
      [("a".toList, "\x7b\x7d\x7b".toList), ("b c".toList, "\x7bé\x7d\x7ba".toList)]⟩
    let v : Values := .ofList [("a", "\x7bb c\x7d"), ("b c", ""), ("é", "e")]
    let v' : Values := .ofList [("é", "e"), ("", "x"), ("x\x7ba", "y")]
    p.Proper ∧ p.text = s.toList ∧ placeholders s = ["a", "b c"] ∧
      substitute (some v) s = "\x7d\x7bx\x7bb c\x7d\x7b\x7d\x7b\x7bé\x7d\x7ba" ∧
      (∀ name ∈ placeholders s, v'.get? name = none) ∧ substitute (some v') s = s := by
  intro s p v v'
  have hp : p.Proper := by decide
  have htext : p.text = s.toList := by decide
  obtain ⟨-, hpieces, hunbound⟩ := scan_single_pass s
  obtain ⟨-, hnames, -, hfilled⟩ := hpieces p hp htext
  have hnone : ∀ name ∈ placeholders s, v'.get? name = none := by
    rw [hnames]
    decide
  refine ⟨hp, htext, ?_, ?_, hnone, hunbound (some v') hnone⟩
  · rw [hnames]
    decide
  · rw [hfilled v]
    decide

end MessageTemplate
