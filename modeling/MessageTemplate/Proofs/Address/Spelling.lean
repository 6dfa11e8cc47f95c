/-
The spelling of an address.

A path of segments is spelled in one way, and that is what the path is decoded from.  The decoder is
known to undo the texts of the segments (`segments_eq_ok`); what is left is to say in plain words
which lists of segments are paths, and to compare the two other ways in which addresses are made.

An address built step by step from the root, by going to a child and into a branch, is the texts of
its segments one after the other, path or not.  The address of a sibling cuts the text at its last
slash, and since a segment holds no slash besides its first character, it is the last segment that
is cut off.
-/
import MessageTemplate.Proofs.Tree.Sites

set_option autoImplicit false

namespace MessageTemplate

/-! ## Paths -/

namespace Segment

/-- `IsPath` without the recursion: a list of segments is a path if it is not empty, all of its
segments but the last go on through a branch of a conditional, the last one stops, and all indices
have 64 bits. -/
theorem isPath_iff {segments : List Segment} :
    IsPath segments ↔
      segments ≠ [] ∧ (∀ s ∈ segments.dropLast, s.kind = .conditional ∧ s.branch ≠ none) ∧
        (∀ s ∈ segments.getLast?, s.branch = none) ∧
        ∀ s ∈ segments, s.index < UInt64.size := by
  have hbound : indexBound = UInt64.size := rfl
  induction segments with
  | nil => simp [IsPath]
  | cons s rest ih =>
    by_cases hrest : rest = []
    · subst hrest
      simp [IsPath, hbound, and_comm]
    · -- The first segment goes on, and the last one is that of the rest.
      have hlast : (s :: rest).getLast? = rest.getLast? := by
        obtain ⟨next, more, rfl⟩ := List.exists_cons_of_ne_nil hrest
        rw [List.getLast?_cons_cons]
      rw [Site.isPath_cons hrest, List.dropLast_cons_of_ne_nil hrest, hlast,
        List.forall_mem_cons, List.forall_mem_cons, hbound]
      constructor
      · rintro ⟨hlt, hkind, hbranch, hpath⟩
        obtain ⟨-, hgoes, hstops, hbounded⟩ := ih.mp hpath
        exact ⟨List.cons_ne_nil _ _, ⟨⟨hkind, hbranch⟩, hgoes⟩, hstops, hlt, hbounded⟩
      · rintro ⟨-, ⟨⟨hkind, hbranch⟩, hgoes⟩, hstops, hlt, hbounded⟩
        exact ⟨hlt, hkind, hbranch, ih.mpr ⟨hrest, hgoes, hstops, hbounded⟩⟩

end Segment

namespace Address

/-! ## Building step by step -/

/-- The address one `Segment` further: to the `child`, and into its `branch` if there is one. -/
def extend (a : Address) (s : Segment) : Address :=
  match s.branch with
  | none => a.child s.index s.kind
  | some b => (a.child s.index s.kind).branch b

/-- The address of some segments, built from the root by `extend`, as the operations of the library
build it. -/
def ofSegments (segments : List Segment) : Address :=
  segments.foldl extend root

theorem text_extend (a : Address) (s : Segment) : (a.extend s).text = a.text ++ s.text := by
  obtain ⟨index, kind, branch⟩ := s
  cases branch with
  | none => rfl
  | some b => simp only [extend, Address.branch, child, Segment.text, String.append_assoc]

/-- All steps from an address `a` on add the texts of the segments. -/
theorem text_foldl_extend (segments : List Segment) : ∀ a : Address,
    (segments.foldl extend a).text = a.text ++ String.join (segments.map Segment.text) := by
  induction segments with
  | nil =>
    intro a
    simp
  | cons s rest ih =>
    intro a
    rw [List.foldl_cons, ih, text_extend, List.map_cons, String.join_cons, String.append_assoc]

/-- The address built from the root by `ofSegments` is the texts of the segments, one after the
other. -/
theorem text_ofSegments (segments : List Segment) :
    (ofSegments segments).text = String.join (segments.map Segment.text) := by
  rw [ofSegments, text_foldl_extend, root, String.empty_append]

/-! ## Siblings -/

/-- Cutting an address at its last slash cuts its last segment off.  The address is read as that of
a site, where the sibling is known (`Site.sibling_address`). -/
theorem segments_sibling {a : Address} {segments : List Segment} (h : a.segments = .ok segments)
    {index : Nat} (hindex : index < indexBound) (k : Kind) :
    (a.sibling index k).segments = .ok (segments.dropLast ++ [⟨index, k, none⟩]) := by
  obtain ⟨site, k', ⟨hway, -⟩, rfl, rfl⟩ := Site.of_segments_eq_ok h
  have hbounded : Site.Bounded ⟨site.way, index⟩ := ⟨hway, hindex⟩
  rw [Site.sibling_address, Site.segments_address hbounded, Site.segments, Site.segments,
    List.dropLast_concat]

/-! ## What is no path -/

/-- `decodeParts` has one kind of complaint, `malformed`, and it names the whole address.  It is
about a part that the address has: that there are no parts, or that a branch is missing behind one,
is for others to say. -/
theorem decodeParts_error {a : Address} (parts : List (List Char)) : ∀ {e : AddressError},
    a.decodeParts parts = .error e →
      ∃ reason, e = .malformed a reason ∧ reason ≠ .noSegments ∧ reason ≠ .branchMissing := by
  induction parts with
  | nil => exact fun h => absurd h nofun
  | cons part rest ih =>
    intro e h
    rw [decodeParts] at h
    split at h
    case h_1 => exact ⟨_, (Except.error.inj h).symm, by simp, by simp⟩
    case h_2 =>
      split at h
      case h_1 => exact ⟨_, (Except.error.inj h).symm, by simp, by simp⟩
      case h_2 => exact ⟨_, (Except.error.inj h).symm, by simp, by simp⟩
      case h_3 =>
        split at h
        case h_1 hrest => exact ih (hrest.trans h)
        case h_2 => exact absurd h nofun

/-- An address that is no path is refused by `segments` as a whole, for what is wrong with one of
its parts. -/
theorem segments_reason {a : Address} {e : AddressError} (h : a.segments = .error e) :
    ∃ reason, e = .malformed a reason ∧ reason ≠ .noSegments ∧ reason ≠ .branchMissing := by
  rw [segments] at h
  split at h
  case h_1 => exact decodeParts_error _ h
  case h_2 => exact ⟨_, (Except.error.inj h).symm, by simp, by simp⟩

/-- An address that is no path is `malformed`, for whatever reason. -/
theorem segments_error {a : Address} {e : AddressError} (h : a.segments = .error e) :
    ∃ reason, e = .malformed a reason := by
  obtain ⟨reason, rfl, -⟩ := segments_reason h
  exact ⟨reason, rfl⟩

/-! ## The codec -/

/-- Which segments an address decodes to, what is built from segments, what siblings decode to, and
what becomes of an address that is no path. -/
theorem decodes_exactly (a : Address) :
    (∀ segments, a.segments = .ok segments ↔
      segments ≠ [] ∧ (∀ s ∈ segments.dropLast, s.kind = .conditional ∧ s.branch ≠ none) ∧
        (∀ s ∈ segments.getLast?, s.branch = none) ∧
        (∀ s ∈ segments, s.index < UInt64.size) ∧
        a.text = String.join (segments.map Segment.text)) ∧
    (∀ segments, (ofSegments segments).text = String.join (segments.map Segment.text)) ∧
    (∀ segments index k, a.segments = .ok segments → index < UInt64.size →
      (a.sibling index k).segments = .ok (segments.dropLast ++ [⟨index, k, none⟩])) ∧
    ((∀ segments, a.segments ≠ .ok segments) →
      ∃ reason, a.segments = .error (.malformed a reason)) := by
  have htext : ∀ segments : List Segment,
      (a.text.toList = segments.flatMap fun s => s.text.toList) ↔
        a.text = String.join (segments.map Segment.text) := by
    intro segments
    rw [← String.toList_inj, String.toList_join, List.flatMap_map]
  refine ⟨fun segments => ?_, text_ofSegments, fun segments index k h hindex => ?_, fun h => ?_⟩
  · rw [segments_eq_ok, Segment.isPath_iff, htext]
    simp only [and_assoc]
  · exact segments_sibling h hindex k
  · cases hsegments : a.segments with
    | ok segments => exact absurd hsegments (h segments)
    | error e =>
      obtain ⟨reason, rfl⟩ := segments_error hsegments
      exact ⟨reason, rfl⟩

/-- An address with the greatest index, a sibling of it, and one with a zero too many. -/
theorem decodes_exactly_edge :
    let a : Address := ⟨"/18446744073709551615-if-then/0-text"⟩
    let zero : Address := ⟨"/01-text"⟩
    a.segments = .ok [⟨UInt64.size - 1, .conditional, some .consequent⟩, ⟨0, .text, none⟩] ∧
      (a.sibling 7 .conditional).segments =
        .ok [⟨UInt64.size - 1, .conditional, some .consequent⟩, ⟨7, .conditional, none⟩] ∧
      ∃ reason, zero.segments = .error (.malformed zero reason) := by
  intro a zero
  have ha := ((decodes_exactly a).1
    [⟨UInt64.size - 1, .conditional, some .consequent⟩, ⟨0, .text, none⟩]).mpr (by decide +kernel)
  have hzero : ∀ segments, zero.segments ≠ .ok segments := by
    intro segments h
    have hnone : zero.segments.toOption = none := by decide +kernel
    rw [h] at hnone
    exact absurd hnone nofun
  exact ⟨ha, (decodes_exactly a).2.2.1 _ 7 .conditional ha (by decide),
    (decodes_exactly zero).2.2.2 hzero⟩

end Address

end MessageTemplate
