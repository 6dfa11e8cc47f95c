/-
Decoding an address undoes writing it.

The two directions are defined apart: a segment is written from its index, kind and branch, and
decoded by cutting a text at slashes and dashes.  An address decodes to a list of segments exactly
when the list is a path (`Segment.IsPath`: every segment but the last goes on through a branch of a
conditional, and every index has 64 bits) and the address is the texts of the segments one after the
other.  So a path has one spelling, and any other text is no path.

The way there follows the text from the inside: digits (`decodeIndex_eq_some`), the word of a kind
(`decodeKind_eq_some`), one segment (`decode_eq_some`), all parts (`decodeParts_map_body`,
`eq_of_decodeParts`), and the whole address (`segments_eq_ok`).
-/
import MessageTemplate.Address.Basic
import MessageTemplate.Proofs.Outcome
import MessageTemplate.Proofs.Text.Decimal

set_option autoImplicit false

namespace MessageTemplate

/-! ## Positions -/

/-- Digits decode to a position `n` exactly when they are the digits of `n` and `n` has 64 bits.
The checks of `decodeIndex` are together `Text.Canonical`, and there is one such text for a number
(`Text.canonical_iff`). -/
theorem decodeIndex_eq_some {digits : List Char} {n : Nat} :
    decodeIndex digits = some n ↔ digits = Nat.toDigits 10 n ∧ n < indexBound := by
  have hcond : ¬ (digits = [] ∨ (!digits.all Char.isDigit) = true ∨
      (1 < digits.length ∧ digits.head? = some '0')) ↔ Text.Canonical digits := by
    rw [Text.Canonical, not_or, not_or, Bool.not_eq_true', Bool.not_eq_false, List.all_eq_true,
      not_and]
  rw [decodeIndex, ← Text.canonical_iff, ← hcond]
  dsimp only
  split
  case isTrue h => exact ⟨nofun, fun hn => absurd h hn.1.1⟩
  case isFalse h =>
    split
    case isTrue hlt =>
      rw [Option.some.injEq]
      constructor
      · rintro rfl
        exact ⟨⟨h, rfl⟩, hlt⟩
      · exact fun hn => hn.1.2
    case isFalse hlt =>
      refine ⟨nofun, ?_⟩
      rintro ⟨⟨-, rfl⟩, hlt'⟩
      exact absurd hlt' hlt

/-! ## Kinds and branches -/

/-- A `Branch` is found again by the word that it is written with: the three words are different. -/
theorem Branch.ofSuffix?_suffix (b : Branch) : Branch.ofSuffix? b.suffix = some b := by
  cases b with
  | condition => decide
  | consequent => decide
  | alternative => decide

/-- And a word that is found belongs to the branch it is found for, since the search compares with
`suffix` itself. -/
theorem Branch.suffix_of_ofSuffix? {s : String} {b : Branch} (h : Branch.ofSuffix? s = some b) :
    b.suffix = s := by
  rw [Branch.ofSuffix?] at h
  have hb := List.find?_some h
  rwa [decide_eq_true_eq] at hb

namespace Segment

/-- The kind of a `Segment` and its branch as they are written, behind the dash. -/
def tail (s : Segment) : List Char :=
  match s.branch with
  | none => s.kind.word.toList
  | some b => s.kind.word.toList ++ '-' :: b.suffix.toList

/-- A `Segment` as it is written, without its slash.  These are the parts that `decodeParts` sees
when it has cut an address at its slashes. -/
def body (s : Segment) : List Char :=
  Nat.toDigits 10 s.index ++ '-' :: s.tail

/-- The text of a segment is a slash and its `body`.  From here on segments are lists of characters
and no strings. -/
theorem toList_text (s : Segment) : s.text.toList = '/' :: s.body := by
  have hstep : ("/" ++ s.index.repr ++ "-" ++ s.kind.word).toList =
      '/' :: (Nat.toDigits 10 s.index ++ '-' :: s.kind.word.toList) := by
    simp only [String.toList_append, Nat.toList_repr]
    rw [show "/".toList = ['/'] from rfl, show "-".toList = ['-'] from rfl]
    simp only [List.append_assoc, List.cons_append, List.nil_append]
  rw [text, body, tail]
  cases s.branch with
  | none => exact hstep
  | some b =>
    dsimp only
    rw [String.toList_append, String.toList_append, hstep, show "-".toList = ['-'] from rfl]
    simp only [List.append_assoc, List.cons_append, List.nil_append]

/-- A `Segment` that can be written and read: its index has 64 bits, and only a conditional has
branches. -/
def Sound (s : Segment) : Prop :=
  s.index < indexBound ∧ (s.kind = .text → s.branch = none)

/-- `decodeKind` takes a word for the kind and the branch of a segment exactly when it is written
like them, and a text has no branch.  The cases are the four patterns that `decodeKind` tries. -/
theorem decodeKind_eq_some {word : List Char} {s : Segment} :
    decodeKind word = some (s.kind, s.branch) ↔
      word = s.tail ∧ (s.kind = .text → s.branch = none) := by
  obtain ⟨index, kind, branch⟩ := s
  rw [tail]
  dsimp only
  constructor
  · intro h
    unfold decodeKind at h
    split at h
    case h_1 =>
      rw [Option.some.injEq, Prod.mk.injEq] at h
      obtain ⟨rfl, rfl⟩ := h
      exact ⟨rfl, fun _ => rfl⟩
    case h_2 =>
      rw [Option.some.injEq, Prod.mk.injEq] at h
      obtain ⟨rfl, rfl⟩ := h
      exact ⟨rfl, nofun⟩
    -- The word goes on behind `if-`, and what follows has to name a branch.
    case h_3 suffix =>
      obtain ⟨b, hb, heq⟩ := Option.map_eq_some_iff.mp h
      rw [Prod.mk.injEq] at heq
      obtain ⟨rfl, rfl⟩ := heq
      refine ⟨?_, nofun⟩
      dsimp only
      rw [Branch.suffix_of_ofSuffix? hb, String.toList_ofList]
      rfl
    case h_4 => exact absurd h nofun
  · rintro ⟨rfl, hkind⟩
    cases kind with
    | text =>
      obtain rfl := hkind rfl
      rfl
    | conditional =>
      cases branch with
      | none => rfl
      | some b =>
        dsimp only
        have hdecode : decodeKind ('i' :: 'f' :: '-' :: b.suffix.toList) =
            (Branch.ofSuffix? (String.ofList b.suffix.toList)).map fun b =>
              (.conditional, some b) := by
          cases b with
          | condition => rfl
          | consequent => rfl
          | alternative => rfl
        rw [show Kind.conditional.word.toList = ['i', 'f'] from rfl]
        rw [List.cons_append, List.cons_append, List.nil_append, hdecode, String.ofList_toList,
          Branch.ofSuffix?_suffix]
        rfl

/-! ## One segment -/

/-- A part decodes to a segment exactly when it is the segment's `body` and the segment is `Sound`.
A part is cut at its first dash; digits have none, so this is the dash behind the position. -/
theorem decode_eq_some {part : List Char} {s : Segment} :
    decode part = some s ↔ part = s.body ∧ s.Sound := by
  constructor
  · intro h
    -- The part is cut at its first dash, so the two pieces give it back.
    have hpart : part.takeWhile (· ≠ '-') ++ part.dropWhile (· ≠ '-') = part :=
      List.takeWhile_append_dropWhile
    have hdash := List.head?_dropWhile_not (· ≠ '-') part
    rw [decode] at h
    split at h
    case h_1 => exact absurd h nofun
    case h_2 dash word hword =>
      rw [hword] at hpart hdash
      have hd : dash = '-' := by
        have hnot : decide (dash ≠ '-') = false := hdash
        rwa [decide_eq_false_iff_not, Decidable.not_not] at hnot
      obtain ⟨index, hindex, h⟩ := Option.bind_eq_some_iff.mp h
      obtain ⟨⟨kind, branch⟩, hkind, h⟩ := Option.bind_eq_some_iff.mp h
      obtain rfl := Option.some.inj h
      obtain ⟨hdigits, hlt⟩ := decodeIndex_eq_some.mp hindex
      obtain ⟨htail, htext⟩ := (decodeKind_eq_some (s := ⟨index, kind, branch⟩)).mp hkind
      refine ⟨?_, hlt, htext⟩
      rw [body, ← hpart, hdigits, hd, htail]
  · rintro ⟨rfl, hlt, htext⟩
    have hdigits : ∀ c ∈ Nat.toDigits 10 s.index, decide (c ≠ '-') = true := by
      intro c hc
      rw [decide_eq_true_eq]
      rintro rfl
      exact absurd (Nat.isDigit_of_mem_toDigits (by omega) (by omega) hc) (by decide)
    -- The first dash is the one after the digits.
    have hstop : ¬ (fun c : Char => decide (c ≠ '-')) '-' = true := by decide
    rw [decode, body, List.dropWhile_append_of_pos hdigits, List.takeWhile_append_of_pos hdigits,
      List.dropWhile_cons_of_neg (p := fun c => decide (c ≠ '-')) hstop,
      List.takeWhile_cons_of_neg (p := fun c => decide (c ≠ '-')) hstop, List.append_nil]
    dsimp only
    rw [decodeIndex_eq_some.mpr ⟨rfl, hlt⟩, decodeKind_eq_some.mpr ⟨rfl, htext⟩]
    rfl

/-- The `body` of a segment holds no slash, so cutting an address at its slashes cuts it between
segments. -/
theorem slash_not_mem_body (s : Segment) : '/' ∉ s.body := by
  have htail : '/' ∉ s.tail := by
    rw [tail]
    cases s.branch with
    | none =>
      cases s.kind with
      | text => decide
      | conditional => decide
    | some b =>
      cases s.kind with
      | text => cases b <;> decide
      | conditional => cases b <;> decide
  -- The digits and the dash are left, and neither is a slash.
  rw [body, List.mem_append, List.mem_cons, not_or, not_or]
  refine ⟨fun h => ?_, by decide, htail⟩
  exact absurd (Nat.isDigit_of_mem_toDigits (by omega) (by omega) h) (by decide)

/-! ## Paths -/

/-- Segments that lead to a node, as `decodeParts` asks for them: every one but the last goes on
through a branch of a conditional, and the last one stops. -/
def IsPath : List Segment → Prop
  | [] => False
  | [s] => s.index < indexBound ∧ s.branch = none
  | s :: next :: rest =>
    s.index < indexBound ∧ s.kind = .conditional ∧ s.branch ≠ none ∧ IsPath (next :: rest)

end Segment

namespace Address

/-- The parts of a path decode to it.  The induction follows `IsPath`, whose cases are the last
segment and one that goes on; they are also the cases in which `decodeParts` looks at the branch. -/
theorem decodeParts_map_body (a : Address) (segments : List Segment) :
    Segment.IsPath segments → a.decodeParts (segments.map Segment.body) = .ok segments := by
  induction segments with
  | nil => exact False.elim
  | cons s rest ih =>
    intro hpath
    cases rest with
    | nil =>
      rw [Segment.IsPath] at hpath
      obtain ⟨hlt, hbranch⟩ := hpath
      have hdecode : Segment.decode s.body = some s :=
        Segment.decode_eq_some.mpr ⟨rfl, hlt, fun _ => hbranch⟩
      rw [List.map_cons, List.map_nil, decodeParts, hdecode]
      dsimp only
      rw [hbranch, decodeParts]
    | cons next more =>
      rw [Segment.IsPath] at hpath
      obtain ⟨hlt, hkind, hbranch, hnext⟩ := hpath
      have hdecode : Segment.decode s.body = some s :=
        Segment.decode_eq_some.mpr ⟨rfl, hlt, fun htext => absurd (hkind.symm.trans htext) nofun⟩
      obtain ⟨b, hb⟩ := Option.ne_none_iff_exists'.mp hbranch
      have hrest := ih hnext
      rw [List.map_cons] at hrest
      rw [List.map_cons, List.map_cons, decodeParts, hdecode]
      dsimp only
      rw [hb]
      dsimp only
      rw [hrest]

/-- Parts that decode are those of the path (`IsPath`) they decode to.  `decodeParts` is followed
from part to part, and each part that it takes is one segment more. -/
theorem eq_of_decodeParts (a : Address) (parts : List (List Char)) : ∀ {segments : List Segment},
    parts ≠ [] → a.decodeParts parts = .ok segments →
      parts = segments.map Segment.body ∧ Segment.IsPath segments := by
  induction parts with
  | nil => exact fun h => absurd rfl h
  | cons part rest ih =>
    intro segments _ h
    rw [decodeParts] at h
    split at h
    case h_1 => exact absurd h nofun
    case h_2 s hdecode =>
      obtain ⟨rfl, hlt, htext⟩ := Segment.decode_eq_some.mp hdecode
      cases rest with
      | nil =>
        cases hb : s.branch with
        | some b =>
          rw [hb] at h
          exact absurd h nofun
        | none =>
          rw [hb, decodeParts] at h
          obtain rfl := Except.ok.inj h
          exact ⟨rfl, hlt, hb⟩
      | cons next more =>
        cases hb : s.branch with
        | none =>
          rw [hb] at h
          exact absurd h nofun
        | some b =>
          rw [hb] at h
          dsimp only at h
          split at h
          case h_1 => exact absurd h nofun
          case h_2 tail htail =>
            obtain rfl := Except.ok.inj h
            obtain ⟨heq, hpath⟩ := ih (List.cons_ne_nil next more) htail
            -- A text has no branch, and this segment goes on through one.
            have hkind : s.kind = .conditional := by
              cases hk : s.kind with
              | text => exact absurd (hb.symm.trans (htext hk)) nofun
              | conditional => rfl
            refine ⟨by rw [List.map_cons, heq], ?_⟩
            cases tail with
            | nil => exact hpath.elim
            | cons s' tail => exact ⟨hlt, hkind, by rw [hb]; exact nofun, hpath⟩

/-! ## Whole addresses -/

/-- The texts of segments one after the other are a slash and their `body`s with slashes between
them, which is what cutting at slashes takes apart. -/
theorem flatMap_text (s : Segment) (rest : List Segment) :
    (s :: rest).flatMap (fun s => s.text.toList) =
      '/' :: List.intercalate ['/'] ((s :: rest).map Segment.body) := by
  induction rest generalizing s with
  | nil =>
    rw [List.flatMap_cons, List.flatMap_nil, List.append_nil, Segment.toList_text, List.map_cons,
      List.map_nil, List.intercalate_singleton]
  | cons next more ih =>
    have hne : (next :: more).map Segment.body ≠ [] := List.cons_ne_nil _ _
    rw [List.flatMap_cons, ih next, Segment.toList_text, List.map_cons (l := next :: more),
      List.intercalate_cons_of_ne_nil hne, List.cons_append, List.append_assoc,
      List.singleton_append]

/-- `segments` gives the path (`IsPath`) that an address spells, and nothing else.  Cutting at
slashes and joining with slashes undo each other, because no `body` has a slash
(`slash_not_mem_body`). -/
theorem segments_eq_ok {a : Address} {segments : List Segment} :
    a.segments = .ok segments ↔
      Segment.IsPath segments ∧ a.text.toList = segments.flatMap fun s => s.text.toList := by
  have hslash : ∀ part ∈ segments.map Segment.body, '/' ∉ part := by
    intro part hpart
    obtain ⟨s, -, rfl⟩ := List.mem_map.mp hpart
    exact s.slash_not_mem_body
  rw [Address.segments]
  constructor
  · intro h
    split at h
    case h_1 tail htail =>
      obtain ⟨heq, hpath⟩ := a.eq_of_decodeParts _ (List.splitOn_ne_nil '/' tail) h
      refine ⟨hpath, ?_⟩
      cases segments with
      | nil => exact hpath.elim
      | cons s rest => rw [htail, flatMap_text, ← heq, List.intercalate_splitOn]
    case h_2 => exact absurd h nofun
  · rintro ⟨hpath, htext⟩
    cases segments with
    | nil => exact hpath.elim
    | cons s rest =>
      rw [htext, flatMap_text]
      change a.decodeParts (List.splitOn '/' _) = .ok (s :: rest)
      rw [List.splitOn_intercalate '/' hslash (List.cons_ne_nil _ _)]
      exact a.decodeParts_map_body _ hpath

/-- The `depth` of an address is the number of its segments, if it has any. -/
theorem depth_of_segments {a : Address} {segments : List Segment}
    (h : a.segments = .ok segments) : a.depth = segments.length := by
  rw [depth, h]

end Address

end MessageTemplate
