/-
What an address comes to in any tree.

That an address resolves to the node that carries it is known for well-formed trees.  Here the tree
may be any forest and the address any text, and the question is what is answered when the two do not
fit.  The segments of the address lead down through branches of conditionals as far as the tree goes
along with them (`Descent`).  At the first one that the tree does not go along with there is a
refusal, and it names the part of the address up to there.

The rule is written as a relation between a forest, an address and an answer (`ComesTo`).  Who reads
and who edits follow the segments each in a function of their own, `resolve` and `siteOf`; that both
give the answer of the rule is shown by one lemma for the segments that lead down and one for the
segment that decides.

A third descent does the same round by round and checks nothing twice (`descend`).  It takes a node
out of a forest without a look at the length, and it has an exit for every case that its checks
should have ruled out.  It gives the answer of the rule as well, so none of these exits is ever
taken.
-/
import MessageTemplate.Proofs.Address.Spelling

set_option autoImplicit false

namespace MessageTemplate

/-! ## The rule -/

/-- What stands in an address behind a `Segment`: the branch by which the segment goes on, if it
does, and the segments after it. -/
def Segment.behind (s : Segment) (rest : List Segment) : String :=
  s.branch.elim "" (fun b => "-" ++ b.suffix) ++ String.join (rest.map Segment.text)

/-- The end of a descent: the `way` that was taken, the `forest` it ends in, and the `node` there
with its position. -/
structure Arrival where
  way : Way
  siblings : List Node
  index : Nat
  node : Node

namespace Arrival

/-- What `resolve` answers to one who reads: the node with its siblings and its position among
them. -/
def resolved (r : Arrival) : Resolved := ⟨r.node, r.siblings, r.index⟩

/-- What `siteOf` answers to one who edits: the site of the node, and the node. -/
def place (r : Arrival) : Site × Node := (⟨r.way, r.index⟩, r.node)

end Arrival

namespace Node

/-- Segments lead from a forest along a `Way` into another forest.  Each of them names a conditional
of the forest in which it is followed and one of its branches. -/
inductive Descent : List Node → List Segment → Way → List Node → Prop
  | here (forest : List Node) : Descent forest [] [] forest
  | enter {forest : List Node} {i : Nat} {n : Node} {b : Branch} {front : List Segment} {way : Way}
    {inner : List Node} (hn : forest[i]? = some n) (hkind : n.kind = .conditional)
    (hrest : Descent (n.branch b) front way inner) :
    Descent forest (⟨i, .conditional, some b⟩ :: front) ((i, b) :: way) inner

/-- What an address comes to in a forest.  An address that is no path is `malformed` in every
forest.  Else its segments lead down until one of them decides: it asks for an index that the forest
reached does not have, or for another kind than the node there is of, or it is the last one and has
found its node.  A refusal names the address as far as it was followed, the deciding segment
included and the branch of this segment left out. -/
inductive ComesTo (forest : List Node) (a : Address) : Except AddressError Arrival → Prop
  | malformed {cause : AddressError} (hsegments : a.segments = .error cause) :
    ComesTo forest a (.error cause)
  | outOfRange {front rest : List Segment} {s : Segment} {way : Way} {inner : List Node}
    {place : Address} (hsegments : a.segments = .ok (front ++ s :: rest))
    (hdescent : Descent forest front way inner) (hs : inner.length ≤ s.index)
    (hplace : a.text = place.text ++ s.behind rest) :
    ComesTo forest a (.error (.outOfRange place s.index inner.length))
  | wrongKind {front rest : List Segment} {s : Segment} {way : Way} {inner : List Node} {n : Node}
    {place : Address} (hsegments : a.segments = .ok (front ++ s :: rest))
    (hdescent : Descent forest front way inner) (hn : inner[s.index]? = some n)
    (hkind : n.kind ≠ s.kind) (hplace : a.text = place.text ++ s.behind rest) :
    ComesTo forest a (.error (.wrongKind place s.kind n.kind))
  | found {front : List Segment} {s : Segment} {way : Way} {inner : List Node} {n : Node}
    (hsegments : a.segments = .ok (front ++ [s])) (hdescent : Descent forest front way inner)
    (hn : inner[s.index]? = some n) (hkind : n.kind = s.kind) :
    ComesTo forest a (.ok ⟨way, inner, s.index, n⟩)

/-! ## The part of an address that is named -/

/-- The segments of a `Descent` are those of its way, so the way alone tells which address they
spell. -/
theorem Descent.front_eq {forest inner : List Node} {front : List Segment} {way : Way}
    (h : Descent forest front way inner) :
    front = way.map fun step => ⟨step.1, .conditional, some step.2⟩ := by
  induction h with
  | here => rfl
  | enter _ _ _ ih => rw [ih, List.map_cons]

/-- The forest that segments lead into is `forestAt` the end of their way. -/
theorem Descent.forestAt_eq {forest inner : List Node} {front : List Segment} {way : Way}
    (h : Descent forest front way inner) : forestAt forest way = inner := by
  induction h with
  | here => rfl
  | enter hn _ _ ih =>
    rw [forestAt, hn]
    exact ih

/-- What stands in front of the branch (`Segment.behind`) of a segment is the address of the place
where the segment is looked up. -/
theorem Descent.text_eq {a : Address} {forest inner : List Node} {front rest : List Segment}
    {s : Segment} {way : Way} (h : Descent forest front way inner)
    (hsegments : a.segments = .ok (front ++ s :: rest)) :
    a.text = ((Address.root.along way).child s.index s.kind).text ++ s.behind rest := by
  have hplace : ((Address.root.along way).child s.index s.kind).text.toList =
      (front ++ [Segment.mk s.index s.kind none]).flatMap fun s => s.text.toList := by
    rw [h.front_eq]
    exact Site.toList_text_address ⟨way, s.index⟩ s.kind
  -- The text of a segment is that of its step and then its branch.
  have hstep : s.text = (Segment.mk s.index s.kind none).text ++
      s.branch.elim "" fun b => "-" ++ b.suffix := by
    obtain ⟨index, kind, branch⟩ := s
    cases branch with
    | none => simp [Segment.text]
    | some b => simp [Segment.text, String.append_assoc]
  have htext := (Address.segments_eq_ok.mp hsegments).2
  rw [← String.toList_inj, htext, String.toList_append, hplace, Segment.behind,
    String.toList_append, String.toList_join]
  simp only [List.flatMap_append, List.flatMap_cons, List.flatMap_nil, List.flatMap_map, hstep,
    String.toList_append, List.append_assoc, List.append_nil]

/-- The part of an address that a refusal names is what the `Descent` has built up to there. -/
theorem Descent.place_eq {a place : Address} {forest inner : List Node} {front rest : List Segment}
    {s : Segment} {way : Way} (h : Descent forest front way inner)
    (hsegments : a.segments = .ok (front ++ s :: rest))
    (hplace : a.text = place.text ++ s.behind rest) :
    place = (Address.root.along way).child s.index s.kind := by
  have htext := hplace.symm.trans (h.text_eq hsegments)
  exact congrArg Address.mk (String.append_left_inj _ |>.mp htext)

/-! ## Where a descent is decided -/

/-- The tree goes along with a path up to some segment by a `Descent`, and that segment decides.
The induction is on the path, for all forests; only the last segment of a path has no branch, so
before it the descent can go on. -/
theorem exists_deciding {path : List Segment} : Segment.IsPath path → ∀ forest : List Node,
    ∃ front s rest way inner, path = front ++ s :: rest ∧ Descent forest front way inner ∧
      (inner.length ≤ s.index ∨
        ∃ n, inner[s.index]? = some n ∧ (n.kind ≠ s.kind ∨ n.kind = s.kind ∧ rest = [])) := by
  induction path with
  | nil => exact fun h => h.elim
  | cons s rest ih =>
    intro hpath forest
    rcases hn : forest[s.index]? with _ | n
    · exact ⟨[], s, rest, [], forest, rfl, .here forest,
        .inl (List.getElem?_eq_none_iff.mp hn)⟩
    · by_cases hkind : n.kind = s.kind
      · by_cases hrest : rest = []
        · exact ⟨[], s, rest, [], forest, rfl, .here forest, .inr ⟨n, hn, .inr ⟨hkind, hrest⟩⟩⟩
        · -- The segment is not the last one, so it goes on through a branch of the node.
          obtain ⟨-, hconditional, hbranch, hnext⟩ := (Site.isPath_cons hrest).mp hpath
          obtain ⟨index, kind, branch⟩ := s
          obtain rfl : kind = .conditional := hconditional
          obtain ⟨b, rfl⟩ := Option.ne_none_iff_exists'.mp hbranch
          obtain ⟨front, s, after, way, inner, rfl, hdescent, hdecides⟩ := ih hnext (n.branch b)
          exact ⟨_ :: front, s, after, (index, b) :: way, inner, rfl,
            .enter hn hkind hdescent, hdecides⟩
      · exact ⟨[], s, rest, [], forest, rfl, .here forest, .inr ⟨n, hn, .inl hkind⟩⟩

/-- Every address `ComesTo` something: if it is a path, a segment decides by `exists_deciding`, and
otherwise it is malformed. -/
theorem exists_comesTo (forest : List Node) (a : Address) : ∃ o, ComesTo forest a o := by
  rcases hsegments : a.segments with cause | path
  · exact ⟨_, .malformed hsegments⟩
  · obtain ⟨front, s, rest, way, inner, rfl, hdescent, hdecides⟩ :=
      exists_deciding (Address.segments_eq_ok.mp hsegments).1 forest
    have htext := hdescent.text_eq hsegments
    rcases hdecides with hs | ⟨n, hn, hkind | ⟨hkind, rfl⟩⟩
    · exact ⟨_, .outOfRange hsegments hdescent hs htext⟩
    · exact ⟨_, .wrongKind hsegments hdescent hn hkind htext⟩
    · exact ⟨_, .found hsegments hdescent hn hkind⟩

/-! ## What is answered -/

/-- `lookUp` refuses a segment beyond the end of the forest with the number of nodes there, and with
the address of the place that does not exist. -/
theorem lookUp_outOfRange {s : Segment} {forest : List Node} (hs : forest.length ≤ s.index)
    (path : Address) :
    s.lookUp path forest =
      .error (.outOfRange (path.child s.index s.kind) s.index forest.length) := by
  rw [Segment.lookUp, List.getElem?_eq_none_iff.mpr hs]

/-- `lookUp` refuses a segment of another kind than the node with both kinds, the one asked for
first. -/
theorem lookUp_wrongKind {s : Segment} {forest : List Node} {n : Node}
    (hn : forest[s.index]? = some n) (hkind : n.kind ≠ s.kind) (path : Address) :
    s.lookUp path forest = .error (.wrongKind (path.child s.index s.kind) s.kind n.kind) := by
  rw [Segment.lookUp, hn]
  exact if_neg hkind

/-- The segment that decides is looked up once, in the forest that the segments in front of it lead
into (`Descent`).  In this form the rule is followed by the three procedures below, and each has one
lemma for a segment that goes on and one for the segment that decides. -/
theorem ComesTo.decided {forest : List Node} {a : Address} {o : Except AddressError Arrival}
    (h : ComesTo forest a o) :
    (∃ cause, a.segments = .error cause ∧ o = .error cause) ∨
    (∃ front s rest way inner cause, a.segments = .ok (front ++ s :: rest) ∧
      Descent forest front way inner ∧
      s.lookUp (Address.root.along way) inner = .error cause ∧ o = .error cause) ∨
    ∃ front s way inner n, a.segments = .ok (front ++ [s]) ∧ Descent forest front way inner ∧
      s.lookUp (Address.root.along way) inner = .ok n ∧ o = .ok ⟨way, inner, s.index, n⟩ := by
  cases h with
  | malformed hsegments => exact .inl ⟨_, hsegments, rfl⟩
  | @outOfRange front rest s way inner place hsegments hdescent hs hplace =>
    obtain rfl := hdescent.place_eq hsegments hplace
    exact .inr (.inl ⟨front, s, rest, way, inner, _, hsegments, hdescent,
      lookUp_outOfRange hs _, rfl⟩)
  | @wrongKind front rest s way inner n place hsegments hdescent hn hkind hplace =>
    obtain rfl := hdescent.place_eq hsegments hplace
    exact .inr (.inl ⟨front, s, rest, way, inner, _, hsegments, hdescent,
      lookUp_wrongKind hn hkind _, rfl⟩)
  | @found front s way inner n hsegments hdescent hn hkind =>
    exact .inr (.inr ⟨front, s, way, inner, n, hsegments, hdescent,
      lookUp_eq_ok.mpr ⟨hn, hkind⟩, rfl⟩)

/-! ## Reading -/

section

variable {forest inner : List Node} {front rest : List Segment} {s : Segment} {way : Way}

/-- In `follow` a segment that is not the last one hands over to the segments after it, in the
branch that it names. -/
theorem follow_enter {i : Nat} {b : Branch} {n : Node} (hn : forest[i]? = some n)
    (hkind : n.kind = .conditional) (a path : Address) (hrest : rest ≠ []) :
    follow a path forest (⟨i, .conditional, some b⟩ :: rest) =
      follow a ((path.child i .conditional).branch b) (n.branch b) rest := by
  have hlook : Segment.lookUp ⟨i, .conditional, some b⟩ path forest = .ok n :=
    lookUp_eq_ok.mpr ⟨hn, hkind⟩
  obtain ⟨next, more, rfl⟩ := List.exists_cons_of_ne_nil hrest
  rw [follow, hlook]
  rfl

/-- `follow` goes along with the segments of a `Descent` and arrives with the path `along` the way
and the forest at its end. -/
theorem Descent.follow_append (h : Descent forest front way inner) (a : Address) :
    ∀ path : Address,
      follow a path forest (front ++ s :: rest) = follow a (path.along way) inner (s :: rest) := by
  induction h with
  | here => exact fun _ => rfl
  | enter hn hkind _ ih =>
    intro path
    -- The segment that decides comes after this one, so this one is not the last.
    rw [List.cons_append, follow_enter hn hkind a path (by simp), ih, Address.along]

/-- The segment that `lookUp` refuses decides, whatever stands behind it: the rest of the address is
not looked at. -/
theorem follow_refused {cause : AddressError} {path : Address}
    (hlook : s.lookUp path forest = .error cause) (a : Address) :
    follow a path forest (s :: rest) = .error cause := by
  cases rest with
  | nil =>
    rw [follow, hlook]
    rfl
  | cons next more =>
    rw [follow, hlook]
    rfl

/-- Who reads by `resolve` gets the answer of the rule, `ComesTo`: up to the deciding segment by
`Descent.follow_append`, and there by what `lookUp` says. -/
theorem ComesTo.resolve_eq {a : Address} {o : Except AddressError Arrival}
    (h : ComesTo forest a o) : resolve forest a = o.map Arrival.resolved := by
  rw [resolve]
  rcases h.decided with ⟨cause, hsegments, rfl⟩ |
    ⟨front, s, rest, way, inner, cause, hsegments, hdescent, hlook, rfl⟩ |
    ⟨front, s, way, inner, n, hsegments, hdescent, hlook, rfl⟩
  · rw [hsegments]
    rfl
  · rw [hsegments]
    show follow a .root forest (front ++ s :: rest) = .error cause
    rw [hdescent.follow_append, follow_refused hlook]
  · rw [hsegments]
    show follow a .root forest (front ++ [s]) = .ok ⟨n, inner, s.index⟩
    rw [hdescent.follow_append, follow, hlook]
    rfl

/-! ## Editing -/

/-- In `followToSite` a segment that is not the last one puts its step in front of what is found. -/
theorem followToSite_enter {i : Nat} {b : Branch} {n : Node} (hn : forest[i]? = some n)
    (hkind : n.kind = .conditional) (a path : Address) (hrest : rest ≠ []) :
    followToSite a path forest (⟨i, .conditional, some b⟩ :: rest) =
      (followToSite a ((path.child i .conditional).branch b) (n.branch b) rest).map fun found =>
        (found.1.below (i, b), found.2) := by
  have hlook : Segment.lookUp ⟨i, .conditional, some b⟩ path forest = .ok n :=
    lookUp_eq_ok.mpr ⟨hn, hkind⟩
  obtain ⟨next, more, rfl⟩ := List.exists_cons_of_ne_nil hrest
  rw [followToSite, hlook]
  show (followToSite a _ _ (next :: more) >>= _) =
    Except.map _ (followToSite a _ _ (next :: more))
  rcases followToSite a ((path.child i .conditional).branch b) (n.branch b) (next :: more)
    with cause | found
  · rfl
  · rfl

/-- `followToSite` goes along with the segments of a `Descent`, and puts the way in front of what is
found. -/
theorem Descent.followToSite_append (h : Descent forest front way inner) (a : Address) :
    ∀ path : Address,
      followToSite a path forest (front ++ s :: rest) =
        (followToSite a (path.along way) inner (s :: rest)).map fun found =>
          (⟨way ++ found.1.way, found.1.index⟩, found.2) := by
  induction h with
  | here inner =>
    intro path
    rw [List.nil_append, Address.along]
    rcases followToSite a path inner (s :: rest) with cause | found
    · rfl
    · rfl
  | @enter forest i n b front way inner hn hkind _ ih =>
    intro path
    rw [List.cons_append, followToSite_enter hn hkind a path (by simp), ih, Address.along]
    rcases followToSite a (((path.child i .conditional).branch b).along way) inner (s :: rest)
      with cause | found
    · rfl
    · rfl

/-- The segment that `lookUp` refuses decides for one who edits as well, with the same error as in
`follow_refused`. -/
theorem followToSite_refused {cause : AddressError} {path : Address}
    (hlook : s.lookUp path forest = .error cause) (a : Address) :
    followToSite a path forest (s :: rest) = .error cause := by
  cases rest with
  | nil =>
    rw [followToSite, hlook]
    rfl
  | cons next more =>
    rw [followToSite, hlook]
    rfl

/-- Who edits by `siteOf` gets the answer of the rule, `ComesTo`; the way of the descent is the way
of the site. -/
theorem ComesTo.siteOf_eq {a : Address} {o : Except AddressError Arrival}
    (h : ComesTo forest a o) : siteOf forest a = o.map Arrival.place := by
  rw [siteOf]
  rcases h.decided with ⟨cause, hsegments, rfl⟩ |
    ⟨front, s, rest, way, inner, cause, hsegments, hdescent, hlook, rfl⟩ |
    ⟨front, s, way, inner, n, hsegments, hdescent, hlook, rfl⟩
  · rw [hsegments]
    rfl
  · rw [hsegments]
    show followToSite a .root forest (front ++ s :: rest) = .error cause
    rw [hdescent.followToSite_append, followToSite_refused hlook]
    rfl
  · rw [hsegments]
    show followToSite a .root forest (front ++ [s]) = .ok (⟨way, s.index⟩, n)
    rw [hdescent.followToSite_append, followToSite, hlook]
    show Except.ok (Site.mk (way ++ []) s.index, n) = _
    rw [List.append_nil]

/-! ## Round by round -/

/-- How `descend` can end without a node.  A check refuses, which is an answer; or something is met
that the checks should have ruled out. -/
inductive Halt where
  | refused (cause : AddressError)
  | noSegments
  | noBranch
  | textOnTheWay
  | outOfBounds
  deriving DecidableEq

/-- The node at an index, taken without a look at the length of the forest: a `Halt` if there is
none. -/
def fetch (forest : List Node) (index : Nat) : Except Halt Node :=
  match forest[index]? with
  | some n => .ok n
  | none => .error .outOfBounds

/-- Where a descent stands: the `path` so far, the `forest` there, and the `way` to it. -/
structure Stand where
  path : Address
  forest : List Node
  way : Way

/-- Goes into a node by a `Segment`: through the branch of the segment, if there is one, and if the
node is a conditional. -/
def Stand.into (here : Stand) (s : Segment) (n : Node) : Except Halt Stand :=
  match n.kind, s.branch with
  | .text, _ => .error .textOnTheWay
  | .conditional, none => .error .noBranch
  | .conditional, some b =>
    .ok ⟨(here.path.child s.index s.kind).branch b, n.branch b, here.way ++ [(s.index, b)]⟩

/-- A round that goes on: the segment is checked, its node is fetched by `fetch`, and the node is
entered by `into`. -/
def Stand.enter (here : Stand) (s : Segment) : Except Halt Stand := do
  let _ ← (s.lookUp here.path here.forest).mapError .refused
  let n ← fetch here.forest s.index
  here.into s n

/-- The last round: the segment is checked and its node is fetched by `fetch`. -/
def Stand.stop (here : Stand) (s : Segment) : Except Halt Arrival := do
  let _ ← (s.lookUp here.path here.forest).mapError .refused
  let n ← fetch here.forest s.index
  .ok ⟨here.way, here.forest, s.index, n⟩

/-- All rounds: every segment but the last one goes on by `Stand.enter`, and the last one ends by
`Stand.stop`. -/
def rounds (forest : List Node) (path : List Segment) : Except Halt Arrival :=
  match path.getLast? with
  | none => .error .noSegments
  | some target => do
    let inner ← path.dropLast.foldlM Stand.enter ⟨.root, forest, []⟩
    inner.stop target

/-- Follows an address round by round: the `rounds` of its segments, from the root. -/
def descend (forest : List Node) (a : Address) : Except Halt Arrival := do
  let path ← a.segments.mapError .refused
  rounds forest path

/-- A check that is refused ends the round, before anything is fetched. -/
theorem Stand.enter_refused {here : Stand} {cause : AddressError}
    (hlook : s.lookUp here.path here.forest = .error cause) :
    here.enter s = .error (.refused cause) := by
  rw [enter, hlook]
  rfl

/-- So it does in the last round. -/
theorem Stand.stop_refused {here : Stand} {cause : AddressError}
    (hlook : s.lookUp here.path here.forest = .error cause) :
    here.stop s = .error (.refused cause) := by
  rw [stop, hlook]
  rfl

/-- A check that succeeds makes `fetch` succeed, with the same node.  `stop` relies on this when it
takes the node by its index. -/
theorem Stand.stop_found {here : Stand} {n : Node}
    (hlook : s.lookUp here.path here.forest = .ok n) :
    here.stop s = .ok ⟨here.way, here.forest, s.index, n⟩ := by
  rw [stop, hlook, fetch, (lookUp_eq_ok.mp hlook).1]
  rfl

/-- `Stand.enter` goes into the branch of the conditional that its check has found, so neither a
missing branch nor a text on the way is met. -/
theorem Stand.enter_found {here : Stand} {i : Nat} {b : Branch} {n : Node}
    (hn : here.forest[i]? = some n) (hkind : n.kind = .conditional) :
    here.enter ⟨i, .conditional, some b⟩ =
      .ok ⟨(here.path.child i .conditional).branch b, n.branch b, here.way ++ [(i, b)]⟩ := by
  have hlook : Segment.lookUp ⟨i, .conditional, some b⟩ here.path here.forest = .ok n :=
    lookUp_eq_ok.mpr ⟨hn, hkind⟩
  rw [enter, hlook, fetch, hn]
  show here.into ⟨i, .conditional, some b⟩ n = _
  rw [into, hkind]

/-- The segments of a `Descent` are entered one after the other.  The way is collected behind the
one taken before, so the induction is for all of these. -/
theorem Descent.foldlM_enter (h : Descent forest front way inner) :
    ∀ (path : Address) (before : Way),
      front.foldlM Stand.enter ⟨path, forest, before⟩ =
        .ok ⟨path.along way, inner, before ++ way⟩ := by
  induction h with
  | here inner =>
    intro path before
    rw [List.append_nil]
    rfl
  | @enter forest i n b front way inner hn hkind _ ih =>
    intro path before
    rw [List.foldlM_cons, Stand.enter_found hn hkind]
    show front.foldlM Stand.enter _ = _
    rw [ih, List.append_assoc]
    rfl

/-- A round that is refused ends the `rounds`, whether it is the last one or not. -/
theorem Descent.rounds_refused (h : Descent forest front way inner) {cause : AddressError}
    (hlook : s.lookUp (Address.root.along way) inner = .error cause) :
    rounds forest (front ++ s :: rest) = .error (.refused cause) := by
  rw [rounds]
  by_cases hrest : rest = []
  · subst hrest
    rw [List.getLast?_concat, List.dropLast_concat, h.foldlM_enter]
    exact Stand.stop_refused hlook
  · -- The round is one of those that go on, and it is the first that does not follow the tree.
    have hlast : (front ++ s :: rest).getLast? = some (rest.getLast hrest) := by
      rw [List.getLast?_append, List.getLast?_cons,
        List.getLast?_eq_some_getLast hrest, Option.getD_some, Option.some_or]
    rw [hlast, List.dropLast_append_cons, List.dropLast_cons_of_ne_nil hrest, List.foldlM_append,
      h.foldlM_enter]
    show ((s :: rest.dropLast).foldlM Stand.enter _ >>= _) = _
    rw [List.foldlM_cons, Stand.enter_refused hlook]
    rfl

/-- When all `rounds` follow the tree, the last one finds its node, and `Stand.stop` answers with
the way that was collected. -/
theorem Descent.rounds_found (h : Descent forest front way inner) {n : Node}
    (hlook : s.lookUp (Address.root.along way) inner = .ok n) :
    rounds forest (front ++ [s]) = .ok ⟨way, inner, s.index, n⟩ := by
  rw [rounds, List.getLast?_concat, List.dropLast_concat, h.foldlM_enter]
  exact Stand.stop_found hlook

/-- `descend`, round by round, gets the answer of the rule, `ComesTo`.  As every address comes to
something, none of the other ways to end a `Halt` has is ever taken. -/
theorem ComesTo.descend_eq {a : Address} {o : Except AddressError Arrival}
    (h : ComesTo forest a o) : descend forest a = o.mapError .refused := by
  rw [descend]
  rcases h.decided with ⟨cause, hsegments, rfl⟩ |
    ⟨front, s, rest, way, inner, cause, hsegments, hdescent, hlook, rfl⟩ |
    ⟨front, s, way, inner, n, hsegments, hdescent, hlook, rfl⟩
  · rw [hsegments]
    rfl
  · rw [hsegments]
    exact hdescent.rounds_refused hlook
  · rw [hsegments]
    exact hdescent.rounds_found hlook

end

/-! ## One answer -/

/-- An address `ComesTo` one thing only: `descend` tells the answers apart. -/
theorem ComesTo.unique {forest : List Node} {a : Address} {o o' : Except AddressError Arrival}
    (h : ComesTo forest a o) (h' : ComesTo forest a o') : o = o' := by
  have hsame := h.descend_eq.symm.trans h'.descend_eq
  rcases o with cause | r <;> rcases o' with cause' | r'
  · rw [Halt.refused.inj (Except.error.inj hsame)]
  · cases hsame
  · cases hsame
  · rw [Except.ok.inj hsame]

/-- Who reads by `resolve` is answered what stands at the place that `siteOf` gives to one who
edits. -/
theorem ComesTo.resolve_eq_map_siteOf {forest : List Node} {a : Address}
    {o : Except AddressError Arrival} (h : ComesTo forest a o) :
    resolve forest a = (siteOf forest a).map fun found =>
      ⟨found.2, found.1.siblings forest, found.1.index⟩ := by
  rw [h.resolve_eq, h.siteOf_eq]
  cases h with
  | malformed => rfl
  | outOfRange => rfl
  | wrongKind => rfl
  | @found front s way inner n hsegments hdescent hn hkind =>
    show Except.ok (Resolved.mk n inner s.index) =
      .ok ⟨n, Site.siblings ⟨way, s.index⟩ forest, s.index⟩
    rw [Site.siblings, hdescent.forestAt_eq]

/-- Only what is no path is called `malformed`, and then for its spelling.  The two other reasons
belong to ends of a descent that its checks rule out. -/
theorem ComesTo.malformed_reason {forest : List Node} {a b : Address} {reason : Malformation}
    (h : ComesTo forest a (.error (.malformed b reason))) :
    a.segments = .error (.malformed b reason) ∧ reason ≠ .noSegments ∧
      reason ≠ .branchMissing := by
  cases h with
  | malformed hsegments =>
    obtain ⟨reason', hcause, hreason⟩ := Address.segments_reason hsegments
    obtain ⟨rfl, rfl⟩ := AddressError.malformed.inj hcause
    exact ⟨hsegments, hreason⟩

/-- An address is called `malformed` exactly if it is no path. -/
theorem ComesTo.isMalformed_iff {forest : List Node} {a : Address}
    {o : Except AddressError Arrival} (h : ComesTo forest a o) :
    (∃ cause, o = .error cause ∧ cause.isMalformed = true) ↔
      ∃ cause, a.segments = .error cause := by
  constructor
  · rintro ⟨cause, rfl, hmalformed⟩
    cases cause with
    | malformed b reason => exact ⟨_, h.malformed_reason.1⟩
    | outOfRange place index siblings => exact absurd hmalformed nofun
    | wrongKind place expected found => exact absurd hmalformed nofun
  · rintro ⟨cause, hsegments⟩
    obtain rfl : o = .error cause := h.unique (.malformed hsegments)
    obtain ⟨reason, rfl⟩ := Address.segments_error hsegments
    exact ⟨_, rfl, rfl⟩

/-- What an address comes to, in any forest and for any address.  It is one thing, and it is what
both are answered who read and who edit, and what is read stands at the place that is edited.  It
is also what is found round by round, so a fetch is never out of bounds and no round enters a text
or lacks a branch.  An address is called malformed exactly if it is no path, and never for having
no segments or for a missing branch. -/
theorem resolve_exactly (forest : List Node) (a : Address) :
    ∃ o : Except AddressError Arrival, (∀ o', ComesTo forest a o' ↔ o' = o) ∧
      resolve forest a = o.map Arrival.resolved ∧
      siteOf forest a = o.map Arrival.place ∧
      (resolve forest a = (siteOf forest a).map fun found =>
        ⟨found.2, found.1.siblings forest, found.1.index⟩) ∧
      descend forest a = o.mapError .refused ∧
      ((∃ cause, o = .error cause ∧ cause.isMalformed = true) ↔
        ∃ cause, a.segments = .error cause) ∧
      ∀ b, o ≠ .error (.malformed b .noSegments) ∧ o ≠ .error (.malformed b .branchMissing) := by
  obtain ⟨o, h⟩ := exists_comesTo forest a
  refine ⟨o, fun o' => ⟨fun h' => h'.unique h, ?_⟩, h.resolve_eq, h.siteOf_eq,
    h.resolve_eq_map_siteOf, h.descend_eq, h.isMalformed_iff, fun b => ⟨?_, ?_⟩⟩
  · rintro rfl
    exact h
  · rintro rfl
    exact h.malformed_reason.2.1 rfl
  · rintro rfl
    exact h.malformed_reason.2.2 rfl

/-- The kind differs where `resolve` is, and the rest of the address is not looked at. -/
example :
    let t := Template.ofContents [.text "a", .conditional [] [.text "b"] []]
    resolve t.nodes ⟨"/1-if-then/0-if-else/7-text"⟩ =
      .error (.wrongKind ⟨"/1-if-then/0-if"⟩ .conditional .text) := by
  rfl

end Node

end MessageTemplate
