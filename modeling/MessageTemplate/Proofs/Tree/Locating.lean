/-
Resolving an address is the inverse of addressing.

Three recursions meet here: the one that writes addresses into a tree, the one that decodes an
address, and the one that follows its segments.  What connects them is the `Site` of a node.  A site
has one address for each kind of node that can stand there (`Site.address`), that address decodes to
the segments of the site and to no others (`Site.segments_address`), and following these leads to
the site (`Node.follow_eq_ok`).  This needs nothing of the tree; that the node found also carries
the address does, and it is the only place where well-formedness is used.

Positions are written with 64 bits, so addresses are as good as sites only in a tree whose forests
are not longer than that (`Node.Fits`).
-/
import MessageTemplate.Proofs.Address.Codec
import MessageTemplate.Tree.Walk
import MessageTemplate.Proofs.Tree.WellFormed

set_option autoImplicit false

namespace MessageTemplate

/-! ## Addresses of sites -/

/-- The path at the end of a `Way` that starts at this path. -/
def Address.along (path : Address) : Way → Address
  | [] => path
  | step :: rest => ((path.child step.1 .conditional).branch step.2).along rest

namespace Site

/-- The address of a node of some `Kind` that stands here, whether the tree has one or not. -/
def address (s : Site) (k : Kind) : Address :=
  (Address.root.along s.way).child s.index k

/-- The segments on the way to a node of some `Kind` that stands here; `address` spells them. -/
def segments (s : Site) (k : Kind) : List Segment :=
  s.way.map (fun step => ⟨step.1, .conditional, some step.2⟩) ++ [⟨s.index, k, none⟩]

/-- All positions on the way are below `indexBound`, so the address can be read again. -/
def Bounded (s : Site) : Prop :=
  (∀ step ∈ s.way, step.1 < indexBound) ∧ s.index < indexBound

theorem segments_cons (step : Nat × Branch) (way : Way) (index : Nat) (k : Kind) :
    segments ⟨step :: way, index⟩ k =
      ⟨step.1, .conditional, some step.2⟩ :: segments ⟨way, index⟩ k := by
  rw [segments, segments, List.map_cons, List.cons_append]

theorem bounded_cons {step : Nat × Branch} {way : Way} {index : Nat} :
    Bounded ⟨step :: way, index⟩ ↔ step.1 < indexBound ∧ Bounded ⟨way, index⟩ := by
  rw [Bounded, Bounded, List.forall_mem_cons, and_assoc]

theorem segments_ne_nil (s : Site) (k : Kind) : s.segments k ≠ [] := by
  rw [segments]
  exact List.append_ne_nil_of_right_ne_nil _ (List.cons_ne_nil _ _)

/-- A `Site` has a segment for every step of its way and its own. -/
theorem length_segments (s : Site) (k : Kind) : (s.segments k).length = s.way.length + 1 := by
  rw [segments, List.length_append, List.length_map, List.length_singleton]

/-- The `segments` of a site determine it, as each of them has the position and the branch of a
step. -/
theorem segments_inj {s s' : Site} {k k' : Kind} (h : s.segments k = s'.segments k') : s = s' := by
  obtain ⟨way, index⟩ := s
  obtain ⟨way', index'⟩ := s'
  obtain ⟨hmap, hlast⟩ := List.append_inj' h rfl
  have hstep : ∀ step step' : Nat × Branch,
      Segment.mk step.1 .conditional (some step.2) =
        Segment.mk step'.1 .conditional (some step'.2) → step = step' := by
    rintro ⟨i, b⟩ ⟨i', b'⟩ heq
    obtain ⟨hi, -, hb⟩ := Segment.mk.inj heq
    rw [Prod.mk.injEq]
    exact ⟨hi, Option.some.inj hb⟩
  obtain ⟨hindex, -, -⟩ := Segment.mk.inj (List.cons.inj hlast).1
  rw [Site.mk.injEq]
  exact ⟨(List.map_inj_right hstep).mp hmap, hindex⟩

/-- The address at the end of a way (`along`) is the path it starts at and the texts of the
segments.  The induction is on the way; each step of it is one segment. -/
theorem toList_text_along (k : Kind) (index : Nat) (way : Way) : ∀ path : Address,
    ((path.along way).child index k).text.toList =
      path.text.toList ++ (segments ⟨way, index⟩ k).flatMap fun s => s.text.toList := by
  induction way with
  | nil =>
    intro path
    rw [Address.along, Address.child, segments, List.map_nil, List.nil_append,
      List.flatMap_singleton, String.toList_append]
  | cons step rest ih =>
    intro path
    have hstep : ((path.child step.1 .conditional).branch step.2).text =
        path.text ++ (Segment.mk step.1 .conditional (some step.2)).text := by
      rw [Address.branch, Address.child, Segment.text, Segment.text]
      simp only [String.append_assoc]
    rw [Address.along, ih, hstep, segments_cons, List.flatMap_cons, String.toList_append,
      List.append_assoc]

theorem toList_text_address (s : Site) (k : Kind) :
    (s.address k).text.toList = (s.segments k).flatMap fun s => s.text.toList := by
  rw [address, toList_text_along, Address.root, String.toList_empty, List.nil_append]

/-! ## Sites are paths -/

/-- An `IsPath` with more than one segment goes on through a branch of a conditional. -/
theorem isPath_cons {s : Segment} {rest : List Segment} (h : rest ≠ []) :
    Segment.IsPath (s :: rest) ↔
      s.index < indexBound ∧ s.kind = .conditional ∧ s.branch ≠ none ∧ Segment.IsPath rest := by
  obtain ⟨next, more, rfl⟩ := List.exists_cons_of_ne_nil h
  rw [Segment.IsPath]

/-- The segments of a site are a path if the site is `Bounded`, and there is no other condition. -/
theorem isPath_segments {way : Way} {index : Nat} {k : Kind} :
    Segment.IsPath (segments ⟨way, index⟩ k) ↔ Bounded ⟨way, index⟩ := by
  induction way with
  | nil =>
    rw [segments, List.map_nil, List.nil_append, Segment.IsPath, Bounded]
    simp only [and_true, List.not_mem_nil, false_implies, implies_true, true_and]
  | cons step rest ih =>
    rw [segments_cons, bounded_cons, isPath_cons (segments_ne_nil _ _), ih]
    simp only [ne_eq, reduceCtorEq, not_false_eq_true, true_and]

/-- Every path (`IsPath`) leads to a site. -/
theorem exists_segments {path : List Segment} (h : Segment.IsPath path) :
    ∃ s : Site, ∃ k, path = s.segments k := by
  induction path with
  | nil => exact h.elim
  | cons first rest ih =>
    obtain ⟨index, kind, branch⟩ := first
    by_cases hrest : rest = []
    · subst hrest
      rw [Segment.IsPath] at h
      obtain ⟨-, rfl⟩ := h
      exact ⟨⟨[], index⟩, kind, rfl⟩
    · obtain ⟨-, rfl, hbranch, hpath⟩ := (isPath_cons hrest).mp h
      obtain ⟨s, k, rfl⟩ := ih hpath
      obtain ⟨b, rfl⟩ := Option.ne_none_iff_exists'.mp hbranch
      exact ⟨s.below (index, b), k, (segments_cons (index, b) s.way s.index k).symm⟩

/-- The address of a `Bounded` site decodes to the segments of the site. -/
theorem segments_address {s : Site} (h : s.Bounded) (k : Kind) :
    (s.address k).segments = .ok (s.segments k) :=
  Address.segments_eq_ok.mpr ⟨isPath_segments.mpr h, toList_text_address s k⟩

/-- Two `Bounded` sites do not share an address, whatever stands there. -/
theorem address_inj {s s' : Site} (hs : s.Bounded) (hs' : s'.Bounded) {k k' : Kind}
    (h : s.address k = s'.address k') : s = s' := by
  -- Both addresses are decoded by `segments_address`; the segments of a site determine it.
  have hsegments := segments_address hs k
  rw [h, segments_address hs'] at hsegments
  exact segments_inj (Except.ok.inj hsegments).symm

/-- An address that `segments` decodes is the address of a site. -/
theorem of_segments_eq_ok {a : Address} {path : List Segment} (h : a.segments = .ok path) :
    ∃ (s : Site) (k : Kind), s.Bounded ∧ a = s.address k ∧ path = s.segments k := by
  obtain ⟨hpath, htext⟩ := Address.segments_eq_ok.mp h
  obtain ⟨s, k, rfl⟩ := exists_segments hpath
  refine ⟨s, k, isPath_segments.mp hpath, ?_, rfl⟩
  rw [← toList_text_address] at htext
  exact congrArg Address.mk (String.toList_inj.mp htext)

end Site

/-! ## Following segments -/

namespace Node

/-- `lookUp` leads to the node at the position of the segment, if that is of its kind. -/
theorem lookUp_eq_ok {s : Segment} {path : Address} {forest : List Node} {n : Node} :
    s.lookUp path forest = .ok n ↔ forest[s.index]? = some n ∧ n.kind = s.kind := by
  rw [Segment.lookUp]
  cases forest[s.index]? with
  | none => exact ⟨nofun, fun h => absurd h.1 nofun⟩
  | some m =>
    dsimp only
    rw [Option.some.injEq]
    by_cases hk : m.kind = s.kind
    · rw [if_pos hk, Except.ok.injEq]
      constructor
      · rintro rfl
        exact ⟨rfl, hk⟩
      · exact fun h => h.1
    · rw [if_neg hk]
      refine ⟨nofun, ?_⟩
      rintro ⟨rfl, h⟩
      exact absurd h hk

theorem forestAt_nil (way : Way) : forestAt [] way = [] := by
  cases way with
  | nil => rw [forestAt]
  | cons step rest => rw [forestAt, List.getElem?_nil]

/-- A way to a node starts with a conditional, as a text has nothing in its branches. -/
theorem step_of_getElem?_forestAt {forest : List Node} {step : Nat × Branch} {rest : Way}
    {index : Nat} {n : Node} (h : (forestAt forest (step :: rest))[index]? = some n) :
    ∃ m, forest[step.1]? = some m ∧ m.kind = .conditional ∧
      (forestAt (m.branch step.2) rest)[index]? = some n := by
  rw [forestAt] at h
  cases hm : forest[step.1]? with
  | none =>
    rw [hm, List.getElem?_nil] at h
    exact absurd h.symm (Option.some_ne_none n)
  | some m =>
    rw [hm] at h
    refine ⟨m, rfl, ?_, h⟩
    cases m with
    | conditional a c t e => rfl
    | text a f s =>
      -- The branches of a text are empty, and no node stands in an empty forest.
      dsimp only at h
      rw [branch, forestAt_nil, List.getElem?_nil] at h
      exact absurd h.symm (Option.some_ne_none n)

/-- `follow` along the segments of a site leads to the node that stands there, if it is of the right
kind. -/
theorem follow_eq_ok (a : Address) (index : Nat) (k : Kind) {r : Resolved} (way : Way) :
    ∀ (path : Address) (forest : List Node),
      follow a path forest (Site.segments ⟨way, index⟩ k) = .ok r ↔
        ∃ n, (forestAt forest way)[index]? = some n ∧ n.kind = k ∧
          r = ⟨n, forestAt forest way, index⟩ := by
  induction way with
  | nil =>
    intro path forest
    rw [Site.segments, List.map_nil, List.nil_append, follow, Outcome.bind_eq_ok, forestAt]
    constructor
    · rintro ⟨n, hn, hr⟩
      obtain ⟨hn, hk⟩ := lookUp_eq_ok.mp hn
      exact ⟨n, hn, hk, (Except.ok.inj hr).symm⟩
    · rintro ⟨n, hn, hk, rfl⟩
      exact ⟨n, lookUp_eq_ok.mpr ⟨hn, hk⟩, rfl⟩
  | cons step rest ih =>
    intro path forest
    obtain ⟨next, more, hnext⟩ :=
      List.exists_cons_of_ne_nil (Site.segments_ne_nil ⟨rest, index⟩ k)
    rw [Site.segments_cons, hnext, follow, Outcome.bind_eq_ok]
    rw [hnext] at ih
    constructor
    · rintro ⟨m, hm, hfollow⟩
      obtain ⟨hm, -⟩ := lookUp_eq_ok.mp hm
      rw [forestAt, hm]
      exact (ih _ _).mp hfollow
    · rintro ⟨n, hn, hk, rfl⟩
      obtain ⟨m, hm, hkind, hn⟩ := step_of_getElem?_forestAt hn
      refine ⟨m, lookUp_eq_ok.mpr ⟨hm, hkind⟩, (ih _ _).mpr ⟨n, hn, hk, ?_⟩⟩
      rw [forestAt, hm]

/-- What `resolve` finds for an address in any forest, well formed or not. -/
theorem resolve_eq_ok {forest : List Node} {a : Address} {r : Resolved} :
    resolve forest a = .ok r ↔
      ∃ s n, Site.Bounded s ∧ (s.siblings forest)[s.index]? = some n ∧ a = s.address n.kind ∧
        r = ⟨n, s.siblings forest, s.index⟩ := by
  rw [resolve, Outcome.bind_eq_ok]
  constructor
  · rintro ⟨path, hpath, hfollow⟩
    obtain ⟨s, k, hbounded, ha, rfl⟩ := Site.of_segments_eq_ok hpath
    obtain ⟨n, hn, rfl, hr⟩ := (follow_eq_ok a s.index k s.way .root forest).mp hfollow
    exact ⟨s, n, hbounded, hn, ha, hr⟩
  · rintro ⟨s, n, hbounded, hn, rfl, hr⟩
    refine ⟨s.segments n.kind, Site.segments_address hbounded n.kind, ?_⟩
    exact (follow_eq_ok _ s.index n.kind s.way .root forest).mpr ⟨n, hn, rfl, hr⟩

/-! ## Positions in a tree -/

/-- Every forest of the tree is short enough for its positions to be below `indexBound`. -/
def Fits (forest : List Node) : Prop :=
  ∀ way, (forestAt forest way).length ≤ indexBound

theorem Fits.branch {forest : List Node} (h : Fits forest) {i : Nat} {n : Node}
    (hn : forest[i]? = some n) (b : Branch) : Fits (n.branch b) := by
  intro way
  have hway := h ((i, b) :: way)
  rw [forestAt, hn] at hway
  exact hway

theorem lt_length_of_getElem? {forest : List Node} {i : Nat} {n : Node}
    (h : forest[i]? = some n) : i < forest.length :=
  (List.getElem?_eq_some_iff.mp h).1

/-- In a tree that fits, the site of every node is `Bounded`. -/
theorem Fits.bounded {n : Node} {index : Nat} (way : Way) : ∀ {forest : List Node}, Fits forest →
    (forestAt forest way)[index]? = some n → Site.Bounded ⟨way, index⟩ := by
  induction way with
  | nil =>
    intro forest h hn
    rw [forestAt] at hn
    refine ⟨fun step hstep => absurd hstep List.not_mem_nil, ?_⟩
    exact Nat.lt_of_lt_of_le (lt_length_of_getElem? hn) (h [])
  | cons step rest ih =>
    intro forest h hn
    obtain ⟨m, hm, -, hn⟩ := step_of_getElem?_forestAt hn
    refine Site.bounded_cons.mpr ⟨?_, ih (h.branch hm step.2) hn⟩
    exact Nat.lt_of_lt_of_le (lt_length_of_getElem? hm) (h [])

/-- A node of a `WellFormed` forest is `Placed` at the path of the way to it. -/
theorem WellFormed.placed {n : Node} {index : Nat} (way : Way) :
    ∀ {path : Address} {forest : List Node}, WellFormed path forest →
      (forestAt forest way)[index]? = some n → Placed (path.along way) index n := by
  induction way with
  | nil =>
    intro path forest h hn
    rw [forestAt] at hn
    exact ((wellFormed_iff path forest).mp h).2 index n hn
  | cons step rest ih =>
    intro path forest h hn
    obtain ⟨m, hm, hkind, hn⟩ := step_of_getElem?_forestAt hn
    have hplaced := ((wellFormed_iff path forest).mp h).2 step.1 m hm
    exact ih (hplaced.branch hkind step.2) hn

end Node

/-! ## Templates -/

namespace Template

/-- Templates in which every node has just been given its address: those of a stored forest
(`ofContents`), and those computed anew (`refresh`). -/
inductive Addressed : Template → Prop
  | ofContents (forest : List Content) : Addressed (.ofContents forest)
  | refresh (t : Template) : Addressed t.refresh

theorem Addressed.wellFormed {t : Template} (h : t.Addressed) : t.WellFormed := by
  cases h with
  | ofContents forest => exact ofContents_wellFormed forest
  | refresh t => exact refresh_wellFormed t

section

variable {t : Template} {s s' : Site} {n n' : Node}

/-- A node among the `visits` of a well-formed template carries the address of its site. -/
theorem WellFormed.address_of_mem_visits (h : t.WellFormed) (hmem : (s, n) ∈ t.visits) :
    n.address = s.address n.kind :=
  (Node.WellFormed.placed s.way h (mem_visits.mp hmem)).address

/-- The `depth` of a node's address is one more than there are conditionals around the node. -/
theorem depth_of_mem_visits (h : t.WellFormed) (hfits : Node.Fits t.nodes)
    (hmem : (s, n) ∈ t.visits) : n.address.depth = s.way.length + 1 := by
  have hbounded := hfits.bounded s.way (mem_visits.mp hmem)
  rw [h.address_of_mem_visits hmem, Address.depth_of_segments (Site.segments_address hbounded _),
    Site.length_segments]

/-- Two nodes with the same address stand at the same site: by `address_inj` a site is known by its
address. -/
theorem site_eq_of_address_eq (h : t.WellFormed) (hfits : Node.Fits t.nodes)
    (hmem : (s, n) ∈ t.visits) (hmem' : (s', n') ∈ t.visits) (heq : n.address = n'.address) :
    s = s' := by
  have hs := hfits.bounded s.way (mem_visits.mp hmem)
  have hs' := hfits.bounded s'.way (mem_visits.mp hmem')
  rw [h.address_of_mem_visits hmem, h.address_of_mem_visits hmem'] at heq
  exact Site.address_inj hs hs' heq

end

/-- In a well-formed template `resolve` takes an address to the node that carries it, at the site of
that node. -/
theorem resolve_eq_ok_iff_visits {t : Template} (h : t.WellFormed) (hfits : Node.Fits t.nodes)
    {a : Address} {r : Resolved} :
    Node.resolve t.nodes a = .ok r ↔
      ∃ s n, (s, n) ∈ t.visits ∧ n.address = a ∧ r = ⟨n, s.siblings t.nodes, s.index⟩ := by
  rw [Node.resolve_eq_ok]
  constructor
  · rintro ⟨s, n, -, hn, rfl, hr⟩
    exact ⟨s, n, mem_visits.mpr hn, h.address_of_mem_visits (mem_visits.mpr hn), hr⟩
  · rintro ⟨s, n, hmem, rfl, hr⟩
    exact ⟨s, n, hfits.bounded s.way (mem_visits.mp hmem), mem_visits.mp hmem,
      h.address_of_mem_visits hmem, hr⟩

/-- No two nodes of a `walk` have the same address.  The walk alone cannot say so, as two nodes of
it may look alike, and so the sites of the visits are used. -/
theorem nodup_addresses {t : Template} (h : t.WellFormed) (hfits : Node.Fits t.nodes) :
    (t.walk.map fun v => v.2.address).Nodup := by
  have hmap : (t.walk.map fun v => v.2.address) = t.visits.map fun v => v.2.address := by
    rw [walk_eq_map_visits, List.map_map]
    rfl
  have hsites := t.nodup_visits
  rw [List.Nodup, List.pairwise_map] at hsites
  rw [hmap, List.Nodup, List.pairwise_map]
  refine hsites.imp_of_mem fun hv hv' hne heq => hne ?_
  exact site_eq_of_address_eq h hfits hv hv' heq

/-- A template with few enough nodes `Fits`: the sites of one forest are distinct sites of the
walk. -/
theorem fits_of_length_walk {t : Template} (h : t.walk.length ≤ indexBound) :
    Node.Fits t.nodes := by
  intro way
  have hnodup : ((List.range (Node.forestAt t.nodes way).length).map (Site.mk way)).Nodup := by
    refine List.Pairwise.map _ (fun i j hne heq => hne ?_) List.nodup_range
    exact (Site.mk.inj heq).2
  have hsubset : (List.range (Node.forestAt t.nodes way).length).map (Site.mk way) ⊆
      t.visits.map Prod.fst := by
    intro s hs
    obtain ⟨i, hi, rfl⟩ := List.mem_map.mp hs
    have hn := List.getElem?_eq_getElem (List.mem_range.mp hi)
    exact List.mem_map.mpr ⟨_, mem_visits (s := ⟨way, i⟩).mpr hn, rfl⟩
  have hle := hnodup.length_le_of_subset hsubset
  rw [List.length_map, List.length_map, List.length_range] at hle
  rw [walk_eq_map_visits, List.length_map] at h
  exact Nat.le_trans hle h

/-- Resolving is the exact inverse of addressing.

An address resolves exactly if some node of the walk carries it.  The `k`-th node of
the walk is then found by its address at its own site, and it is as deep in the walk
as its address has segments, less one.  No two nodes of the walk share an address. -/
theorem resolve_inverse {t : Template} (ht : t.Addressed) (hfits : Node.Fits t.nodes) :
    (∀ a : Address,
      (∃ r, Node.resolve t.nodes a = .ok r) ↔ ∃ v ∈ t.walk, v.2.address = a) ∧
    (∀ (a : Address) (k : Nat) (s : Site) (n : Node),
      t.visits[k]? = some (s, n) → n.address = a →
        Node.resolve t.nodes a = .ok ⟨n, s.siblings t.nodes, s.index⟩ ∧
        (s.siblings t.nodes)[s.index]? = some n ∧
        t.walk[k]? = some (a.depth - 1, n)) ∧
    t.visits.length = t.walk.length ∧
    (t.walk.map fun v => v.2.address).Nodup := by
  have h := ht.wellFormed
  refine ⟨fun a => ?_, fun a k s n hk ha => ?_, ?_, nodup_addresses h hfits⟩
  · constructor
    · rintro ⟨r, hr⟩
      obtain ⟨s, n, hmem, ha, -⟩ := (resolve_eq_ok_iff_visits h hfits).mp hr
      refine ⟨(s.way.length, n), ?_, ha⟩
      rw [walk_eq_map_visits]
      exact List.mem_map.mpr ⟨(s, n), hmem, rfl⟩
    · rintro ⟨v, hv, ha⟩
      rw [walk_eq_map_visits] at hv
      obtain ⟨⟨s, n⟩, hmem, rfl⟩ := List.mem_map.mp hv
      exact ⟨_, (resolve_eq_ok_iff_visits h hfits).mpr ⟨s, n, hmem, ha, rfl⟩⟩
  · have hmem : (s, n) ∈ t.visits := List.mem_of_getElem? hk
    refine ⟨(resolve_eq_ok_iff_visits h hfits).mpr ⟨s, n, hmem, ha, rfl⟩, mem_visits.mp hmem, ?_⟩
    rw [walk_eq_map_visits, List.getElem?_map, hk, Option.map_some, ← ha,
      depth_of_mem_visits h hfits hmem, Nat.add_sub_cancel]
  · rw [walk_eq_map_visits, List.length_map]

/-- The last text of a conditional with two of its branches filled is found by its
address, and a zero in front of a position is another address. -/
theorem resolve_inverse_nested :
    let t := Template.ofContents [.text "a", .conditional [] [.text "b", .text "c"] []]
    let n := Node.text ⟨"/1-if-then/1-text"⟩ (.of "c") "c"
    t.walk.length ≤ indexBound ∧
      Node.resolve t.nodes n.address =
        .ok ⟨n, (⟨[(1, .consequent)], 1⟩ : Site).siblings t.nodes, 1⟩ ∧
      ¬ ∃ r, Node.resolve t.nodes ⟨"/01-if-then/1-text"⟩ = .ok r := by
  intro t n
  have hlength : t.walk.length ≤ indexBound := by decide +kernel
  obtain ⟨hiff, hfound, -⟩ := resolve_inverse (.ofContents _) (fits_of_length_walk hlength)
  refine ⟨hlength, (hfound _ 4 ⟨[(1, .consequent)], 1⟩ n ?_ rfl).1, ?_⟩
  · decide +kernel
  · rw [hiff]
    decide +kernel

end Template

end MessageTemplate
