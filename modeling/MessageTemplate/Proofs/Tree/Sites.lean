/-
Places in a tree, and what becomes of them when the tree is changed.

Who edits a tree asks for the place of a node instead of the node, and gets it in the same way: the
place at an address is the site with that address, if a node of the kind that the address names
stands there (`siteOf_eq_ok`).

An edit exchanges the forest at the end of a way, and then may compute every derived field anew.  At
the end of the way there is then what was put there (`forestAt_exchange`), and computing anew leaves
every node at its site, with its kind and its text (`getElem?_forestAt_refreshForest`).
-/
import MessageTemplate.Proofs.Tree.Locating

set_option autoImplicit false

namespace MessageTemplate

/-! ## Addresses next to an address -/

namespace Address

/-- `parent`, the path of a node's forest, is all before its last slash, since the last segment has
no slash but its own (`Segment.slash_not_mem_body`). -/
theorem parent_child (a : Address) (index : Nat) (k : Kind) : (a.child index k).parent = a := by
  have htext : (a.child index k).text.toList.reverse =
      (Segment.mk index k none).body.reverse ++ '/' :: a.text.toList.reverse := by
    rw [child, String.toList_append, Segment.toList_text, List.reverse_append, List.reverse_cons,
      List.append_assoc, List.singleton_append]
  have hbody : ∀ c ∈ (Segment.mk index k none).body.reverse, decide (c ≠ '/') = true := by
    intro c hc
    rw [decide_eq_true_eq]
    rintro rfl
    exact Segment.slash_not_mem_body _ (List.mem_reverse.mp hc)
  rw [parent, htext, List.dropWhile_append_of_pos hbody,
    List.dropWhile_cons_of_neg (by decide), List.tail_cons, List.reverse_reverse,
    String.ofList_toList]

/-- The path `along` two ways is the path along the second, from where the first ends.  The
induction is on the first. -/
theorem along_append (way way' : Way) : ∀ a : Address,
    a.along (way ++ way') = (a.along way).along way' := by
  induction way with
  | nil => exact fun _ => rfl
  | cons step rest ih =>
    intro a
    rw [List.cons_append, along, along, ih]

end Address

namespace Site

/-- `sibling` gives the address of another `Site` in the same forest.  It is made from the text of
the address, by `parent` and `child`, without a look at the tree. -/
theorem sibling_address (s : Site) (k : Kind) (index : Nat) (k' : Kind) :
    (s.address k).sibling index k' = address ⟨s.way, index⟩ k' := by
  rw [Address.sibling, address, Address.parent_child, address]

/-- The address of a node in a branch of the conditional at this `Site` is the address of a site
whose way is one step longer. -/
theorem address_inside (s : Site) (b : Branch) (index : Nat) (k : Kind) :
    ((s.address .conditional).branch b).child index k =
      address ⟨s.way ++ [(s.index, b)], index⟩ k := by
  rw [address, address, Address.along_append]
  rfl

end Site

namespace Node

/-! ## The place at an address -/

/-- `followToSite` along the segments of a site leads to that site, if a node of the right kind
stands there.  The induction is on the way, for all forests: a step looks up a conditional and goes
on in the branch that its segment names. -/
theorem followToSite_eq_ok (a : Address) (index : Nat) (k : Kind) {found : Site × Node}
    (way : Way) : ∀ (path : Address) (forest : List Node),
      followToSite a path forest (Site.segments ⟨way, index⟩ k) = .ok found ↔
        ∃ n, (forestAt forest way)[index]? = some n ∧ n.kind = k ∧ found = (⟨way, index⟩, n) := by
  induction way generalizing found with
  | nil =>
    intro path forest
    rw [Site.segments, List.map_nil, List.nil_append, followToSite, Outcome.bind_eq_ok, forestAt]
    constructor
    · rintro ⟨n, hn, hfound⟩
      obtain ⟨hn, hk⟩ := lookUp_eq_ok.mp hn
      exact ⟨n, hn, hk, (Except.ok.inj hfound).symm⟩
    · rintro ⟨n, hn, hk, rfl⟩
      exact ⟨n, lookUp_eq_ok.mpr ⟨hn, hk⟩, rfl⟩
  | cons step rest ih =>
    intro path forest
    obtain ⟨next, more, hnext⟩ :=
      List.exists_cons_of_ne_nil (Site.segments_ne_nil ⟨rest, index⟩ k)
    rw [hnext] at ih
    rw [Site.segments_cons, hnext, followToSite, Outcome.bind_eq_ok]
    -- The segment of the step always has a branch, so the step goes on.
    have hdescent : Segment.descent ⟨step.1, .conditional, some step.2⟩ a = .ok step.2 := rfl
    constructor
    · rintro ⟨m, hm, hfollow⟩
      obtain ⟨hm, -⟩ := lookUp_eq_ok.mp hm
      obtain ⟨b, hb, hfollow⟩ := Outcome.bind_eq_ok.mp hfollow
      obtain rfl : step.2 = b := Except.ok.inj (hdescent.symm.trans hb)
      obtain ⟨⟨site, n⟩, hinner, hfound⟩ := Outcome.bind_eq_ok.mp hfollow
      obtain ⟨n', hn, hk, heq⟩ := (ih _ _).mp hinner
      obtain ⟨rfl, rfl⟩ := Prod.mk.inj heq
      rw [forestAt, hm]
      exact ⟨n, hn, hk, (Except.ok.inj hfound).symm⟩
    · rintro ⟨n, hn, hk, rfl⟩
      obtain ⟨m, hm, hkind, hn⟩ := step_of_getElem?_forestAt hn
      refine ⟨m, lookUp_eq_ok.mpr ⟨hm, hkind⟩, ?_⟩
      refine Outcome.bind_eq_ok.mpr ⟨step.2, hdescent, ?_⟩
      exact Outcome.bind_eq_ok.mpr ⟨(⟨rest, index⟩, n), (ih _ _).mpr ⟨n, hn, hk, rfl⟩, rfl⟩

/-- The place that `siteOf` finds for an address in any forest, well formed or not.  The addresses
that nodes carry do not enter, as only the segments and the kinds on the way are looked at. -/
theorem siteOf_eq_ok {forest : List Node} {a : Address} {s : Site} {n : Node} :
    siteOf forest a = .ok (s, n) ↔
      s.Bounded ∧ (s.siblings forest)[s.index]? = some n ∧ a = s.address n.kind := by
  rw [siteOf, Outcome.bind_eq_ok]
  constructor
  · rintro ⟨path, hpath, hfollow⟩
    obtain ⟨s', k, hbounded, ha, rfl⟩ := Site.of_segments_eq_ok hpath
    obtain ⟨n', hn, rfl, heq⟩ :=
      (followToSite_eq_ok a s'.index k s'.way .root forest).mp hfollow
    obtain ⟨rfl, rfl⟩ := Prod.mk.inj heq
    exact ⟨hbounded, hn, ha⟩
  · rintro ⟨hbounded, hn, rfl⟩
    refine ⟨s.segments n.kind, Site.segments_address hbounded n.kind, ?_⟩
    exact (followToSite_eq_ok _ s.index n.kind s.way .root forest).mpr ⟨n, hn, rfl, rfl⟩

/-- `siteOf` finds a place exactly if `resolve` finds a node, and then to the same node.  So the two
ways of finding a node never disagree about one. -/
theorem exists_siteOf_iff {forest : List Node} {a : Address} {p : Node → Prop} :
    (∃ s n, siteOf forest a = .ok (s, n) ∧ p n) ↔ ∃ r, resolve forest a = .ok r ∧ p r.node := by
  constructor
  · rintro ⟨s, n, hsite, hp⟩
    obtain ⟨hbounded, hn, ha⟩ := siteOf_eq_ok.mp hsite
    exact ⟨⟨n, s.siblings forest, s.index⟩, resolve_eq_ok.mpr ⟨s, n, hbounded, hn, ha, rfl⟩, hp⟩
  · rintro ⟨r, hr, hp⟩
    obtain ⟨s, n, hbounded, hn, ha, rfl⟩ := resolve_eq_ok.mp hr
    exact ⟨s, n, siteOf_eq_ok.mpr ⟨hbounded, hn, ha⟩, hp⟩

/-! ## Exchanging the forest at the end of a way -/

/-- `forestAt` the end of two ways is found from the end of the first.  A way that leads nowhere has
the empty forest at its end, and so does every way that goes on from it. -/
theorem forestAt_append (way way' : Way) : ∀ forest : List Node,
    forestAt forest (way ++ way') = forestAt (forestAt forest way) way' := by
  induction way with
  | nil => exact fun _ => rfl
  | cons step rest ih =>
    intro forest
    rw [List.cons_append, forestAt, forestAt]
    cases forest[step.1]? with
    | none => exact (forestAt_nil way').symm
    | some n => exact ih (n.branch step.2)

/-- A branch of a conditional after `setBranch` is what it was exchanged for. -/
theorem branch_setBranch {n : Node} (hk : n.kind = .conditional) (b : Branch)
    (forest : List Node) : (n.setBranch b forest).branch b = forest := by
  cases n with
  | text a f s => exact absurd hk nofun
  | conditional a c t e => cases b <;> rfl

/-- What `exchange` puts at the end of a way is found there, if the way leads to a node.  Of a way
that leads nowhere `exchange` changes nothing. -/
theorem forestAt_exchange (f : List Node → List Node) {index : Nat} {n : Node} (way : Way) :
    ∀ {forest : List Node}, (forestAt forest way)[index]? = some n →
      forestAt (exchange f forest way) way = f (forestAt forest way) := by
  induction way with
  | nil => exact fun _ => rfl
  | cons step rest ih =>
    intro forest hn
    obtain ⟨m, hm, hkind, hn⟩ := step_of_getElem?_forestAt hn
    rw [exchange, forestAt, List.getElem?_modify_eq, hm, forestAt, hm, Option.map_eq_map,
      Option.map_some]
    dsimp only
    rw [branch_setBranch hkind, ih hn]

/-! ## Computing anew -/

/-- `refresh` does not touch the text of a node. -/
theorem text?_refresh (path : Address) (index : Nat) (n : Node) :
    (n.refresh path index).text? = n.text? := by
  cases n with
  | text a f s => rw [refresh]; rfl
  | conditional a c t e => rw [refresh]; rfl

/-- `refresh` of a conditional computes each branch anew, at the path into it. -/
theorem branch_refresh {n : Node} (hk : n.kind = .conditional) (path : Address) (index : Nat)
    (b : Branch) :
    (n.refresh path index).branch b =
      refreshForest ((path.child index .conditional).branch b) (n.branch b) := by
  cases n with
  | text a f s => exact absurd hk nofun
  | conditional a c t e =>
    rw [refresh]
    cases b <;> rfl

/-- Computing nodes anew leaves each at its position, which counts on from `start`. -/
theorem getElem?_refreshFrom (path : Address) (forest : List Node) : ∀ (start i : Nat),
    (refreshFrom path start forest)[i]? = forest[i]?.map fun n => n.refresh path (start + i) := by
  induction forest with
  | nil =>
    intro start i
    rw [refreshFrom, List.getElem?_nil, Option.map_none]
  | cons first rest ih =>
    intro start i
    rw [refreshFrom]
    cases i with
    | zero => rfl
    | succ i =>
      rw [List.getElem?_cons_succ, List.getElem?_cons_succ, ih, Nat.add_right_comm, Nat.add_assoc]

/-- `refreshForest` leaves each node at its position.  An empty forest is filled, but no node stood
there. -/
theorem getElem?_refreshForest {forest : List Node} {index : Nat} {n : Node}
    (hn : forest[index]? = some n) (path : Address) :
    (refreshForest path forest)[index]? = some (n.refresh path index) := by
  have hfrom : refreshForest path forest = refreshFrom path 0 forest := by
    cases forest with
    | nil => exact absurd hn nofun
    | cons first rest => rw [refreshForest, refreshFrom]
  rw [hfrom, getElem?_refreshFrom, hn, Option.map_some, Nat.zero_add]

/-- `refreshForest` leaves every node at its `Site`, however far below, and computes it anew for the
path `along` the way.  The induction is on the way, with `branch_refresh` for one step. -/
theorem getElem?_forestAt_refreshForest {index : Nat} {n : Node} (way : Way) :
    ∀ {forest : List Node} {path : Address}, (forestAt forest way)[index]? = some n →
      (forestAt (refreshForest path forest) way)[index]? =
        some (n.refresh (path.along way) index) := by
  induction way with
  | nil => exact fun hn => getElem?_refreshForest hn _
  | cons step rest ih =>
    intro forest path hn
    obtain ⟨m, hm, hkind, hn⟩ := step_of_getElem?_forestAt hn
    rw [forestAt, getElem?_refreshForest hm path]
    dsimp only
    rw [branch_refresh hkind]
    exact ih hn

end Node

end MessageTemplate
