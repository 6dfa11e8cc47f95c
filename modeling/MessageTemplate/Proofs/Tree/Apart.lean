/-
Changes in different parts of a tree.

Exchanging the forest at the end of a way leaves alone whatever is reached by a way that parts from
it (`Way.Apart`): the two have some conditionals in common, and then they go on at another position
or by another branch.  Up to the parting nothing but a branch of a conditional changes, and whoever
goes the other way looks at the length of the forests there, at the kinds of their nodes and at
other branches.  So two such exchanges can be made in either order (`exchange_comm`), and an address
that leads the other way is resolved as before, or refused with the same words
(`siteOf_exchange_of_apart`).

Computing the whole tree anew after an exchange does not spoil this.  In a well-formed tree only the
exchanged forest is not as it would be computed, so computing it alone comes to the same
(`WellFormed.refresh_exchange`).
-/
import MessageTemplate.Proofs.Tree.Sites

set_option autoImplicit false

namespace MessageTemplate

/-! ## Ways that part -/

namespace Way

/-- At some step that both `Way`s have, they differ.  A way does not part from one that only goes on
where it ends. -/
def Apart : Way → Way → Prop
  | step :: rest, step' :: rest' => step ≠ step' ∨ Apart rest rest'
  | _, _ => False

theorem Apart.symm {way : Way} : ∀ {way' : Way}, Apart way way' → Apart way' way := by
  induction way with
  | nil => exact fun h => h.elim
  | cons step rest ih =>
    intro way' h
    cases way' with
    | nil => exact h.elim
    | cons step' rest' => exact h.imp Ne.symm ih

/-- Ways that differ in a step at some depth are `Apart`, there or before. -/
theorem apart_of_getElem? {step step' : Nat × Branch} (hne : step ≠ step') (depth : Nat) :
    ∀ {way way' : Way}, way[depth]? = some step → way'[depth]? = some step' →
      Apart way way' := by
  induction depth with
  | zero =>
    intro way way' h h'
    obtain ⟨rest, rfl⟩ := List.head?_eq_some_iff.mp (List.head?_eq_getElem? ▸ h)
    obtain ⟨rest', rfl⟩ := List.head?_eq_some_iff.mp (List.head?_eq_getElem? ▸ h')
    exact .inl hne
  | succ depth ih =>
    intro way way' h h'
    cases way with
    | nil => exact absurd h nofun
    | cons first rest =>
      cases way' with
      | nil => exact absurd h' nofun
      | cons first' rest' => exact .inr (ih h h')

end Way

/-- The paths to the forests that own the nodes at two addresses part: at some depth that both have,
they differ in the position or in the branch. -/
def Address.Parted (a b : Address) : Prop :=
  ∃ p q, a.segments = .ok p ∧ b.segments = .ok q ∧
    ∃ (depth : Nat) (s s' : Segment),
      p.dropLast[depth]? = some s ∧ q.dropLast[depth]? = some s' ∧
        (s.index ≠ s'.index ∨ s.branch ≠ s'.branch)

/-- `Parted` addresses are those of sites whose ways are `Apart`. -/
theorem Address.Parted.sites {a b : Address} (h : a.Parted b) :
    ∃ (s s' : Site) (k k' : Kind), (s.Bounded ∧ a = s.address k) ∧
      (s'.Bounded ∧ b = s'.address k') ∧ Way.Apart s.way s'.way := by
  obtain ⟨p, q, hp, hq, depth, seg, seg', hseg, hseg', hne⟩ := h
  obtain ⟨s, k, hs, rfl, rfl⟩ := Site.of_segments_eq_ok hp
  obtain ⟨s', k', hs', rfl, rfl⟩ := Site.of_segments_eq_ok hq
  rw [Site.segments, List.dropLast_concat, List.getElem?_map] at hseg hseg'
  obtain ⟨step, hstep, rfl⟩ := Option.map_eq_some_iff.mp hseg
  obtain ⟨step', hstep', rfl⟩ := Option.map_eq_some_iff.mp hseg'
  refine ⟨s, s', k, k', ⟨hs, rfl⟩, ⟨hs', rfl⟩,
    Way.apart_of_getElem? ?_ depth hstep hstep'⟩
  rintro rfl
  exact hne.elim (fun h => h rfl) fun h => h rfl

namespace Node

/-! ## Branches -/

theorem kind_setBranch (n : Node) (b : Branch) (forest : List Node) :
    (n.setBranch b forest).kind = n.kind := by
  cases n with
  | text a f s => rfl
  | conditional a c t e => cases b <;> rfl

theorem setBranch_branch (n : Node) (b : Branch) : n.setBranch b (n.branch b) = n := by
  cases n with
  | text a f s => rfl
  | conditional a c t e => cases b <;> rfl

/-- Of two exchanges of one branch by `setBranch` only the second shows. -/
theorem setBranch_setBranch (n : Node) (b : Branch) (forest forest' : List Node) :
    (n.setBranch b forest).setBranch b forest' = n.setBranch b forest' := by
  cases n with
  | text a f s => rfl
  | conditional a c t e => cases b <;> rfl

theorem branch_setBranch_of_ne {b b' : Branch} (h : b ≠ b') (n : Node) (forest : List Node) :
    (n.setBranch b forest).branch b' = n.branch b' := by
  cases n with
  | text a f s => rfl
  | conditional a c t e =>
    cases b <;> cases b' <;> first | rfl | exact absurd rfl h

/-- Two different branches can be exchanged by `setBranch` in either order. -/
theorem setBranch_comm {b b' : Branch} (h : b ≠ b') (n : Node) (forest forest' : List Node) :
    (n.setBranch b forest).setBranch b' forest' = (n.setBranch b' forest').setBranch b forest := by
  cases n with
  | text a f s => rfl
  | conditional a c t e =>
    cases b <;> cases b' <;> first | rfl | exact absurd rfl h

theorem branch_setBranch_of_nil (n : Node) (b : Branch) {forest : List Node}
    (h : n.branch b = [] → forest = []) : (n.setBranch b forest).branch b = forest := by
  cases n with
  | text a f s => exact (h rfl).symm
  | conditional a c t e => cases b <;> rfl

/-! ## One exchange -/

variable (f g : List Node → List Node)

/-- In an empty forest no way leads anywhere, so `exchange` changes nothing. -/
theorem exchange_nil_cons (step : Nat × Branch) (rest : Way) :
    exchange f [] (step :: rest) = [] := by
  rw [exchange, List.modify_nil]

theorem exchange_id (way : Way) : ∀ forest : List Node, exchange id forest way = forest := by
  induction way with
  | nil => exact fun _ => rfl
  | cons step rest ih =>
    intro forest
    rw [exchange]
    simp only [ih, setBranch_branch]
    exact List.modify_id step.1 forest

/-! ## What is found another way -/

section

variable {f g} {rest rest' : Way}

/-- Below a step that two ways share, both go on, so there is a forest to `exchange`. -/
theorem branch_setBranch_exchange (h : Way.Apart rest rest') (n : Node) (b : Branch) :
    (n.setBranch b (exchange f (n.branch b) rest)).branch b = exchange f (n.branch b) rest := by
  refine branch_setBranch_of_nil n b fun hnil => ?_
  cases rest with
  | nil => exact h.elim
  | cons step rest => rw [hnil, exchange_nil_cons]

/-- An `exchange` does not show at the end of a way that is `Apart` from its own.  The induction
goes along both ways up to where they part. -/
theorem forestAt_exchange_of_apart {way : Way} : ∀ {way' : Way}, Way.Apart way way' →
    ∀ forest : List Node, forestAt (exchange f forest way) way' = forestAt forest way' := by
  induction way with
  | nil => exact fun h => h.elim
  | cons step rest ih =>
    intro way' h forest
    cases way' with
    | nil => exact h.elim
    | cons step' rest' =>
      obtain ⟨i, b⟩ := step
      obtain ⟨j, c⟩ := step'
      rw [exchange, forestAt, forestAt]
      by_cases hij : i = j
      · subst hij
        rw [List.getElem?_modify_eq]
        cases forest[i]? with
        | none => rfl
        | some n =>
          show forestAt ((n.setBranch b _).branch c) rest' = forestAt (n.branch c) rest'
          by_cases hbc : b = c
          · subst hbc
            have hrest : Way.Apart rest rest' := h.resolve_left fun hne => hne rfl
            rw [branch_setBranch_exchange hrest, ih hrest]
          · rw [branch_setBranch_of_ne hbc]
      · rw [List.getElem?_modify_ne _ _ hij]

/-- Two exchanges at the ends of ways that are `Apart` can be made in either order. -/
theorem exchange_comm {way : Way} : ∀ {way' : Way}, Way.Apart way way' →
    ∀ forest : List Node,
      exchange f (exchange g forest way') way = exchange g (exchange f forest way) way' := by
  induction way with
  | nil => exact fun h => h.elim
  | cons step rest ih =>
    intro way' h forest
    cases way' with
    | nil => exact h.elim
    | cons step' rest' =>
      obtain ⟨i, b⟩ := step
      obtain ⟨j, c⟩ := step'
      simp only [exchange]
      by_cases hij : i = j
      · subst hij
        rw [List.modify_modify_eq, List.modify_modify_eq]
        congr 1
        funext n
        simp only [Function.comp_apply]
        by_cases hbc : b = c
        · subst hbc
          have hrest : Way.Apart rest rest' := h.resolve_left fun hne => hne rfl
          rw [branch_setBranch_exchange hrest.symm, branch_setBranch_exchange hrest,
            setBranch_setBranch, setBranch_setBranch, ih hrest]
        · rw [branch_setBranch_of_ne hbc, branch_setBranch_of_ne (Ne.symm hbc), setBranch_comm hbc]
      · exact List.modify_modify_ne _ _ forest (Ne.symm hij)

end

/-! ## Addresses that lead another way -/

/-- A change of one node that keeps its kind shows only to who looks that node up (`lookUp`). -/
theorem lookUp_modify {h : Node → Node} (hh : ∀ n, (h n).kind = n.kind) (s : Segment)
    (path : Address) (forest : List Node) (i : Nat) :
    s.lookUp path (forest.modify i h) =
      (s.lookUp path forest).map fun n => if i = s.index then h n else n := by
  rw [Segment.lookUp, Segment.lookUp, List.getElem?_modify, List.length_modify]
  cases forest[s.index]? with
  | none => rfl
  | some n =>
    have hkind : (if i = s.index then h n else n).kind = n.kind := by
      split
      case isTrue => exact hh n
      case isFalse => rfl
    show (if (if i = s.index then h n else n).kind = s.kind then _ else _) =
      Except.map _ (if n.kind = s.kind then _ else _)
    rw [hkind]
    by_cases hk : n.kind = s.kind
    · rw [if_pos hk, if_pos hk]
      rfl
    · rw [if_neg hk, if_neg hk]
      rfl

/-- `followToSite` goes into a branch by the first segment of a site and goes on from there. -/
theorem followToSite_cons (a path : Address) (forest : List Node) (step : Nat × Branch)
    (way : Way) (index : Nat) (k : Kind) :
    followToSite a path forest (Site.segments ⟨step :: way, index⟩ k) =
      ((⟨step.1, .conditional, some step.2⟩ : Segment).lookUp path forest).bind fun n =>
        (followToSite a ((path.child step.1 .conditional).branch step.2) (n.branch step.2)
          (Site.segments ⟨way, index⟩ k)).map fun v => (v.1.below step, v.2) := by
  obtain ⟨next, more, hnext⟩ :=
    List.exists_cons_of_ne_nil (Site.segments_ne_nil ⟨way, index⟩ k)
  rw [Site.segments_cons, hnext, followToSite]
  cases Segment.lookUp ⟨step.1, .conditional, some step.2⟩ path forest with
  | error e => rfl
  | ok n =>
    show (followToSite a _ _ (next :: more) >>= _) =
      Except.map _ (followToSite a _ _ (next :: more))
    cases followToSite a ((path.child step.1 .conditional).branch step.2) (n.branch step.2)
      (next :: more) with
    | error e => rfl
    | ok v => rfl

/-- `followToSite` comes to the same when something is exchanged at a way that is `Apart`, whether a
node is found or not. -/
theorem followToSite_exchange_of_apart (a : Address) (index : Nat) (k : Kind) {way : Way} :
    ∀ {way' : Way}, Way.Apart way way' → ∀ (path : Address) (forest : List Node),
      followToSite a path (exchange f forest way) (Site.segments ⟨way', index⟩ k) =
        followToSite a path forest (Site.segments ⟨way', index⟩ k) := by
  induction way with
  | nil => exact fun h => h.elim
  | cons step rest ih =>
    intro way' h path forest
    cases way' with
    | nil => exact h.elim
    | cons step' rest' =>
      obtain ⟨i, b⟩ := step
      obtain ⟨j, c⟩ := step'
      rw [followToSite_cons, followToSite_cons, exchange,
        lookUp_modify fun n => n.kind_setBranch b _]
      cases Segment.lookUp ⟨j, .conditional, some c⟩ path forest with
      | error e => rfl
      | ok n =>
        show Except.map _ (followToSite a _ ((if i = j then _ else n).branch c) _) =
          Except.map _ (followToSite a _ (n.branch c) _)
        by_cases hij : i = j
        · subst hij
          rw [if_pos rfl]
          by_cases hbc : b = c
          · subst hbc
            have hrest : Way.Apart rest rest' := h.resolve_left fun hne => hne rfl
            rw [branch_setBranch_exchange hrest, ih hrest]
          · rw [branch_setBranch_of_ne hbc]
        · rw [if_neg hij]

/-- `siteOf` comes to the same for the address of a site when something is exchanged at a way that
is `Apart`, and if it is refused, for the same reason. -/
theorem siteOf_exchange_of_apart {s : Site} (hs : s.Bounded) (k : Kind) {way : Way}
    (h : Way.Apart way s.way) (forest : List Node) :
    siteOf (exchange f forest way) (s.address k) = siteOf forest (s.address k) := by
  rw [siteOf, siteOf, Site.segments_address hs]
  exact followToSite_exchange_of_apart f (s.address k) s.index k h .root forest

/-! ## Computing anew after an exchange -/

theorem refresh_eq_self {path : Address} {index : Nat} {n : Node} (h : Placed path index n) :
    n.refresh path index = n := by
  rw [refresh_eq_place, place_content path index n h]

/-- `refreshForest` changes nothing of a `WellFormed` forest. -/
theorem refreshForest_eq_self {path : Address} {forest : List Node} (h : WellFormed path forest) :
    refreshForest path forest = forest := by
  rw [refreshForest_eq_placeForest, placeForest_contents path forest h]

/-- When one branch of a `Placed` node has been exchanged, only this one has to be computed anew. -/
theorem refresh_setBranch {path : Address} {index : Nat} {n : Node} (h : Placed path index n)
    (b : Branch) (forest : List Node) :
    (n.setBranch b forest).refresh path index =
      n.setBranch b (refreshForest ((path.child index .conditional).branch b) forest) := by
  cases n with
  | text a f s => exact refresh_eq_self h
  | conditional a c t e =>
    rw [Placed] at h
    obtain ⟨rfl, hc, ht, he⟩ := h
    cases b with
    | condition =>
      simp only [setBranch, refresh]
      rw [refreshForest_eq_self ht, refreshForest_eq_self he]
    | consequent =>
      simp only [setBranch, refresh]
      rw [refreshForest_eq_self hc, refreshForest_eq_self he]
    | alternative =>
      simp only [setBranch, refresh]
      rw [refreshForest_eq_self hc, refreshForest_eq_self ht]

/-- When one node of a `WellFormed` forest has been changed, only this one has to be computed
anew. -/
theorem getElem?_refreshForest_modify {path : Address} {forest : List Node}
    (h : WellFormed path forest) (i : Nat) (m : Node → Node) (j : Nat) :
    (refreshForest path (forest.modify i m))[j]? =
      forest[j]?.map fun n => if i = j then (m n).refresh path j else n := by
  have hall := ((wellFormed_iff path forest).mp h).2
  cases hn : forest[j]? with
  | some n =>
    have hmodified : (forest.modify i m)[j]? = some (if i = j then m n else n) := by
      rw [List.getElem?_modify, hn]
      rfl
    rw [getElem?_refreshForest hmodified]
    show some (Node.refresh path j (if i = j then m n else n)) = some _
    split
    case isTrue => rfl
    case isFalse => rw [refresh_eq_self (hall j n hn)]
  | none =>
    -- The forest is not empty, so `refreshForest` does not fill it.
    have hfrom :
        refreshForest path (forest.modify i m) = refreshFrom path 0 (forest.modify i m) := by
      cases hmodified : forest.modify i m with
      | nil =>
        rw [List.modify_eq_nil_iff] at hmodified
        exact absurd hmodified ((wellFormed_iff path forest).mp h).1
      | cons first rest => rw [refreshForest, refreshFrom]
    rw [hfrom, getElem?_refreshFrom, List.getElem?_modify, hn]
    rfl

/-- In a `WellFormed` forest only what `exchange` has put in the place of another forest has to be
computed anew. -/
theorem refreshForest_exchange (way : Way) : ∀ (path : Address) (forest : List Node),
    WellFormed path forest →
      refreshForest path (exchange f forest way) =
        exchange (fun owner => refreshForest (path.along way) (f owner)) forest way := by
  induction way with
  | nil => exact fun _ _ _ => rfl
  | cons step rest ih =>
    intro path forest h
    obtain ⟨i, b⟩ := step
    rw [exchange, exchange]
    refine List.ext_getElem? fun j => ?_
    rw [getElem?_refreshForest_modify h, List.getElem?_modify]
    cases hn : forest[j]? with
    | none => rfl
    | some n =>
      show some (if i = j then _ else n) = some (if i = j then _ else n)
      by_cases hij : i = j
      · subst hij
        have hplaced := ((wellFormed_iff path forest).mp h).2 i n hn
        rw [if_pos rfl, if_pos rfl, refresh_setBranch hplaced]
        cases hk : n.kind with
        | conditional => rw [ih _ _ (hplaced.branch hk b), Address.along]
        | text =>
          cases n with
          | text a f s => rfl
          | conditional a c t e => cases hk
      · rw [if_neg hij, if_neg hij]

end Node

namespace Template

/-- In a well-formed template after an `exchange`, `refresh` has only the new forest to compute
anew. -/
theorem WellFormed.refresh_exchange {t : Template} (h : t.WellFormed)
    (f : List Node → List Node) (way : Way) :
    refresh ⟨Node.exchange f t.nodes way⟩ =
      ⟨Node.exchange (fun owner => Node.refreshForest (Address.root.along way) (f owner))
        t.nodes way⟩ := by
  rw [refresh, Node.refreshForest_exchange f way .root t.nodes h]

end Template

end MessageTemplate
