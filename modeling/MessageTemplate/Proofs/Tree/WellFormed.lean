/-
Where well-formed trees come from, and what keeps them well formed.

Building the working form of any stored forest gives a well-formed one (`placeForest_wellFormed`),
and so does computing the derived fields of any working forest anew: the two are the same function
of the content (`refreshForest_eq_placeForest`).  On a well-formed forest that function does
nothing, so such a forest is determined by its content.

The other way to change a tree is to exchange the forest at the end of a way.  This does not compute
anything anew.  It keeps a tree well formed because the forests around the exchanged one keep their
length, and with it every address outside keeps its meaning (`WellFormed.exchange`).

The three functions that build a tree call each other, for a node, a forest and the rest of a
forest, and so do the proofs about them.
-/
import MessageTemplate.Tree.Addressing
import MessageTemplate.Tree.Resolve

set_option autoImplicit false

namespace MessageTemplate

/-! ## Building -/

namespace Content

mutual

/-- By `place` a node is built where it is to stand (`Placed`), with its branches built below its
own address. -/
theorem place_placed (path : Address) (index : Nat) :
    ∀ c : Content, Node.Placed path index (c.place path index)
  | .text s => by
    rw [place, Node.Placed]
    exact ⟨rfl, rfl⟩
  | .conditional c t e => by
    rw [place, Node.Placed]
    exact ⟨rfl, placeForest_wellFormed _ c, placeForest_wellFormed _ t,
      placeForest_wellFormed _ e⟩

/-- Every stored forest has a working form that is `WellFormed`: an empty one is filled by
`placeForest`. -/
theorem placeForest_wellFormed (path : Address) :
    ∀ forest : List Content, Node.WellFormed path (placeForest path forest)
  | [] => by
    rw [placeForest, Node.WellFormed, Node.Placed, Node.PlacedFrom]
    exact ⟨⟨rfl, rfl⟩, trivial⟩
  | n :: rest => by
    rw [placeForest, Node.WellFormed]
    exact ⟨place_placed path 0 n, placeFrom_placed path 1 rest⟩

theorem placeFrom_placed (path : Address) (index : Nat) :
    ∀ forest : List Content, Node.PlacedFrom path index (placeFrom path index forest)
  | [] => by
    rw [placeFrom, Node.PlacedFrom]
    trivial
  | n :: rest => by
    rw [placeFrom, Node.PlacedFrom]
    exact ⟨place_placed path index n, placeFrom_placed path (index + 1) rest⟩

end

end Content

namespace Node

/-! ## Computing anew -/

mutual

/-- `refresh` of a node is `place` of its `content`. -/
theorem refresh_eq_place (path : Address) (index : Nat) :
    ∀ n : Node, n.refresh path index = n.content.place path index
  | .text _ _ s => by rw [refresh, content, Content.place]
  | .conditional _ c t e => by
    rw [refresh, content, Content.place, refreshForest_eq_placeForest _ c,
      refreshForest_eq_placeForest _ t, refreshForest_eq_placeForest _ e]

/-- `refreshForest` is `placeForest` of the `contents`, so nothing of what was derived before has
any influence. -/
theorem refreshForest_eq_placeForest (path : Address) :
    ∀ forest : List Node, refreshForest path forest = Content.placeForest path (contents forest)
  | [] => by rw [refreshForest, contents, Content.placeForest]
  | n :: rest => by
    rw [refreshForest, contents, Content.placeForest, refresh_eq_place path 0 n,
      refreshFrom_eq_placeFrom path 1 rest]

theorem refreshFrom_eq_placeFrom (path : Address) (index : Nat) :
    ∀ forest : List Node,
      refreshFrom path index forest = Content.placeFrom path index (contents forest)
  | [] => by rw [refreshFrom, contents, Content.placeFrom]
  | n :: rest => by
    rw [refreshFrom, contents, Content.placeFrom, refresh_eq_place path index n,
      refreshFrom_eq_placeFrom path (index + 1) rest]

end

/-- Whatever a forest was before, it is `WellFormed` after `refreshForest`. -/
theorem refreshForest_wellFormed (path : Address) (forest : List Node) :
    WellFormed path (refreshForest path forest) := by
  rw [refreshForest_eq_placeForest]
  exact Content.placeForest_wellFormed path (contents forest)

mutual

/-- A node that is `Placed` is the one that `place` builds there from its content. -/
theorem place_content (path : Address) (index : Nat) :
    ∀ n : Node, Placed path index n → n.content.place path index = n
  | .text a f s, h => by
    rw [Placed] at h
    obtain ⟨rfl, rfl⟩ := h
    rw [content, Content.place]
  | .conditional a c t e, h => by
    rw [Placed] at h
    obtain ⟨rfl, hc, ht, he⟩ := h
    simp only [content, Content.place]
    rw [placeForest_contents _ c hc, placeForest_contents _ t ht, placeForest_contents _ e he]

/-- A `WellFormed` forest is the working form of its `contents`: this is where the derived fields
are seen to be determined. -/
theorem placeForest_contents (path : Address) :
    ∀ forest : List Node, WellFormed path forest →
      Content.placeForest path (contents forest) = forest
  | [], h => by
    rw [WellFormed] at h
    exact h.elim
  | n :: rest, h => by
    rw [WellFormed] at h
    rw [contents, Content.placeForest, place_content path 0 n h.1,
      placeFrom_contents path 1 rest h.2]

theorem placeFrom_contents (path : Address) (index : Nat) :
    ∀ forest : List Node, PlacedFrom path index forest →
      Content.placeFrom path index (contents forest) = forest
  | [], _ => by rw [contents, Content.placeFrom]
  | n :: rest, h => by
    rw [PlacedFrom] at h
    rw [contents, Content.placeFrom, place_content path index n h.1,
      placeFrom_contents path (index + 1) rest h.2]

end

/-! ## Node by node

The definitions go along a forest from its front.  What is said of a tree is
mostly said of a position in it, so here they are in these words. -/

/-- `PlacedFrom` without the recursion: each node is `Placed` at its own position. -/
theorem placedFrom_iff (path : Address) (forest : List Node) : ∀ index : Nat,
    PlacedFrom path index forest ↔ ∀ i n, forest[i]? = some n → Placed path (index + i) n := by
  induction forest with
  | nil =>
    intro index
    rw [PlacedFrom]
    exact ⟨fun _ i n h => by simp at h, fun _ => trivial⟩
  | cons first rest ih =>
    intro index
    rw [PlacedFrom, ih (index + 1)]
    constructor
    · rintro ⟨hfirst, hrest⟩ i n h
      cases i with
      | zero =>
        rw [List.getElem?_cons_zero, Option.some.injEq] at h
        rw [← h, Nat.add_zero]
        exact hfirst
      | succ i =>
        rw [List.getElem?_cons_succ] at h
        rw [← Nat.add_assoc, Nat.add_right_comm]
        exact hrest i n h
    · intro h
      refine ⟨h 0 first rfl, fun i n hi => ?_⟩
      rw [Nat.add_right_comm, Nat.add_assoc]
      exact h (i + 1) n hi

/-- `WellFormed` without the recursion: the forest is not empty, and each node is `Placed` at its
position. -/
theorem wellFormed_iff (path : Address) (forest : List Node) :
    WellFormed path forest ↔
      forest ≠ [] ∧ ∀ i n, forest[i]? = some n → Placed path i n := by
  have hall : forest ≠ [] → (WellFormed path forest ↔ PlacedFrom path 0 forest) := by
    intro hne
    cases forest with
    | nil => exact absurd rfl hne
    | cons first rest => rw [WellFormed, PlacedFrom]
  constructor
  · intro h
    have hne : forest ≠ [] := by
      rintro rfl
      rw [WellFormed] at h
      exact h
    refine ⟨hne, fun i n hi => ?_⟩
    have hi' := (placedFrom_iff path forest 0).mp ((hall hne).mp h) i n hi
    rwa [Nat.zero_add] at hi'
  · rintro ⟨hne, h⟩
    rw [hall hne, placedFrom_iff]
    intro i n hi
    rw [Nat.zero_add]
    exact h i n hi

/-- A `Placed` node has the address of its position, by its kind. -/
theorem Placed.address {path : Address} {index : Nat} {n : Node} (h : Placed path index n) :
    n.address = path.child index n.kind := by
  cases n with
  | text a f s =>
    rw [Placed] at h
    exact h.1
  | conditional a c t e =>
    rw [Placed] at h
    exact h.1

/-- The branches of a `Placed` conditional are `WellFormed` at the paths into it. -/
theorem Placed.branch {path : Address} {index : Nat} {n : Node} (h : Placed path index n)
    (hk : n.kind = .conditional) (b : Branch) :
    WellFormed ((path.child index .conditional).branch b) (n.branch b) := by
  cases n with
  | text a f s => exact absurd hk nofun
  | conditional a c t e =>
    rw [Placed] at h
    obtain ⟨rfl, hc, ht, he⟩ := h
    cases b with
    | condition => exact hc
    | consequent => exact ht
    | alternative => exact he

/-- A `Placed` node stays placed under `setBranch`, when one of its branches is exchanged for a
forest that is well formed there.  A text has no branches, so nothing is asked of the forest. -/
theorem Placed.setBranch {path : Address} {index : Nat} {n : Node} (h : Placed path index n)
    (b : Branch) {forest : List Node}
    (hf : n.kind = .conditional → WellFormed ((path.child index .conditional).branch b) forest) :
    Placed path index (n.setBranch b forest) := by
  cases n with
  | text a f s => exact h
  | conditional a c t e =>
    rw [Placed] at h
    obtain ⟨rfl, hc, ht, he⟩ := h
    have hnew := hf rfl
    cases b with
    | condition =>
      rw [Node.setBranch, Node.Placed]
      exact ⟨rfl, hnew, ht, he⟩
    | consequent =>
      rw [Node.setBranch, Node.Placed]
      exact ⟨rfl, hc, hnew, he⟩
    | alternative =>
      rw [Node.setBranch, Node.Placed]
      exact ⟨rfl, hc, ht, hnew⟩

/-! ## Exchanging -/

/-- Changing one node of a forest with `List.modify` keeps it well formed if the node stays
`Placed`, since no other node moves. -/
theorem WellFormed.modify {path : Address} {forest : List Node} (h : WellFormed path forest)
    (index : Nat) {f : Node → Node} (hf : ∀ n, Placed path index n → Placed path index (f n)) :
    WellFormed path (forest.modify index f) := by
  rw [wellFormed_iff] at h ⊢
  obtain ⟨hne, hall⟩ := h
  refine ⟨?_, fun i n hi => ?_⟩
  · rw [ne_eq, ← List.length_eq_zero_iff, List.length_modify, List.length_eq_zero_iff]
    exact hne
  · rw [List.getElem?_modify] at hi
    obtain ⟨m, hm, rfl⟩ := Option.map_eq_some_iff.mp hi
    by_cases hidx : index = i
    · subst hidx
      rw [if_pos rfl]
      exact hf m (hall index m hm)
    · rw [if_neg hidx]
      exact hall i m hm

/-- `exchange` of the forest at the end of a way keeps a tree well formed if the exchange does so
for every forest.  The induction is on the way: each step of it changes one node, and that node
keeps its own address. -/
theorem WellFormed.exchange {f : List Node → List Node}
    (hf : ∀ path forest, WellFormed path forest → WellFormed path (f forest)) (way : Way) :
    ∀ (path : Address) (forest : List Node), WellFormed path forest →
      WellFormed path (Node.exchange f forest way) := by
  induction way with
  | nil =>
    intro path forest h
    rw [Node.exchange]
    exact hf path forest h
  | cons step rest ih =>
    intro path forest h
    obtain ⟨index, b⟩ := step
    rw [Node.exchange]
    refine h.modify index fun n hn => ?_
    exact hn.setBranch b fun hk => ih _ _ (hn.branch hk b)

end Node

/-! ## Templates -/

namespace Template

theorem ofContents_wellFormed (forest : List Content) : (ofContents forest).WellFormed :=
  Content.placeForest_wellFormed .root forest

/-- A template is well formed after `refresh`, whatever it was before. -/
theorem refresh_wellFormed (t : Template) : t.refresh.WellFormed :=
  Node.refreshForest_wellFormed .root t.nodes

/-- A well-formed template is the template of its stored form: `ofContents` of its `contents`. -/
theorem ofContents_contents {t : Template} (h : t.WellFormed) : ofContents t.contents = t := by
  rw [ofContents, contents, Node.placeForest_contents .root t.nodes h]

end Template

end MessageTemplate
