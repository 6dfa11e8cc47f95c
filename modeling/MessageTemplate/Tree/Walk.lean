/-
The nodes of a tree in the order in which they are written, and the places where they stand.

In a walk a conditional comes before its branches, and these come in the order condition, then,
else.  `Template.walk` gives the nodes with their depth and `Template.texts` the texts among them.

Two nodes that look alike cannot be told apart in a walk.  `Template.visits` is the same walk with
every node given together with its `Site`: `walk_eq_map_visits` says that nothing but the depth is
forgotten between the two, `mem_visits` that the sites visited are all the positions of the tree,
and `nodup_visits` that no position is visited twice.
-/
import MessageTemplate.Tree.Node
import MessageTemplate.Tree.Resolve

set_option autoImplicit false

namespace MessageTemplate

/-! ## The walk -/

namespace Node

mutual

/-- A node and all nodes below it, each with the number of conditionals around it.  The conditional
comes first, and its branches in the order of `Branch.all`. -/
def walk (depth : Nat) : Node → List (Nat × Node)
  | .text a f s => [(depth, .text a f s)]
  | .conditional a c t e =>
    (depth, .conditional a c t e) ::
      (walkForest (depth + 1) c ++ walkForest (depth + 1) t ++ walkForest (depth + 1) e)

/-- The nodes of a forest and all nodes below them, in the order in which they are written, with
`depth` conditionals around the forest itself. -/
def walkForest (depth : Nat) : List Node → List (Nat × Node)
  | [] => []
  | n :: rest => walk depth n ++ walkForest depth rest

end

end Node

namespace Template

/-- `walkForest` from the top: every node of a template, each with the number of conditionals around
it; the top of the tree has depth 0. -/
def walk (t : Template) : List (Nat × Node) :=
  Node.walkForest 0 t.nodes

/-- The strings of the text nodes of a template, in the order in which they are written, those of
conditions and of hidden branches among them. -/
def texts (t : Template) : List String :=
  t.walk.filterMap fun (_, n) => n.text?

end Template

/-! ## The walk with sites -/

namespace Node

/-- Nodes found in a branch, seen from the forest that owns the conditional: their sites are one
step longer, by `Site.below`. -/
def within (step : Nat × Branch) (found : List (Site × Node)) : List (Site × Node) :=
  found.map fun v => (v.1.below step, v.2)

mutual

/-- The node at the position `index` of a forest and all nodes below it, each with its site in this
forest. -/
def visit (index : Nat) : Node → List (Site × Node)
  | .text a f s => [(⟨[], index⟩, .text a f s)]
  | .conditional a c t e =>
    (⟨[], index⟩, .conditional a c t e) ::
      (within (index, .condition) (visitFrom 0 c) ++
        within (index, .consequent) (visitFrom 0 t) ++
        within (index, .alternative) (visitFrom 0 e))

/-- The nodes of a forest from a position on and all nodes below them, as `visit` gives them; the
positions count on with the nodes. -/
def visitFrom (index : Nat) : List Node → List (Site × Node)
  | [] => []
  | n :: rest => visit index n ++ visitFrom (index + 1) rest

end

/-- Seen from one forest further up, what is found in a branch is one step deeper.  This is the step
of `walk_eq_map_visit` at a conditional. -/
theorem map_within (step : Nat × Branch) (depth : Nat) (found : List (Site × Node)) :
    (within step found).map (fun v => (depth + v.1.way.length, v.2)) =
      found.map fun v => (depth + 1 + v.1.way.length, v.2) := by
  rw [within, List.map_map]
  refine List.map_congr_left fun v _ => ?_
  rw [Function.comp_apply, Site.below, List.length_cons, Nat.add_right_comm, Nat.add_assoc]

mutual

/-- `walk` from a node is `visit` of it, with nothing kept of the `Site` of every node but its
depth.  The position at which the visit starts does not matter for this. -/
theorem walk_eq_map_visit (depth index : Nat) :
    ∀ n : Node, n.walk depth = (n.visit index).map fun v => (depth + v.1.way.length, v.2)
  | .text a f s => by
    rw [walk, visit, List.map_cons, List.map_nil, List.length_nil, Nat.add_zero]
  | .conditional a c t e => by
    rw [walk, visit, List.map_cons, List.map_append, List.map_append, map_within, map_within,
      map_within, ← walkForest_eq_map_visitFrom (depth + 1) 0 c,
      ← walkForest_eq_map_visitFrom (depth + 1) 0 t, ← walkForest_eq_map_visitFrom (depth + 1) 0 e,
      List.length_nil, Nat.add_zero]
    rfl

/-- The depth of a node in `walkForest` is the length of the `Way` to it.  It is stated for every
start of the counting, since the rest of a forest is counted from 1. -/
theorem walkForest_eq_map_visitFrom (depth index : Nat) :
    ∀ forest : List Node,
      walkForest depth forest =
        (visitFrom index forest).map fun v => (depth + v.1.way.length, v.2)
  | [] => by rw [walkForest, visitFrom, List.map_nil]
  | n :: rest => by
    rw [walkForest, visitFrom, List.map_append, ← walk_eq_map_visit depth index n,
      ← walkForest_eq_map_visitFrom depth (index + 1) rest]

end

/-! ## Every position is visited -/

/-- What is visited from a node: the node itself, at the empty way, or something in one of its
branches.  For a text the second case is empty, as `Node.branch` gives it no nodes, so texts and
conditionals need not be told apart later. -/
theorem mem_visit {index : Nat} {n : Node} {v : Site × Node} :
    v ∈ n.visit index ↔
      v = (⟨[], index⟩, n) ∨ ∃ b, v ∈ within (index, b) (visitFrom 0 (n.branch b)) := by
  cases n with
  | text a f s =>
    rw [visit, List.mem_singleton]
    constructor
    · exact Or.inl
    · rintro (h | ⟨b, h⟩)
      · exact h
      · rw [branch, visitFrom, within, List.map_nil] at h
        exact absurd h List.not_mem_nil
  | conditional a c t e =>
    rw [visit, List.mem_cons, List.mem_append, List.mem_append]
    constructor
    · rintro (h | (h | h) | h)
      · exact Or.inl h
      · exact Or.inr ⟨.condition, h⟩
      · exact Or.inr ⟨.consequent, h⟩
      · exact Or.inr ⟨.alternative, h⟩
    · rintro (h | ⟨b, h⟩)
      · exact Or.inl h
      · cases b with
        | condition => exact Or.inr (Or.inl (Or.inl h))
        | consequent => exact Or.inr (Or.inl (Or.inr h))
        | alternative => exact Or.inr (Or.inr h)

/-- What `visitFrom` gives of a forest is visited from one of its nodes, with the position of this
node added to where the counting starts. -/
theorem mem_visitFrom {v : Site × Node} (forest : List Node) : ∀ index : Nat,
    v ∈ visitFrom index forest ↔
      ∃ (i : Nat) (n : Node), forest[i]? = some n ∧ v ∈ n.visit (index + i) := by
  induction forest with
  | nil =>
    intro index
    rw [visitFrom]
    refine ⟨fun h => absurd h List.not_mem_nil, ?_⟩
    rintro ⟨i, n, h, -⟩
    rw [List.getElem?_nil] at h
    exact absurd h nofun
  | cons first rest ih =>
    intro index
    rw [visitFrom, List.mem_append, ih]
    constructor
    · rintro (h | ⟨i, n, hn, h⟩)
      · exact ⟨0, first, rfl, h⟩
      · refine ⟨i + 1, n, hn, ?_⟩
        rwa [← Nat.add_assoc, Nat.add_right_comm]
    · rintro ⟨i, n, hn, h⟩
      cases i with
      | zero =>
        rw [List.getElem?_cons_zero, Option.some.injEq] at hn
        rw [← hn] at h
        exact Or.inl h
      | succ i =>
        refine Or.inr ⟨i, n, hn, ?_⟩
        rwa [Nat.add_right_comm, Nat.add_assoc]

/-- What is found in a branch, seen from outside of it by `within`, has a way that starts with the
step into the branch. -/
theorem mem_within {step : Nat × Branch} {found : List (Site × Node)} {s : Site} {n : Node} :
    (s, n) ∈ within step found ↔ ∃ way, s.way = step :: way ∧ (⟨way, s.index⟩, n) ∈ found := by
  rw [within, List.mem_map]
  constructor
  · rintro ⟨⟨⟨way, index⟩, m⟩, hmem, heq⟩
    obtain ⟨rfl, rfl⟩ := Prod.mk.inj heq
    exact ⟨way, rfl, hmem⟩
  · rintro ⟨way, hway, hmem⟩
    refine ⟨(⟨way, s.index⟩, n), hmem, ?_⟩
    rw [Site.below, ← hway]

/-- The nodes visited are those that stand in the tree: a site is visited with a node exactly if
`forestAt` along its way has the node at its index.  The induction is on the way. -/
theorem mem_visitFrom_zero {n : Node} (way : Way) : ∀ {forest : List Node} {index : Nat},
    (⟨way, index⟩, n) ∈ visitFrom 0 forest ↔ (forestAt forest way)[index]? = some n := by
  induction way with
  | nil =>
    intro forest index
    rw [mem_visitFrom, forestAt]
    constructor
    · rintro ⟨i, m, hm, h⟩
      rw [mem_visit, Nat.zero_add] at h
      obtain heq | ⟨b, h⟩ := h
      · obtain ⟨hsite, rfl⟩ := Prod.mk.inj heq
        obtain ⟨-, rfl⟩ := Site.mk.inj hsite
        exact hm
      · obtain ⟨way, hway, -⟩ := mem_within.mp h
        exact absurd hway nofun
    · intro h
      refine ⟨index, n, h, ?_⟩
      rw [mem_visit, Nat.zero_add]
      exact Or.inl rfl
  | cons step rest ih =>
    intro forest index
    obtain ⟨i, b⟩ := step
    rw [mem_visitFrom, forestAt]
    constructor
    · rintro ⟨j, m, hm, h⟩
      rw [mem_visit, Nat.zero_add] at h
      obtain heq | ⟨b', h⟩ := h
      · exact absurd (Prod.mk.inj heq).1 nofun
      · obtain ⟨way, hway, hmem⟩ := mem_within.mp h
        obtain ⟨hstep, rfl⟩ := List.cons.inj hway
        obtain ⟨rfl, rfl⟩ := Prod.mk.inj hstep
        rw [hm]
        exact ih.mp hmem
    · intro h
      cases hm : forest[i]? with
      | none =>
        rw [hm, List.getElem?_nil] at h
        exact absurd h nofun
      | some m =>
        rw [hm] at h
        refine ⟨i, m, hm, ?_⟩
        rw [mem_visit, Nat.zero_add]
        exact Or.inr ⟨b, mem_within.mpr ⟨rest, rfl, ih.mpr h⟩⟩

/-! ## No position is visited twice -/

/-- The position in the forest at which the way to a `Site` begins: that of its first step, or the
index itself if there is none.  It tells the visits of different nodes of a forest apart. -/
def entry (s : Site) : Nat :=
  match s.way with
  | [] => s.index
  | step :: _ => step.1

/-- All that `visit` gives from a node at position `i` has the `entry` `i`. -/
theorem entry_of_mem_visit {index : Nat} {n : Node} {v : Site × Node} (h : v ∈ n.visit index) :
    entry v.1 = index := by
  obtain ⟨s, m⟩ := v
  obtain heq | ⟨b, h⟩ := mem_visit.mp h
  · obtain ⟨rfl, -⟩ := Prod.mk.inj heq
    rfl
  · obtain ⟨way, hway, -⟩ := mem_within.mp h
    rw [entry, hway]

/-- What is visited from the position `index` on is entered there or later. -/
theorem le_entry_of_mem_visitFrom {index : Nat} {forest : List Node} {v : Site × Node}
    (h : v ∈ visitFrom index forest) : index ≤ entry v.1 := by
  obtain ⟨i, n, -, h⟩ := (mem_visitFrom forest index).mp h
  rw [entry_of_mem_visit h]
  exact Nat.le_add_right index i

/-- Two lists of visits without repetition that share no site make one without repetition, which is
`List.nodup_append` for the sites of the visits.  The visits of a forest and of a conditional are
both put together from lists in this way. -/
theorem nodup_sites_append {xs ys : List (Site × Node)} (hx : (xs.map Prod.fst).Nodup)
    (hy : (ys.map Prod.fst).Nodup) (hne : ∀ x ∈ xs, ∀ y ∈ ys, x.1 ≠ y.1) :
    ((xs ++ ys).map Prod.fst).Nodup := by
  rw [List.map_append, List.nodup_append]
  refine ⟨hx, hy, fun s hs s' hs' => ?_⟩
  obtain ⟨x, hx, rfl⟩ := List.mem_map.mp hs
  obtain ⟨y, hy, rfl⟩ := List.mem_map.mp hs'
  exact hne x hx y hy

/-- Seen from one forest further up, different sites stay different, because `Site.below` is
injective. -/
theorem nodup_within {found : List (Site × Node)} (step : Nat × Branch)
    (h : (found.map Prod.fst).Nodup) : ((within step found).map Prod.fst).Nodup := by
  have hmap : (within step found).map Prod.fst = (found.map Prod.fst).map (Site.below step) := by
    rw [within, List.map_map, List.map_map]
    rfl
  rw [hmap]
  refine List.Pairwise.map _ (fun s s' hne heq => hne ?_) h
  obtain ⟨way, index⟩ := s
  obtain ⟨way', index'⟩ := s'
  obtain ⟨hway, hindex⟩ := Site.mk.inj heq
  rw [Site.mk.injEq]
  exact ⟨(List.cons.inj hway).2, hindex⟩

/-- What is found in different branches is at different sites: the first steps that `within` puts in
front differ. -/
theorem ne_of_mem_within {step step' : Nat × Branch} {xs ys : List (Site × Node)}
    (hne : step ≠ step') : ∀ x ∈ within step xs, ∀ y ∈ within step' ys, x.1 ≠ y.1 := by
  rintro ⟨s, n⟩ hx ⟨s', n'⟩ hy rfl
  obtain ⟨way, hway, -⟩ := mem_within.mp hx
  obtain ⟨way', hway', -⟩ := mem_within.mp hy
  exact hne (List.cons.inj (hway.symm.trans hway')).1

mutual

/-- `visit` comes to no site twice: the conditional itself is at the empty way, and its three
branches are entered by different steps. -/
theorem nodup_visit (index : Nat) : ∀ n : Node, ((n.visit index).map Prod.fst).Nodup
  | .text a f s => by
    rw [visit, List.map_cons, List.map_nil]
    exact List.pairwise_singleton _ _
  | .conditional a c t e => by
    rw [visit, List.map_cons, List.nodup_cons]
    constructor
    -- The conditional itself is at the empty way, and by `mem_within` everything in its branches is
    -- not.
    · intro h
      obtain ⟨⟨s, m⟩, hmem, rfl⟩ := List.mem_map.mp h
      have hbelow : ∃ b found, (⟨[], index⟩, m) ∈ within (index, b) found := by
        rw [List.mem_append, List.mem_append] at hmem
        obtain (h | h) | h := hmem
        · exact ⟨_, _, h⟩
        · exact ⟨_, _, h⟩
        · exact ⟨_, _, h⟩
      obtain ⟨b, found, hb⟩ := hbelow
      obtain ⟨way, hway, -⟩ := mem_within.mp hb
      exact absurd hway nofun
    · have hthen := nodup_sites_append (nodup_within (index, .condition) (nodup_visitFrom 0 c))
        (nodup_within (index, .consequent) (nodup_visitFrom 0 t)) (ne_of_mem_within (by simp))
      refine nodup_sites_append hthen
        (nodup_within (index, .alternative) (nodup_visitFrom 0 e)) fun x hx => ?_
      obtain hx | hx := List.mem_append.mp hx
      · exact ne_of_mem_within (by simp) x hx
      · exact ne_of_mem_within (by simp) x hx

/-- No site is visited twice from a forest.  What is found further on in it is entered at a later
position (`le_entry_of_mem_visitFrom`). -/
theorem nodup_visitFrom (index : Nat) :
    ∀ forest : List Node, ((visitFrom index forest).map Prod.fst).Nodup
  | [] => by
    rw [visitFrom, List.map_nil]
    exact List.nodup_nil
  | n :: rest => by
    rw [visitFrom]
    refine nodup_sites_append (nodup_visit index n) (nodup_visitFrom (index + 1) rest)
      fun x hx y hy heq => ?_
    -- What is found further on in the forest has a later `entry`.
    have hlt := le_entry_of_mem_visitFrom hy
    rw [← heq, entry_of_mem_visit hx] at hlt
    omega

end

end Node

namespace Template

/-- Every node of a template with its site, in the order of `Template.walk`. -/
def visits (t : Template) : List (Site × Node) :=
  Node.visitFrom 0 t.nodes

/-- The `walk` of a template is its `visits` with nothing but the depth kept of each site.  What is
proved of visits is carried over to walks by this. -/
theorem walk_eq_map_visits (t : Template) :
    t.walk = t.visits.map fun v => (v.1.way.length, v.2) := by
  rw [walk, visits, Node.walkForest_eq_map_visitFrom 0 0]
  refine List.map_congr_left fun v _ => ?_
  rw [Nat.zero_add]

/-- The sites of `visits` are all the positions of the tree, each with the node that stands
there. -/
theorem mem_visits {t : Template} {s : Site} {n : Node} :
    (s, n) ∈ t.visits ↔ (s.siblings t.nodes)[s.index]? = some n :=
  Node.mem_visitFrom_zero s.way

/-- No position of a template is in `visits` twice, even where two nodes look alike. -/
theorem nodup_visits (t : Template) : (t.visits.map Prod.fst).Nodup :=
  Node.nodup_visitFrom 0 t.nodes

end Template

end MessageTemplate
