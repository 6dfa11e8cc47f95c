/-
What becomes of every node when some nodes of a forest are replaced.

A splice takes a run of siblings out of one forest and puts other nodes there; then the whole tree
is computed anew.  Seen from the stored form this is the same splice of the same forest and nothing
else, because a well-formed tree has no empty forest to be filled (`contents_exchange`,
`fillForest_eq_self`).

Seen from a node that is not replaced there are three cases (`Site.through`).  Its path does not go
through the forest at all, and nothing has changed on it; this is so for the conditionals around the
forest too, but of these a branch has changed.  Or the path goes through the forest before the run,
and again nothing has changed.  Or it goes through behind the run, and then one position of the path
has moved by as many places as the forest has grown (`Site.renumber`).  The induction is on the way
to the forest, for all paths at once.

`Spliced` says both of a template, and `WellFormed.spliced` proves it.  A second splice of the same
forest that takes out what the first has put in leaves no trace of the first.
-/
import MessageTemplate.Proofs.Tree.Apart
import MessageTemplate.Proofs.Tree.Normal

set_option autoImplicit false

namespace MessageTemplate

/-! ## The stored form -/

namespace Content

/-- A `Branch` of a stored node.  A text has none, which is the empty forest. -/
def branch : Content → Branch → List Content
  | .text _, _ => []
  | .conditional c _ _, .condition => c
  | .conditional _ t _, .consequent => t
  | .conditional _ _ e, .alternative => e

/-- The stored node with a `Branch` replaced.  A text stays as it is. -/
def setBranch : Content → Branch → List Content → Content
  | .text s, _, _ => .text s
  | .conditional _ t e, .condition, forest => .conditional forest t e
  | .conditional c _ e, .consequent, forest => .conditional c forest e
  | .conditional c t _, .alternative, forest => .conditional c t forest

/-- Exchanges the stored forest at the end of a way, as `Node.exchange` does in a working tree. -/
def exchange (f : List Content → List Content) : List Content → Way → List Content
  | forest, [] => f forest
  | forest, (i, b) :: rest =>
    forest.modify i fun n => n.setBranch b (exchange f (n.branch b) rest)

theorem fillFrom_eq_map (forest : List Content) : fillFrom forest = forest.map fill := by
  induction forest with
  | nil => rw [fillFrom, List.map_nil]
  | cons n rest ih => rw [fillFrom, List.map_cons, ih]

/-- A forest that is not empty and whose nodes are filled has nothing to be filled by
`fillForest`. -/
theorem fillForest_eq_self {forest : List Content} (hne : forest ≠ [])
    (hfilled : ∀ c ∈ forest, c.fill = c) : fillForest forest = forest := by
  cases forest with
  | nil => exact absurd rfl hne
  | cons n rest =>
    rw [List.forall_mem_cons] at hfilled
    have hrest : rest.map fill = rest := by
      rw [List.map_congr_left hfilled.2, List.map_id']
    rw [fillForest, hfilled.1, fillFrom_eq_map, hrest]

end Content

namespace Node

theorem contents_eq_map (forest : List Node) : contents forest = forest.map content := by
  induction forest with
  | nil => rw [contents, List.map_nil]
  | cons n rest ih => rw [contents, List.map_cons, ih]

theorem branch_content (n : Node) (b : Branch) : n.content.branch b = contents (n.branch b) := by
  cases n with
  | text a f s =>
    rw [content, branch, contents]
    rfl
  | conditional a c t e =>
    rw [content]
    cases b <;> rfl

/-- `setBranch` exchanges the branch in the stored form as well. -/
theorem content_setBranch (n : Node) (b : Branch) (forest : List Node) :
    (n.setBranch b forest).content = n.content.setBranch b (contents forest) := by
  cases n with
  | text a f s => simp only [setBranch, content, Content.setBranch]
  | conditional a c t e => cases b <;> simp only [setBranch, content, Content.setBranch]

/-- `List.modify` of one node changes its stored form and that of no other. -/
theorem contents_modify {f : Node → Node} {g : Content → Content}
    (h : ∀ n, (f n).content = g n.content) (forest : List Node) (i : Nat) :
    contents (forest.modify i f) = (contents forest).modify i g := by
  rw [contents_eq_map, contents_eq_map]
  refine List.ext_getElem? fun j => ?_
  rw [List.getElem?_map, List.getElem?_modify, List.getElem?_modify, List.getElem?_map]
  cases forest[j]? with
  | none => rfl
  | some n =>
    show some (if i = j then f n else n).content = some (if i = j then g n.content else n.content)
    by_cases hij : i = j
    · rw [if_pos hij, if_pos hij, h]
    · rw [if_neg hij, if_neg hij]

/-- `exchange` of a forest exchanges its stored form. -/
theorem contents_exchange {f : List Node → List Node} {g : List Content → List Content}
    (h : ∀ owner, contents (f owner) = g (contents owner)) (way : Way) : ∀ forest : List Node,
      contents (exchange f forest way) = Content.exchange g (contents forest) way := by
  induction way with
  | nil => exact h
  | cons step rest ih =>
    intro forest
    rw [exchange, Content.exchange]
    refine contents_modify (fun n => ?_) forest step.1
    rw [content_setBranch, ih, branch_content]

/-- Two uses of `exchange` at one way leave the same stored form if they put the same in its place;
what they would make of other forests does not matter. -/
theorem contents_exchange_congr {f g : List Node → List Node} (way : Way) :
    ∀ {forest : List Node},
      contents (f (forestAt forest way)) = contents (g (forestAt forest way)) →
        contents (exchange f forest way) = contents (exchange g forest way) := by
  induction way with
  | nil => exact fun h => h
  | cons step rest ih =>
    intro forest h
    rw [exchange, exchange, contents_eq_map, contents_eq_map]
    refine List.ext_getElem? fun j => ?_
    rw [List.getElem?_map, List.getElem?_map, List.getElem?_modify, List.getElem?_modify]
    cases hn : forest[j]? with
    | none => rfl
    | some n =>
      show some (if step.1 = j then _ else n).content = some (if step.1 = j then _ else n).content
      by_cases hj : step.1 = j
      · rw [forestAt, hj, hn] at h
        rw [if_pos hj, if_pos hj, content_setBranch, content_setBranch, ih h]
      · rw [if_neg hj, if_neg hj]

/-- Two uses of `exchange` at one way are one. -/
theorem exchange_exchange (f g : List Node → List Node) (way : Way) : ∀ forest : List Node,
    exchange f (exchange g forest way) way = exchange (fun owner => f (g owner)) forest way := by
  induction way with
  | nil => exact fun _ => rfl
  | cons step rest ih =>
    intro forest
    rw [exchange, exchange, exchange, List.modify_modify_eq]
    congr 1
    funext n
    rw [Function.comp_apply]
    cases n with
    | text a f s => rfl
    | conditional a c t e => rw [branch_setBranch rfl, setBranch_setBranch, ih]

/-! ## Filled nodes -/

theorem kind_refresh (path : Address) (index : Nat) (n : Node) :
    (n.refresh path index).kind = n.kind := by
  cases n with
  | text a f s => rw [refresh, kind, kind]
  | conditional a c t e => rw [refresh, kind, kind]

/-- `refresh` fills the empty branches of a node (`fill`) and leaves the rest of its content as it
is. -/
theorem content_refresh (path : Address) (index : Nat) (n : Node) :
    (n.refresh path index).content = n.content.fill := by
  rw [refresh_eq_place, Content.content_place]

/-- `refreshForest` fills what is empty (`fillForest`) and leaves the rest of the content as it
is. -/
theorem contents_refreshForest (path : Address) (forest : List Node) :
    contents (refreshForest path forest) = Content.fillForest (contents forest) := by
  rw [refreshForest_eq_placeForest, Content.contents_placeForest]

/-- A node that is `Placed` has no empty branch anywhere. -/
theorem Placed.fill_content {path : Address} {index : Nat} {n : Node} (h : Placed path index n) :
    n.content.fill = n.content := by
  rw [← Content.content_place path index, place_content path index n h]

/-- A text has no branch at all, so there is nothing in it for `fill`. -/
theorem fill_content_ofText (s : String) : (ofText s).content.fill = (ofText s).content := by
  rw [ofText, content, Content.fill]

/-! ## Splices of a forest -/

/-- `splice` of a forest splices its stored form. -/
theorem contents_splice (owner nodes : List Node) (start stop : Nat) :
    contents (owner.take start ++ nodes ++ owner.drop stop) =
      (contents owner).take start ++ contents nodes ++ (contents owner).drop stop := by
  simp only [contents_eq_map, List.map_append, List.map_take, List.map_drop]

/-- A second `splice` that takes out what a first one put in leaves the place for something else. -/
theorem splice_spliced {α : Type} {owner : List α} {start : Nat} (hstart : start ≤ owner.length)
    (nodes : List α) (stop : Nat) (others : List α) :
    (owner.take start ++ nodes ++ owner.drop stop).take start ++ others ++
        (owner.take start ++ nodes ++ owner.drop stop).drop (start + nodes.length) =
      owner.take start ++ others ++ owner.drop stop := by
  have htake : (owner.take start).length = start := List.length_take_of_le hstart
  have hdrop : (owner.take start ++ nodes).length = start + nodes.length := by
    rw [List.length_append, htake]
  rw [List.drop_left' hdrop, List.append_assoc (owner.take start) nodes, List.take_left' htake]

/-- Putting an element in its own place, between the `take` before and the `drop` behind it, changes
nothing. -/
theorem splice_getElem? {α : Type} {owner : List α} {index : Nat} {x : α}
    (hx : owner[index]? = some x) : owner.take index ++ [x] ++ owner.drop (index + 1) = owner := by
  obtain ⟨hlt, rfl⟩ := List.getElem?_eq_some_iff.mp hx
  rw [List.append_assoc, List.singleton_append, List.getElem_cons_drop, List.take_append_drop]

end Node

/-! ## Where a path goes through a forest -/

namespace Site

/-- The position at which the path to this `Site` goes through the forest at the end of a way, if it
does. -/
def through : Way → Site → Option Nat
  | [], ⟨[], index⟩ => some index
  | [], ⟨step :: _, _⟩ => some step.1
  | _ :: _, ⟨[], _⟩ => none
  | step :: rest, ⟨step' :: rest', index⟩ =>
    if step = step' then through rest ⟨rest', index⟩ else none

/-- The site with the position changed at which its path goes `through` the forest; a site whose
path does not go through stays. -/
def renumber (shift : Nat → Nat) : Way → Site → Site
  | [], ⟨[], index⟩ => ⟨[], shift index⟩
  | [], ⟨step :: rest, index⟩ => ⟨(shift step.1, step.2) :: rest, index⟩
  | _ :: _, ⟨[], index⟩ => ⟨[], index⟩
  | step :: rest, ⟨step' :: rest', index⟩ =>
    if step = step' then (renumber shift rest ⟨rest', index⟩).below step
    else ⟨step' :: rest', index⟩

/-- A node at this `Site` is a conditional around the forest at the end of a way. -/
def Around (s : Site) (way : Way) : Prop :=
  ∃ b rest, way = s.way ++ (s.index, b) :: rest

/-- `renumber` leaves a path that does not go `through` the forest, or goes through where nothing
has moved. -/
theorem renumber_eq_self {shift : Nat → Nat} {way : Way} : ∀ {s : Site},
    (∀ i, through way s = some i → shift i = i) → renumber shift way s = s := by
  induction way with
  | nil =>
    rintro ⟨steps, index⟩ h
    cases steps with
    | nil => rw [renumber, h index rfl]
    | cons step rest => rw [renumber, h step.1 rfl]
  | cons step rest ih =>
    rintro ⟨steps, index⟩ h
    cases steps with
    | nil => rfl
    | cons step' rest' =>
      rw [through] at h
      rw [renumber]
      by_cases hstep : step = step'
      · rw [if_pos hstep] at h ⊢
        rw [ih h, below, hstep]
      · rw [if_neg hstep]

end Site

/-! ## Looking behind a splice -/

namespace Node

/-- In a forest after a splice a node that is not replaced is found where it was or, behind the run,
as many places on as the forest has grown. -/
theorem getElem?_spliced {owner nodes : List Node} {start stop : Nat} {shift : Nat → Nat}
    (hstart : start ≤ owner.length) (hstop : start ≤ stop) (hlow : ∀ i < start, shift i = i)
    (hhigh : ∀ i, stop ≤ i → shift i + (stop - start) = i + nodes.length) {i : Nat}
    (hout : i < start ∨ stop ≤ i) :
    (owner.take start ++ nodes ++ owner.drop stop)[shift i]? = owner[i]? := by
  have htake : (owner.take start).length = start := List.length_take_of_le hstart
  rcases hout with hbefore | hbehind
  · rw [hlow i hbefore, List.append_assoc, List.getElem?_append_left (by omega),
      List.getElem?_take_of_lt hbefore]
  · have hmoved := hhigh i hbehind
    rw [List.getElem?_append_right (by rw [List.length_append]; omega), List.length_append,
      List.getElem?_drop, htake]
    congr 1
    omega

/-- After a `splice` a node whose path is not replaced is found at its site by `renumber`.  If it is
a conditional around the forest, its kind is still the same. -/
theorem exists_getElem?_splice {nodes : List Node} {start stop : Nat} {shift : Nat → Nat}
    (hstop : start ≤ stop) (hlow : ∀ i < start, shift i = i)
    (hhigh : ∀ i, stop ≤ i → shift i + (stop - start) = i + nodes.length) {n : Node} (way : Way) :
    ∀ {forest : List Node} {s : Site}, start ≤ (forestAt forest way).length →
      (s.siblings forest)[s.index]? = some n →
      (∀ i, s.through way = some i → i < start ∨ stop ≤ i) →
        ∃ n', ((s.renumber shift way).siblings
            (exchange (fun owner => owner.take start ++ nodes ++ owner.drop stop) forest way))[
              (s.renumber shift way).index]? = some n' ∧
          n'.kind = n.kind ∧ (¬ s.Around way → n' = n) := by
  induction way with
  | nil =>
    rintro forest ⟨steps, index⟩ hstart hn hout
    have hmoved : ∀ i, i < start ∨ stop ≤ i →
        (forest.take start ++ nodes ++ forest.drop stop)[shift i]? = forest[i]? :=
      fun i => getElem?_spliced hstart hstop hlow hhigh
    cases steps with
    | nil => exact ⟨n, (hmoved index (hout index rfl)).trans hn, rfl, fun _ => rfl⟩
    | cons step rest =>
      refine ⟨n, ?_, rfl, fun _ => rfl⟩
      rw [Site.siblings, forestAt] at hn
      rw [Site.renumber, exchange, Site.siblings, forestAt, hmoved step.1 (hout step.1 rfl)]
      exact hn
  | cons step rest ih =>
    rintro forest ⟨steps, index⟩ hstart hn hout
    cases steps with
    | nil =>
      -- The node stands in a forest on the way; its branch has changed if the way goes on there.
      have hn' : forest[index]? = some n := hn
      rw [Site.renumber, exchange, Site.siblings, forestAt, List.getElem?_modify, hn']
      by_cases hindex : step.1 = index
      · refine ⟨_, congrArg some (if_pos hindex), kind_setBranch n step.2 _, fun haround => ?_⟩
        exact absurd ⟨step.2, rest, by rw [← hindex]; rfl⟩ haround
      · exact ⟨n, congrArg some (if_neg hindex), rfl, fun _ => rfl⟩
    | cons step' rest' =>
      rw [Site.through] at hout
      rw [Site.renumber]
      by_cases hstep : step = step'
      · subst hstep
        rw [if_pos rfl] at hout ⊢
        obtain ⟨m, hm, hkind, hinner⟩ := step_of_getElem?_forestAt hn
        rw [forestAt, hm] at hstart
        obtain ⟨n', hn', hsame, hfar⟩ := ih (s := ⟨rest', index⟩) hstart hinner hout
        refine ⟨n', ?_, hsame, fun haround => hfar ?_⟩
        · rw [Site.siblings, Site.below, exchange, forestAt, List.getElem?_modify_eq, hm]
          show (forestAt ((m.setBranch step.2 _).branch step.2) _)[_]? = some n'
          rw [branch_setBranch hkind]
          exact hn'
        · rintro ⟨b, more, hway⟩
          exact haround ⟨b, more, congrArg (step :: ·) hway⟩
      · have hapart : Way.Apart (step :: rest) (step' :: rest') := Or.inl hstep
        refine ⟨n, ?_, rfl, fun _ => rfl⟩
        rw [if_neg hstep, Site.siblings, forestAt_exchange_of_apart hapart]
        exact hn

end Node

/-! ## Splices of a template -/

namespace Template

/-- A node stands at a `Site`, carries the address of the site, and is what `resolve` finds at this
address; the last needs positions that can be written in 64 bits. -/
structure Finds (t : Template) (s : Site) (n : Node) : Prop where
  stands : (s.siblings t.nodes)[s.index]? = some n
  address : n.address = s.address n.kind
  resolves : s.Bounded → Node.resolve t.nodes n.address = .ok ⟨n, s.siblings t.nodes, s.index⟩

/-- In a well-formed template every node that stands somewhere is found there (`Finds`). -/
theorem WellFormed.finds {t : Template} (h : t.WellFormed) {s : Site} {n : Node}
    (hn : (s.siblings t.nodes)[s.index]? = some n) : t.Finds s n := by
  have haddress : n.address = s.address n.kind := (Node.WellFormed.placed s.way h hn).address
  exact ⟨hn, haddress, fun hbounded => Node.resolve_eq_ok.mpr ⟨s, n, hbounded, hn, haddress, rfl⟩⟩

/-- `refresh` leaves a node where it stands. -/
theorem finds_refresh {t : Template} {s : Site} {n : Node}
    (hn : (s.siblings t.nodes)[s.index]? = some n) :
    t.refresh.Finds s (n.refresh (Address.root.along s.way) s.index) :=
  (refresh_wellFormed t).finds (Node.getElem?_forestAt_refreshForest s.way hn)

/-- What replacing nodes of the forest at the end of a way makes of a template.  In the stored
form, `new` stands in the place of the nodes from `start` up to but not including `stop`, and
that is all.  Every other node outside of what was replaced is found at its old site, up to
the position at which its path goes through the forest, which is shifted; it carries its old
address if nothing is shifted.  It has its kind and, unless it is a conditional around the
forest, its whole content. -/
structure Spliced (t : Template) (way : Way) (start stop : Nat) (new : List Content)
    (shift : Nat → Nat) (t' : Template) : Prop where
  wellFormed : t'.WellFormed
  contents : t'.contents =
    Content.exchange (fun owner => owner.take start ++ new ++ owner.drop stop) t.contents way
  kept : ∀ s n, t.Finds s n → (∀ i, s.through way = some i → i < start ∨ stop ≤ i) →
    ∃ n', t'.Finds (s.renumber shift way) n' ∧ n'.kind = n.kind ∧
      (¬ s.Around way → n'.content = n.content) ∧
      ((∀ i, s.through way = some i → shift i = i) → n'.address = n.address)

section

variable {t : Template} {site : Site} {n : Node} {nodes : List Node} {start stop : Nat}

/-- The nodes of a `WellFormed` forest after a splice are filled as they were before. -/
theorem WellFormed.fillForest_spliced (h : t.WellFormed) (hnodes : nodes ≠ [])
    (hfilled : ∀ n ∈ nodes, n.content.fill = n.content) (site : Site) (start stop : Nat) :
    Content.fillForest (Node.contents ((site.siblings t.nodes).take start ++ nodes ++
        (site.siblings t.nodes).drop stop)) =
      Node.contents ((site.siblings t.nodes).take start ++ nodes ++
        (site.siblings t.nodes).drop stop) := by
  have hold : ∀ m ∈ site.siblings t.nodes, m.content.fill = m.content := by
    intro m hm
    obtain ⟨i, hi⟩ := List.mem_iff_getElem?.mp hm
    exact (Node.WellFormed.placed site.way h hi).fill_content
  rw [Node.contents_eq_map]
  refine Content.fillForest_eq_self (by simp [hnodes]) fun c hc => ?_
  obtain ⟨m, hm, rfl⟩ := List.mem_map.mp hc
  rw [List.mem_append, List.mem_append] at hm
  rcases hm with (hm | hm) | hm
  · exact hold m (List.mem_of_mem_take hm)
  · exact hfilled m hm
  · exact hold m (List.mem_of_mem_drop hm)

/-- Splicing a well-formed template and computing it anew makes of it what `Spliced` says, if the
new nodes are filled and `shift` moves the positions behind the run by as many places as the forest
grows. -/
theorem WellFormed.spliced (h : t.WellFormed)
    (hn : (site.siblings t.nodes)[site.index]? = some n) (hstart : start ≤ site.index)
    (hstop : start ≤ stop) (hnodes : nodes ≠ [])
    (hfilled : ∀ n ∈ nodes, n.content.fill = n.content) {shift : Nat → Nat}
    (hlow : ∀ i < start, shift i = i)
    (hhigh : ∀ i, stop ≤ i → shift i + (stop - start) = i + nodes.length) :
    t.Spliced site.way start stop (Node.contents nodes) shift
      (refresh ⟨site.splice start stop nodes t.nodes⟩) := by
  refine ⟨refresh_wellFormed _, ?_, fun s m hm hout => ?_⟩
  · -- Nothing has to be filled, so computing anew shows only in the derived fields.
    have hfill : Node.contents (Node.exchange (fun owner =>
          Node.refreshForest (Address.root.along site.way)
            (owner.take start ++ nodes ++ owner.drop stop)) t.nodes site.way) =
        Node.contents (Node.exchange (fun owner => owner.take start ++ nodes ++ owner.drop stop)
          t.nodes site.way) := by
      refine Node.contents_exchange_congr site.way ?_
      rw [Node.contents_refreshForest]
      exact h.fillForest_spliced hnodes hfilled site start stop
    rw [Site.splice, Site.exchange, h.refresh_exchange]
    refine hfill.trans (Node.contents_exchange (fun owner => ?_) site.way t.nodes)
    exact Node.contents_splice owner nodes start stop
  · have hlength : start ≤ (Node.forestAt t.nodes site.way).length :=
      Nat.le_trans hstart (Nat.le_of_lt (Node.lt_length_of_getElem? hn))
    obtain ⟨m', hm', hkind, hsame⟩ :=
      Node.exists_getElem?_splice hstop hlow hhigh site.way hlength hm.stands hout
    have hfound := finds_refresh (t := ⟨site.splice start stop nodes t.nodes⟩) hm'
    refine ⟨_, hfound, (Node.kind_refresh _ _ m').trans hkind, fun haround => ?_, fun hshift => ?_⟩
    · rw [Node.content_refresh, hsame haround]
      exact (Node.WellFormed.placed s.way h hm.stands).fill_content
    · rw [hfound.address, Node.kind_refresh, hkind, Site.renumber_eq_self hshift, hm.address]

/-- Of two uses of `splice` of which the second takes out what the first has put in, only the second
shows. -/
theorem WellFormed.refresh_splice_refresh (h : t.WellFormed)
    (hn : (site.siblings t.nodes)[site.index]? = some n) (hstart : start ≤ site.index)
    (hnodes : nodes ≠ []) (hfilled : ∀ n ∈ nodes, n.content.fill = n.content)
    (others : List Node) :
    refresh ⟨site.splice start (start + nodes.length) others
        (refresh ⟨site.splice start stop nodes t.nodes⟩).nodes⟩ =
      refresh ⟨site.splice start stop others t.nodes⟩ := by
  have hlength : start ≤ (Node.contents (site.siblings t.nodes)).length := by
    rw [Node.contents_eq_map, List.length_map]
    exact Nat.le_trans hstart (Nat.le_of_lt (Node.lt_length_of_getElem? hn))
  have hnew : nodes.length = (Node.contents nodes).length := by
    rw [Node.contents_eq_map, List.length_map]
  refine (refresh_eq_ofContents _).trans
    (Eq.trans (congrArg ofContents ?_) (refresh_eq_ofContents _).symm)
  rw [contents, contents, Site.splice, Site.splice, Site.splice, Site.exchange, Site.exchange,
    Site.exchange, h.refresh_exchange, Node.exchange_exchange]
  refine Node.contents_exchange_congr site.way ?_
  rw [Node.contents_splice, Node.contents_splice, Node.contents_refreshForest]
  have hfill := h.fillForest_spliced hnodes hfilled site start stop
  rw [Site.siblings] at hfill hlength
  rw [hfill, Node.contents_splice, hnew, Node.splice_spliced hlength]

/-- Putting a node with the same `content` in the place of a node changes nothing. -/
theorem WellFormed.refresh_splice_self (h : t.WellFormed)
    (hn : (site.siblings t.nodes)[site.index]? = some n) {m : Node} (hm : m.content = n.content) :
    refresh ⟨site.splice site.index (site.index + 1) [m] t.nodes⟩ = t := by
  have hcontent : (Node.contents (site.siblings t.nodes))[site.index]? = some m.content := by
    rw [Node.contents_eq_map, List.getElem?_map, hn, Option.map_some, hm]
  have hself : Node.contents (site.splice site.index (site.index + 1) [m] t.nodes) =
      Node.contents (Node.exchange id t.nodes site.way) := by
    refine Node.contents_exchange_congr site.way ?_
    rw [Node.contents_splice, Node.contents, Node.contents]
    exact Node.splice_getElem? hcontent
  rw [refresh_eq_ofContents, contents, hself, Node.exchange_id]
  exact ofContents_contents h

end

end Template

end MessageTemplate
