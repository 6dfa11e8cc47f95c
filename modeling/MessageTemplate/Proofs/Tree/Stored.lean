/-
Storing a template and reading it back.

What is printed of a forest is one of the ways to write it (`forestToJson_written`), so reading it
from a text gives the forest back however the text is laid out, as long as the reader does not run
out of brackets.  A text inside `k` conditionals stands inside `2 * k + 2` brackets, one for the
whole forest, two for each conditional and one of its own, and the reader opens no more than
`nestingLimit`.

No forest of a well-formed tree is empty, so its deepest node is a text.  This is why the depth of
the texts decides, and not that of the conditionals (`storable_iff`).
-/
import MessageTemplate.Tree.Walk
import MessageTemplate.Proofs.Tree.Accepted
import MessageTemplate.Proofs.Tree.WellFormed

set_option autoImplicit false

namespace MessageTemplate

open Json

/-! ## What is printed -/

namespace Content

/-- A forest is printed node by node.  `forestToJson` is a recursion of its own, and lemmas about
`List.map` apply to it in this form. -/
theorem forestToJson_eq_map (forest : List Content) : forestToJson forest = forest.map toJson := by
  induction forest with
  | nil => rw [forestToJson, List.map_nil]
  | cons n rest ih => rw [forestToJson, List.map_cons, ih]

mutual

/-- What is printed of a node has no numbers in it at all, so it is `Integral`. -/
theorem toJson_integral : ∀ c : Content, c.toJson.Integral
  | .text s => by
    rw [toJson]
    exact ⟨trivial, trivial, trivial⟩
  | .conditional c t e => by
    rw [toJson]
    exact ⟨trivial, forestToJson_integral c, forestToJson_integral t, forestToJson_integral e,
      trivial⟩

theorem forestToJson_integral : ∀ forest : List Content,
    Value.ItemsIntegral (forestToJson forest)
  | [] => by
    rw [forestToJson]
    trivial
  | n :: rest => by
    rw [forestToJson]
    exact ⟨toJson_integral n, forestToJson_integral rest⟩

end

/-- The members of a node besides its tag, as `toJson` prints them. -/
def fields : Content → List (String × Value)
  | .text s => [("text", .string s)]
  | .conditional c t e =>
    [("condition", .array (forestToJson c)), ("then", .array (forestToJson t)),
      ("else", .array (forestToJson e))]

/-- The name of a `Kind` where it is stored, which is not the word that addresses have for it. -/
def tagOf : Kind → String
  | .text => "TEXT"
  | .conditional => "IF"

/-- `toJson` prints a node with its tag first and its `fields` behind it, in the form in which
`TaggedUnion.ofMembers_cons` reads a union. -/
theorem toJson_eq (c : Content) :
    c.toJson = .object ((union.tagKey, .string (tagOf c.kind)) :: c.fields) := by
  cases c with
  | text s => rw [toJson, fields, kind, tagOf, union]
  | conditional c t e => rw [toJson, fields, kind, tagOf, union]

/-- The reader of the union knows the kind by the name that is printed. -/
theorem ofName_tagOf (k : Kind) : union.ofName (tagOf k) = .ok k := by
  cases k with
  | text => rfl
  | conditional => rfl

/-- No field of a node has the key of the tag, so there is one tag in what is printed. -/
theorem fields_ne_tagKey (c : Content) : ∀ m ∈ c.fields, m.1 ≠ union.tagKey := by
  have hkeys : ∀ key ∈ ["text", "condition", "then", "else"], key ≠ union.tagKey := by decide
  intro m hm
  refine hkeys m.1 ?_
  cases c with
  | text s =>
    rw [fields, List.mem_singleton] at hm
    rw [hm]
    exact List.mem_cons_self
  | conditional c t e =>
    refine List.mem_cons_of_mem _ ?_
    exact List.mem_map_of_mem (f := Prod.fst) hm

mutual

/-- What is printed of a node is one way to write it, so all that is said of what is `Written` holds
of it.  It is the one with all fields given, under their own names and in their order. -/
theorem toJson_written : ∀ c : Content, Written c c.toJson
  | .text s => by
    rw [toJson]
    exact .text rfl .given
  | .conditional c t e => by
    rw [toJson]
    exact .conditional rfl (.given (.array (forestToJson_written c)))
      (.given (.array (forestToJson_written t))) (.given (.array (forestToJson_written e)))

/-- What is printed of a forest is one way to write it, and its nodes are `Written`. -/
theorem forestToJson_written : ∀ forest : List Content,
    NodesWritten forest (forestToJson forest)
  | [] => by
    rw [forestToJson]
    exact .nil
  | n :: rest => by
    rw [forestToJson]
    exact .cons (toJson_written n) (forestToJson_written rest)

end

/-- A node inside so many conditionals, each time in the `condition`. -/
def inside : Nat → Content → Content
  | 0, c => c
  | n + 1, c => .conditional [inside n c] [] []

/-! ## Reading a printed forest -/

/-- A printed node opens one bracket more than the deepest of its `fields`. -/
theorem depth_toJson (c : Content) : c.toJson.depth = Value.membersDepth c.fields + 1 := by
  rw [toJson_eq, Value.depth, Value.membersDepth, Value.depth.eq_def]
  dsimp only
  rw [Nat.zero_max]

/-- A printed node in the text has the `outcome` that it is the node, unless it nests too deep.
Either way this is what `bounded` gives, which is how the reader treats whole lists of nodes. -/
theorem outcome_toJson (depth : Nat) (c : Content) :
    outcome depth c.toJson = bounded toJson (depth + 1) c := by
  rw [bounded]
  by_cases hdepth : c.toJson.depth ≤ depth + 1
  · rw [if_pos hdepth, (toJson_written c).outcome hdepth]
  · have hfields : ¬ Value.membersDepth c.fields ≤ depth := by
      rw [depth_toJson] at hdepth
      omega
    rw [if_neg hdepth, toJson_eq, outcome, TaggedUnion.outcome,
      union.ofMembers_cons (ofName_tagOf c.kind) c.fields_ne_tagKey, if_neg hfields]
    rfl

/-- A printed forest is read from any source that `Holds` it, unless it nests too deep. -/
theorem parse_holds {forest : List Content} {source : String}
    (h : Holds source (.array (forestToJson forest))) :
    parse source =
      if (Value.array (forestToJson forest)).depth ≤ nestingLimit then .ok forest
      else .error .badToken := by
  have houtcome : outcome (nestingLimit - 2) ∘ toJson = bounded toJson (nestingLimit - 1) :=
    funext (outcome_toJson (nestingLimit - 2))
  -- The forest has opened the first bracket, so its nodes may open one less.
  have hlimit : Value.itemsDepth (forest.map toJson) ≤ nestingLimit - 1 ↔
      Value.itemsDepth (forest.map toJson) + 1 ≤ nestingLimit :=
    Nat.le_sub_iff_add_le (by decide)
  rw [parse_array h, Value.depth, forestToJson_eq_map, List.mapM_map, houtcome, mapM_bounded]
  simp only [hlimit]

end Content

/-! ## How deep a tree is

Both bounds go along the walk.  `depth` conditionals stand around the forest in
question, and its brackets are counted from there. -/

namespace Node

/-- How many brackets a stored forest opens, without its own: the `itemsDepth` of what is
printed. -/
def brackets (forest : List Node) : Nat :=
  Value.itemsDepth (Content.forestToJson (contents forest))

/-- A `text` opens one bracket, for its members.  Its string opens none, whatever it looks like. -/
theorem depth_text (a : Address) (f : Fingerprint) (s : String) :
    (content (.text a f s)).toJson.depth = 1 := by
  rw [content, Content.toJson]
  rfl

/-- A `conditional` opens two brackets around its branches: one for its members, and one for each of
the three forests. -/
theorem depth_conditional (a : Address) (c t e : List Node) :
    (content (.conditional a c t e)).toJson.depth =
      max (brackets c) (max (brackets t) (brackets e)) + 2 := by
  rw [content, Content.depth_toJson, Content.fields]
  simp only [Value.membersDepth, Value.depth, brackets]
  omega

/-- A forest opens as many `brackets` as the deepest of its nodes, the first or one of the
others. -/
theorem brackets_cons (n : Node) (rest : List Node) :
    brackets (n :: rest) = max n.content.toJson.depth (brackets rest) := by
  rw [brackets, contents, Content.forestToJson, Value.itemsDepth, brackets]

mutual

/-- No node in the `walk` of another is deeper than the brackets of the other allow: a conditional
is worth two brackets, and the node itself has at least one. -/
theorem le_depth_of_mem_walk {depth : Nat} {v : Nat × Node} : ∀ n : Node, v ∈ n.walk depth →
    2 * v.1 + 1 ≤ 2 * depth + n.content.toJson.depth
  | .text a f s, h => by
    rw [walk, List.mem_singleton] at h
    rw [depth_text]
    subst h
    exact Nat.le_refl _
  | .conditional a c t e, h => by
    rw [walk, List.mem_cons, List.mem_append, List.mem_append] at h
    rw [depth_conditional]
    rcases h with rfl | (h | h) | h
    · dsimp only
      omega
    · have hle := le_brackets_of_mem_walk c h
      omega
    · have hle := le_brackets_of_mem_walk t h
      omega
    · have hle := le_brackets_of_mem_walk e h
      omega

/-- No node in the `walk` of a forest is deeper than the `brackets` of the forest allow. -/
theorem le_brackets_of_mem_walk {depth : Nat} {v : Nat × Node} :
    ∀ forest : List Node, v ∈ walkForest depth forest →
      2 * v.1 + 1 ≤ 2 * depth + brackets forest
  | [], h => by
    rw [walkForest] at h
    exact absurd h List.not_mem_nil
  | n :: rest, h => by
    rw [walkForest, List.mem_append] at h
    rw [brackets_cons]
    rcases h with h | h
    · have hle := le_depth_of_mem_walk n h
      omega
    · have hle := le_brackets_of_mem_walk rest h
      omega

end

/-- A text that is as deep as the `brackets` of its forest is one of its first node or one of the
others. -/
theorem exists_brackets_eq_cons {depth : Nat} {n : Node} {rest : List Node}
    (hn : ∃ v ∈ n.walk depth, v.2.kind = .text ∧
      2 * v.1 + 1 = 2 * depth + n.content.toJson.depth)
    (hrest : rest = [] ∨ ∃ v ∈ walkForest depth rest, v.2.kind = .text ∧
      2 * v.1 + 1 = 2 * depth + brackets rest) :
    ∃ v ∈ walkForest depth (n :: rest), v.2.kind = .text ∧
      2 * v.1 + 1 = 2 * depth + brackets (n :: rest) := by
  rw [walkForest, brackets_cons]
  obtain ⟨v, hv, htext, hdepth⟩ := hn
  by_cases hmax : brackets rest ≤ n.content.toJson.depth
  · exact ⟨v, List.mem_append_left _ hv, htext, by omega⟩
  · rcases hrest with rfl | ⟨w, hw, hwtext, hwdepth⟩
    · exact absurd (Nat.zero_le _) hmax
    · exact ⟨w, List.mem_append_right _ hw, hwtext, by omega⟩

mutual

/-- Some text at or below a `Placed` node is as deep as the brackets of the node allow.  With
`le_depth_of_mem_walk` this makes the depth of the deepest text and the number of brackets tell the
same. -/
theorem exists_depth_eq {path : Address} {index : Nat} (depth : Nat) :
    ∀ n : Node, Placed path index n →
    ∃ v ∈ n.walk depth, v.2.kind = .text ∧ 2 * v.1 + 1 = 2 * depth + n.content.toJson.depth
  | .text a f s, _ => by
    rw [walk, depth_text]
    exact ⟨_, List.mem_singleton_self _, rfl, rfl⟩
  | .conditional a c t e, h => by
    rw [Placed] at h
    obtain ⟨-, hc, ht, he⟩ := h
    rw [walk, depth_conditional]
    -- The branch with the most `brackets` holds the text; none of the three is empty.
    have hmax : max (brackets c) (max (brackets t) (brackets e)) = brackets c ∨
        max (brackets c) (max (brackets t) (brackets e)) = brackets t ∨
        max (brackets c) (max (brackets t) (brackets e)) = brackets e := by
      omega
    rcases hmax with hmax | hmax | hmax
    · obtain ⟨v, hv, htext, hdepth⟩ := exists_brackets_eq (depth + 1) c hc
      refine ⟨v, ?_, htext, by omega⟩
      exact List.mem_cons_of_mem _ (List.mem_append_left _ (List.mem_append_left _ hv))
    · obtain ⟨v, hv, htext, hdepth⟩ := exists_brackets_eq (depth + 1) t ht
      refine ⟨v, ?_, htext, by omega⟩
      exact List.mem_cons_of_mem _ (List.mem_append_left _ (List.mem_append_right _ hv))
    · obtain ⟨v, hv, htext, hdepth⟩ := exists_brackets_eq (depth + 1) e he
      refine ⟨v, ?_, htext, by omega⟩
      exact List.mem_cons_of_mem _ (List.mem_append_right _ hv)

/-- Some text of a `WellFormed` forest is as deep as its `brackets` allow.  A forest without nodes
would have none, which is why well-formedness is needed. -/
theorem exists_brackets_eq {path : Address} (depth : Nat) :
    ∀ forest : List Node, WellFormed path forest →
      ∃ v ∈ walkForest depth forest, v.2.kind = .text ∧ 2 * v.1 + 1 = 2 * depth + brackets forest
  | [], h => by
    rw [WellFormed] at h
    exact h.elim
  | n :: rest, h => by
    rw [WellFormed] at h
    obtain ⟨hn, hrest⟩ := h
    exact exists_brackets_eq_cons (exists_depth_eq depth n hn)
      (exists_brackets_eq_from depth rest hrest)

theorem exists_brackets_eq_from {path : Address} {index : Nat} (depth : Nat) :
    ∀ forest : List Node, PlacedFrom path index forest → forest = [] ∨
      ∃ v ∈ walkForest depth forest, v.2.kind = .text ∧ 2 * v.1 + 1 = 2 * depth + brackets forest
  | [], _ => .inl rfl
  | n :: rest, h => by
    rw [PlacedFrom] at h
    obtain ⟨hn, hrest⟩ := h
    exact .inr (exists_brackets_eq_cons (exists_depth_eq depth n hn)
      (exists_brackets_eq_from depth rest hrest))

end

end Node

/-! ## Templates -/

namespace Template

/-- Every text in the `walk` stands inside at most sixty-two conditionals. -/
def Storable (t : Template) : Prop :=
  ∀ v ∈ t.walk, v.2.kind = .text → v.1 ≤ 62

instance (t : Template) : Decidable t.Storable :=
  inferInstanceAs (Decidable (∀ v ∈ t.walk, v.2.kind = .text → v.1 ≤ 62))

/-- A well-formed template is `Storable` exactly if its `brackets` are no more than the reader
allows. -/
theorem storable_iff {t : Template} (h : t.WellFormed) :
    t.Storable ↔ Node.brackets t.nodes < nestingLimit := by
  -- The deepest text decides for all, and its brackets are odd in number.
  obtain ⟨v, hv, htext, hdepth⟩ := Node.exists_brackets_eq 0 t.nodes h
  rw [nestingLimit]
  constructor
  · intro hstorable
    have hle := hstorable v hv htext
    omega
  · intro hlt w hw _
    have hle := Node.le_brackets_of_mem_walk t.nodes hw
    omega

/-- Reading any source that `Holds` the stored form of a well-formed template gives the template
back if it is `Storable`, and is refused for its brackets if it is not. -/
theorem parse_holds {t : Template} (h : t.WellFormed) {source : String}
    (hsource : Holds source (.array (Content.forestToJson t.contents))) :
    (t.Storable → parse source = .ok t) ∧ (¬ t.Storable → parse source = .error .badToken) := by
  have hparse := Content.parse_holds hsource
  have hdepth : (Value.array (Content.forestToJson t.contents)).depth ≤ nestingLimit ↔
      t.Storable := by
    rw [storable_iff h, Value.depth]
    exact Nat.succ_le_iff
  constructor
  · intro hstorable
    rw [if_pos (hdepth.mpr hstorable)] at hparse
    rw [parse, hparse]
    exact congrArg Except.ok (ofContents_contents h)
  · intro hdeep
    rw [if_neg (mt hdepth.mp hdeep)] at hparse
    rw [parse, hparse]
    rfl

/-- What is stored of a template has no numbers in it, so its texts are spellings that hold it. -/
theorem contents_integral (t : Template) :
    (Value.array (Content.forestToJson t.contents)).Integral :=
  Content.forestToJson_integral t.contents

/-- Reading the `source`, which is what is saved of a template, by `parse_holds` for the compact
text. -/
theorem parse_source {t : Template} (h : t.WellFormed) :
    (t.Storable → parse t.source = .ok t) ∧ (¬ t.Storable → parse t.source = .error .badToken) :=
  parse_holds h (holds_compact t.contents_integral)

/-- Reading the `indentedSource`, which is what is written for a new project, by `parse_holds` for
the indented text. -/
theorem parse_indentedSource {t : Template} (h : t.WellFormed) :
    (t.Storable → parse t.indentedSource = .ok t) ∧
      (¬ t.Storable → parse t.indentedSource = .error .badToken) :=
  parse_holds h (holds_indented t.contents_integral)

/-- Storing, be it as `source` or as `indentedSource`, loses nothing of a template whose texts are
not too deep, and what is stored of any other cannot be read. -/
theorem parse_stored {t : Template} (h : t.WellFormed) :
    ((∀ v ∈ t.walk, v.2.kind = .text → v.1 ≤ 62) →
      parse t.source = .ok t ∧ parse t.indentedSource = .ok t) ∧
    ((∃ v ∈ t.walk, v.2.kind = .text ∧ 63 ≤ v.1) →
      parse t.source = .error .badToken ∧ parse t.indentedSource = .error .badToken) := by
  constructor
  · intro hstorable
    exact ⟨(parse_source h).1 hstorable, (parse_indentedSource h).1 hstorable⟩
  · rintro ⟨v, hv, htext, hdeep⟩
    have hnot : ¬ t.Storable := fun hstorable => absurd (hstorable v hv htext) (by omega)
    exact ⟨(parse_source h).2 hnot, (parse_indentedSource h).2 hnot⟩

/-- One conditional more makes the difference. -/
theorem parse_stored_inside :
    let t := ofContents [Content.inside 62 (.text "\"\n\x01é")]
    let deeper := ofContents [Content.inside 63 (.text "\"\n\x01é")]
    parse t.source = .ok t ∧ parse t.indentedSource = .ok t ∧
      parse deeper.source = .error .badToken ∧ parse deeper.indentedSource = .error .badToken := by
  intro t deeper
  obtain ⟨hsource, hindented⟩ := (parse_stored (ofContents_wellFormed _)).1
    (by decide +kernel : t.Storable)
  obtain ⟨hdeeper, hdeeperIndented⟩ := (parse_stored (ofContents_wellFormed _)).2
    (by decide +kernel : ∃ v ∈ deeper.walk, v.2.kind = .text ∧ 63 ≤ v.1)
  exact ⟨hsource, hindented, hdeeper, hdeeperIndented⟩

end Template

end MessageTemplate
