/-
Which texts hold a stored forest.

A node may be written in many ways (`Written`).  Its members stand in any order and the tag among
them anywhere; a branch goes by either of its keys; what is empty may be written out, written as
null or left out; and members that the node does not know may hold anything.  All of these ways are
read as the node they stand for.  On the other hand there are flaws that no text is forgiven,
however deep in the forest they are (`Flawed`).

Two readers meet here.  The nodes of the outermost forest are read from the text, and those inside
them from plain values that were kept.  What a node comes to is told for both by the same conditions
on its members, so all that is said of the plain values holds of the text as well, but for the
depth: only the reader of the text counts the brackets (`ofValue_of_outcome`).
-/
import MessageTemplate.Proofs.Json.Printing
import MessageTemplate.Proofs.Json.Records
import MessageTemplate.Proofs.Tree.Members

set_option autoImplicit false

namespace MessageTemplate

open Json

namespace Content

/-! ## Ways to write a forest -/

/-- The text of a `text` node among the members that give it.  What is empty may be left out or
null. -/
inductive TextWritten : String → List (String × Value) → Prop
  | omitted : TextWritten "" []
  | null {key : String} : TextWritten "" [(key, .null)]
  | given {key s : String} : TextWritten s [(key, .string s)]

mutual

/-- An object that stands for this node, `Content`.  Nothing is said of the order of its members,
nor of those that are neither the tag nor a field of the node. -/
inductive Written : Content → Value → Prop
  | text {s : String} {members : List (String × Value)} :
    givenBy ["type"] members = [("type", .string "TEXT")] →
      TextWritten s (givenBy ["text"] members) → Written (.text s) (.object members)
  | conditional {c t e : List Content} {members : List (String × Value)} :
    givenBy ["type"] members = [("type", .string "IF")] →
      BranchWritten c (givenBy (branchKeys .condition) members) →
        BranchWritten t (givenBy (branchKeys .consequent) members) →
          BranchWritten e (givenBy (branchKeys .alternative) members) →
            Written (.conditional c t e) (.object members)

/-- A `Branch` among the members that give it, under either of its keys. -/
inductive BranchWritten : List Content → List (String × Value) → Prop
  | omitted : BranchWritten [] []
  | given {forest : List Content} {key : String} {v : Value} :
    ForestWritten forest v → BranchWritten forest [(key, v)]

/-- A value that stands for this forest: an array of its nodes (`NodesWritten`), or `null` for an
empty one. -/
inductive ForestWritten : List Content → Value → Prop
  | null : ForestWritten [] .null
  | array {forest : List Content} {items : List Value} :
    NodesWritten forest items → ForestWritten forest (.array items)

/-- Values that stand for the nodes one by one, each `Written`. -/
inductive NodesWritten : List Content → List Value → Prop
  | nil : NodesWritten [] []
  | cons {c : Content} {v : Value} {rest : List Content} {items : List Value} :
    Written c v → NodesWritten rest items → NodesWritten (c :: rest) (v :: items)

end

/-- A `TextWritten` text is given once at most (`Sole`), and the text is what it comes to. -/
theorem TextWritten.sole {s : String} {members : List (String × Value)}
    (h : TextWritten s members) : ∃ given, Sole textOf none members given ∧ given.getD "" = s := by
  cases h with
  | omitted => exact ⟨none, .kept, rfl⟩
  | null => exact ⟨some "", .given rfl, rfl⟩
  | given => exact ⟨some s, .given rfl, rfl⟩

/-- A `BranchWritten` branch is given once at most (`Sole`), and the forest is what it comes to if
its nodes are. -/
theorem BranchWritten.sole {forest : List Content} {members : List (String × Value)}
    (h : BranchWritten forest members)
    (hnodes : ∀ items, NodesWritten forest items → nodesOf items = .ok forest) :
    ∃ given, Sole forestOf none members given ∧ given.getD [] = forest := by
  cases h with
  | omitted => exact ⟨none, .kept, rfl⟩
  | given hforest =>
    refine ⟨some forest, .given ?_, rfl⟩
    cases hforest with
    | null => rfl
    | array hitems => exact hnodes _ hitems

mutual

/-- The members of a `Written` node name its kind once and come to the node. -/
theorem Written.members : ∀ {c : Content} {v : Value}, Written c v →
    ∃ members, v = .object members ∧
      Sole union.ofTagName none (givenBy [union.tagKey] members) (some c.kind) ∧
        ofParts c.kind (.fields members) = .ok c
  | .text s, _, @Written.text _ members htag htext => by
    obtain ⟨given, hgiven, rfl⟩ := htext.sole
    refine ⟨members, rfl, ?_, ofParts_text_eq_ok.mpr ⟨given, hgiven, rfl⟩⟩
    rw [show union.tagKey = "type" from rfl, htag]
    exact .given rfl
  | .conditional c t e, _, @Written.conditional _ _ _ members htag hc ht he => by
    -- All three branches are forests of plain values, at whatever depth the node stands.
    obtain ⟨givenC, hgivenC, hcEq⟩ := hc.sole fun _ => NodesWritten.nodesOf
    obtain ⟨givenT, hgivenT, htEq⟩ := ht.sole fun _ => NodesWritten.nodesOf
    obtain ⟨givenE, hgivenE, heEq⟩ := he.sole fun _ => NodesWritten.nodesOf
    refine ⟨members, rfl, ?_, ofParts_conditional_eq_ok.mpr ⟨⟨givenC, givenT, givenE⟩, ?_, ?_⟩⟩
    · rw [show union.tagKey = "type" from rfl, htag]
      exact .given rfl
    · intro b
      cases b with
      | condition => exact hgivenC
      | consequent => exact hgivenT
      | alternative => exact hgivenE
    · rw [Branches.node, hcEq, htEq, heEq]

/-- `nodesOf` reads values that stand for nodes as these nodes where they have been kept. -/
theorem NodesWritten.nodesOf : ∀ {forest : List Content} {items : List Value},
    NodesWritten forest items → nodesOf items = .ok forest
  | [], _, .nil => rfl
  | c :: rest, _, .cons hc hrest => by
    obtain ⟨members, rfl, htag, hparts⟩ := hc.members
    have hvalue : ofValue (.object members) = .ok c :=
      ofValue_object_eq_ok.mpr ⟨c.kind, htag.imp fun _ _ _ => union.ofTagValue_of_ofTagName, hparts⟩
    rw [Content.nodesOf, hvalue, hrest.nodesOf]

end

/-! ## Flaws -/

/-- A value that names this `Kind` in a node that was kept: its name, or its position. -/
inductive Tags : Kind → Value → Prop
  | text : Tags .text (.string "TEXT")
  | conditional : Tags .conditional (.string "IF")
  | first : Tags .text (.number (.natural 0))
  | second : Tags .conditional (.number (.natural 1))

/-- Some member, under the key of the tag, names this kind (`Tags`). -/
def Tagged (k : Kind) (members : List (String × Value)) : Prop :=
  ∃ tag, ("type", tag) ∈ members ∧ Tags k tag

/-- Values that no node (`ofValue`) is read from: the tag of an object is missing, repeated or
unknown, or one of the fields of its kind is given twice or holds what it cannot hold, or such a
value stands in a branch of it. -/
inductive Flawed : Value → Prop
  | untagged {members : List (String × Value)} :
    givenBy ["type"] members = [] → Flawed (.object members)
  | retagged {members : List (String × Value)} :
    2 ≤ (givenBy ["type"] members).length → Flawed (.object members)
  | unknown {members : List (String × Value)} {name : String} :
    ("type", .string name) ∈ members → name ≠ "TEXT" → name ≠ "IF" → Flawed (.object members)
  | repeated {members : List (String × Value)} {k : Kind} {keys : List String} :
    Tagged k members → keys ∈ fieldKeys k → 2 ≤ (givenBy keys members).length →
      Flawed (.object members)
  | text {members : List (String × Value)} {v : Value} :
    Tagged .text members → ("text", v) ∈ members → v ≠ .null → (∀ s, v ≠ .string s) →
      Flawed (.object members)
  | branch {members : List (String × Value)} {b : Branch} {key : String} {v : Value} :
    Tagged .conditional members → key ∈ branchKeys b → (key, v) ∈ members → v ≠ .null →
      (∀ items, v ≠ .array items) → Flawed (.object members)
  | inside {members : List (String × Value)} {b : Branch} {key : String} {items : List Value}
    {v : Value} :
    Tagged .conditional members → key ∈ branchKeys b → (key, .array items) ∈ members →
      v ∈ items → Flawed v → Flawed (.object members)
  | insideOrdered {tag : Value} {parts items : List Value} {v : Value} :
    Tags .conditional tag → .array items ∈ parts → v ∈ items → Flawed v →
      Flawed (.array (tag :: parts))

theorem Tags.ofTagValue {k : Kind} {tag : Value} (h : Tags k tag) :
    union.ofTagValue tag = .ok k := by
  cases h <;> rfl

/-- A node that `ofParts` accepts is of the kind that its tag names. -/
theorem Tagged.ofParts {k : Kind} {members : List (String × Value)} {c : Content}
    (h : Tagged k members) (hc : ofValue (.object members) = .ok c) :
    ofParts k (.fields members) = .ok c := by
  obtain ⟨tag, hmem, hkind⟩ := h
  obtain ⟨k', htag, hparts⟩ := ofValue_object_eq_ok.mp hc
  obtain ⟨found, hfound, heq⟩ := htag.judged (mem_givenBy.mpr ⟨hmem, List.mem_singleton_self _⟩)
  rw [hkind.ofTagValue, Except.ok.injEq] at hfound
  rw [Option.some.injEq, ← hfound] at heq
  rwa [heq] at hparts

theorem ofName_unknown {name : String} {k : Kind} (htext : name ≠ "TEXT") (hif : name ≠ "IF") :
    union.ofName name ≠ .ok k := by
  have hlookup : union.kinds.lookup name = none := by
    rw [List.lookup_eq_none_iff]
    simp [union, htext, hif]
  rw [TaggedUnion.ofName, kindNamed, hlookup]
  intro h
  cases h

/-- Each field of a node that `ofParts` accepts is given at most once. -/
theorem length_givenBy_le {k : Kind} {members : List (String × Value)} {c : Content}
    {keys : List String} (h : ofParts k (.fields members) = .ok c) (hkeys : keys ∈ fieldKeys k) :
    (givenBy keys members).length ≤ 1 := by
  cases k with
  | text =>
    obtain ⟨given, hgiven, -⟩ := ofParts_text_eq_ok.mp h
    rw [fieldKeys, List.mem_singleton] at hkeys
    rw [hkeys]
    exact hgiven.length_le
  | conditional =>
    obtain ⟨s, hs, -⟩ := ofParts_conditional_eq_ok.mp h
    obtain ⟨b, -, rfl⟩ := List.mem_map.mp hkeys
    exact (hs b).length_le

/-- What a branch of a node that `ofParts` accepts holds is a forest. -/
theorem forestOf_of_ofParts {members : List (String × Value)} {c : Content} {b : Branch}
    {key : String} {v : Value} (h : ofParts .conditional (.fields members) = .ok c)
    (hkey : key ∈ branchKeys b) (hmem : (key, v) ∈ members) :
    ∃ forest, forestOf v = .ok forest := by
  obtain ⟨s, hs, -⟩ := ofParts_conditional_eq_ok.mp h
  obtain ⟨forest, hforest, -⟩ := (hs b).judged (mem_givenBy.mpr ⟨hmem, hkey⟩)
  exact ⟨forest, hforest⟩

/-- Every item of a forest that `forestOf` accepts is a node. -/
theorem ofValue_of_mem {items : List Value} {v : Value} {forest : List Content}
    (h : forestOf (.array items) = .ok forest) (hv : v ∈ items) : ∃ c, ofValue v = .ok c := by
  rw [forestOf, nodesOf_eq_mapM] at h
  exact Outcome.exists_of_mapM_eq_ok items h hv

/-- No node is read from a `Flawed` value.  The induction is on where the flaw is: it is in the node
itself, or in a node of one of its branches, which is no forest then. -/
theorem Flawed.ofValue_ne_ok {v : Value} (h : Flawed v) : ∀ c, ofValue v ≠ .ok c := by
  induction h with
  | untagged hnone =>
    intro c hc
    obtain ⟨k, htag, -⟩ := ofValue_object_eq_ok.mp hc
    rw [show union.tagKey = "type" from rfl, hnone, sole_nil] at htag
    cases htag
  | retagged htwice =>
    intro c hc
    obtain ⟨k, htag, -⟩ := ofValue_object_eq_ok.mp hc
    have hle := htag.length_le
    rw [show union.tagKey = "type" from rfl] at hle
    omega
  | unknown hmem htext hif =>
    intro c hc
    obtain ⟨k, htag, -⟩ := ofValue_object_eq_ok.mp hc
    obtain ⟨k', hk', -⟩ := htag.judged (mem_givenBy.mpr ⟨hmem, List.mem_singleton_self _⟩)
    exact ofName_unknown htext hif hk'
  | repeated htagged hkeys htwice =>
    intro c hc
    have hle := length_givenBy_le (htagged.ofParts hc) hkeys
    omega
  | @text members v htagged hmem hnull hstring =>
    intro c hc
    obtain ⟨given, hgiven, -⟩ := ofParts_text_eq_ok.mp (htagged.ofParts hc)
    obtain ⟨s, hs, -⟩ := hgiven.judged (mem_givenBy.mpr ⟨hmem, List.mem_singleton_self _⟩)
    cases v with
    | null => exact hnull rfl
    | string s => exact hstring s rfl
    | _ => cases hs
  | @branch members b key v htagged hkey hmem hnull harray =>
    intro c hc
    obtain ⟨forest, hforest⟩ := forestOf_of_ofParts (htagged.ofParts hc) hkey hmem
    cases v with
    | null => exact hnull rfl
    | array items => exact harray items rfl
    | _ => cases hforest
  | inside htagged hkey hmem hv _ ih =>
    -- The branch would be a forest, and the flawed value one of its nodes.
    intro c hc
    obtain ⟨forest, hforest⟩ := forestOf_of_ofParts (htagged.ofParts hc) hkey hmem
    obtain ⟨n, hn⟩ := ofValue_of_mem hforest hv
    exact ih n hn
  | insideOrdered htag hmem hv _ ih =>
    intro c hc
    obtain ⟨k, hk, hparts⟩ := ofValue_array_eq_ok.mp hc
    rw [htag.ofTagValue, Except.ok.injEq] at hk
    subst hk
    obtain ⟨s, hs, -⟩ := Outcome.map_eq_ok.mp hparts
    obtain ⟨forest, hforest⟩ := forestOf_of_branchItems _ hs hmem
    obtain ⟨n, hn⟩ := ofValue_of_mem hforest hv
    exact ih n hn

/-! ## Nodes in the text -/

/-- What a `Value` comes to where a node is asked for in the text, if so many brackets may be open
inside it. -/
def outcome (depth : Nat) (v : Value) : Except Fault Content := do
  let (kind, parts) ← union.outcome depth v
  (ofParts kind parts).mapError .mismatch

theorem read_outcome (depth : Nat) {v : Value} {text : List Char} (h : Spelled v text) :
    Answers (read (depth + 1)) text (outcome depth v) := by
  intro gap rest hgap hrest
  rw [read, outcome]
  refine Reader.bind_map (union.read_spelled depth h gap rest hgap hrest) fun found => ?_
  obtain ⟨kind, parts⟩ := found
  exact accept_apply (ofParts kind parts) rest

/-- An object in the text has a node for its `outcome` exactly if one member names its kind, the
fields come to a node of that kind, and no member nests too deep. -/
theorem outcome_object_eq_ok {depth : Nat} {members : List (String × Value)} {c : Content} :
    outcome depth (.object members) = .ok c ↔
      ∃ k, Sole union.ofTagName none (givenBy [union.tagKey] members) (some k) ∧
        Value.membersDepth (besides [union.tagKey] members) ≤ depth ∧
        ofParts k (.fields members) = .ok c := by
  rw [outcome, Outcome.bind_eq_ok]
  constructor
  · rintro ⟨⟨k, parts⟩, hfound, hparts⟩
    obtain ⟨htag, hdepth, rfl⟩ := union.ofMembers_eq_ok.mp hfound
    exact ⟨k, htag, hdepth, ofParts_besides.mp (Outcome.mapError_eq_ok.mp hparts)⟩
  · rintro ⟨k, htag, hdepth, hparts⟩
    refine ⟨⟨k, _⟩, union.ofMembers_eq_ok.mpr ⟨htag, hdepth, rfl⟩, ?_⟩
    exact Outcome.mapError_eq_ok.mpr (ofParts_besides.mpr hparts)

/-- A node of the text would be the same node inside another one, where `ofValue` reads it. -/
theorem ofValue_of_outcome {depth : Nat} {v : Value} {c : Content} (h : outcome depth v = .ok c) :
    ofValue v = .ok c := by
  cases v with
  | object members =>
    obtain ⟨k, htag, -, hparts⟩ := outcome_object_eq_ok.mp h
    have htag' := htag.imp fun _ _ _ => union.ofTagValue_of_ofTagName
    exact ofValue_object_eq_ok.mpr ⟨k, htag', hparts⟩
  | array items =>
    obtain ⟨⟨k, parts⟩, hfound, hparts⟩ := Outcome.bind_eq_ok.mp h
    cases items with
    | nil => exact absurd hfound nofun
    | cons tag rest =>
      obtain ⟨htag, -, rfl⟩ := union.ofItems_cons_eq_ok.mp hfound
      have htag' := union.ofTagValue_of_ofTagName htag
      exact ofValue_array_eq_ok.mpr ⟨k, htag', Outcome.mapError_eq_ok.mp hparts⟩
  | _ => exact absurd h nofun

/-- A `Written` node that does not nest too deep is read from the text as the node. -/
theorem Written.outcome {depth : Nat} {c : Content} {v : Value} (h : Written c v)
    (hdepth : v.depth ≤ depth + 1) : outcome depth v = .ok c := by
  obtain ⟨members, rfl, htag, hparts⟩ := h.members
  rw [Value.depth, Nat.add_le_add_iff_right, membersDepth_le] at hdepth
  have hbesides : Value.membersDepth (besides [union.tagKey] members) ≤ depth :=
    membersDepth_le.mpr fun m hm => hdepth m (mem_besides.mp hm).1
  exact outcome_object_eq_ok.mpr ⟨c.kind, htag, hbesides, hparts⟩

theorem NodesWritten.mapM_outcome {depth : Nat} : ∀ {forest : List Content} {items : List Value},
    NodesWritten forest items → (∀ v ∈ items, v.depth ≤ depth + 1) →
      items.mapM (Content.outcome depth) = .ok forest
  | [], _, .nil, _ => rfl
  | c :: rest, _, .cons hc hrest, hdepth => by
    obtain ⟨hhead, htail⟩ := List.forall_mem_cons.mp hdepth
    rw [List.mapM_cons, hc.outcome hhead, hrest.mapM_outcome htail]
    rfl

/-- If the `outcome` of a value that does not nest too deep is a refusal, it is one for the sake of
its data (`DataOnly`). -/
theorem dataOnly_outcome {depth : Nat} {v : Value} (h : v.depth ≤ depth + 1) :
    DataOnly (outcome depth v) :=
  (union.dataOnly_outcome h).bind fun _ _ => dataOnly_mapError _

/-! ## Whole texts -/

theorem parse_null {source : String} (h : Holds source .null) : parse source = .ok [] := by
  refine h.decode fun text htext => ?_
  cases htext with
  | null =>
    intro gap rest hgap hrest
    rw [readForest, Reader.bind_ok (peekWord_begins hgap rfl (by decide) rest), if_pos rfl,
      Reader.bind_ok (literal_append _ rest)]
    rfl

/-- A source with an array gives the forest of its items, each by its `outcome`.  The forest opens
the first bracket and each node one more. -/
theorem parse_array {source : String} {items : List Value} (h : Holds source (.array items)) :
    parse source = items.mapM (outcome (nestingLimit - 2)) := by
  refine h.decode fun text htext => ?_
  cases htext with
  | @array _ body hitems =>
    have hsequence : Answers (readSequence (read (nestingLimit - 1))) ('[' :: (body ++ [']']))
        (items.mapM (outcome (nestingLimit - 2))) :=
      hitems.readSequence (fun _ _ hv => hv.begins) fun _ _ hv => read_outcome _ hv
    intro gap rest hgap hrest
    rw [readForest, Reader.bind_ok (peekWord_begins hgap rfl (by decide) rest),
      if_neg (by decide)]
    exact hsequence.apply hrest

/-- A source with an object is refused (`wrongType`), whatever its members are. -/
theorem parse_object {source : String} {members : List (String × Value)}
    (h : Holds source (.object members)) :
    parse source = .error (.mismatch (.wrongType .map .sequence)) := by
  refine h.decode fun text htext => ?_
  have hsequence := htext.readSequence fun v _ hv => read_outcome (nestingLimit - 2) hv
  cases htext with
  | object _ =>
    intro gap rest hgap hrest
    rw [readForest, Reader.bind_ok (peekWord_begins hgap rfl (by decide) rest),
      if_neg (by decide)]
    exact hsequence.apply hrest

/-- An array within the `nestingLimit` has items within what is left when its own bracket is
open. -/
theorem forall_depth_le {items : List Value} (h : (Value.array items).depth ≤ 127) :
    ∀ v ∈ items, v.depth ≤ nestingLimit - 2 + 1 := by
  rw [Value.depth] at h
  have hitems : Value.itemsDepth items ≤ nestingLimit - 2 + 1 := by
    rw [nestingLimit]
    omega
  exact itemsDepth_le.mp hitems

/-- A forest that is `ForestWritten` and does not nest too deep is read as the forest. -/
theorem ForestWritten.parse {source : String} {v : Value} {forest : List Content}
    (h : ForestWritten forest v) (hsource : Holds source v) (hdepth : v.depth ≤ 127) :
    Content.parse source = .ok forest := by
  cases h with
  | null => exact parse_null hsource
  | array hitems => rw [parse_array hsource, hitems.mapM_outcome (forall_depth_le hdepth)]

/-- A source with a `Flawed` item is refused, however deep it nests. -/
theorem Flawed.parse {source : String} {items : List Value} {v : Value} (h : Flawed v)
    (hv : v ∈ items) (hsource : Holds source (.array items)) :
    ∃ fault, Content.parse source = .error fault := by
  rw [parse_array hsource]
  cases hparse : items.mapM (outcome (nestingLimit - 2)) with
  | error fault => exact ⟨fault, rfl⟩
  | ok forest =>
    -- Then the flawed value would be a node of the text, and so one inside another.
    obtain ⟨c, hc⟩ := Outcome.exists_of_mapM_eq_ok items hparse hv
    exact absurd (ofValue_of_outcome hc) (h.ofValue_ne_ok c)

/-- However a forest is written (`ForestWritten`), it is read, and whatever is `Flawed` is refused.
If the brackets are not too many, it is refused for its data. -/
theorem parse_written {source : String} {v : Value} (hsource : Holds source v) :
    (∀ forest, ForestWritten forest v → v.depth ≤ 127 → parse source = .ok forest) ∧
    (∀ items, v = .array items → (∃ n ∈ items, Flawed n) →
      (∃ fault, parse source = .error fault) ∧
        (v.depth ≤ 127 → ∃ cause, parse source = .error (.mismatch cause))) := by
  constructor
  · intro forest hforest hdepth
    exact hforest.parse hsource hdepth
  · rintro items rfl ⟨n, hn, hflawed⟩
    obtain ⟨fault, hfault⟩ := hflawed.parse hn hsource
    refine ⟨⟨fault, hfault⟩, fun hdepth => ?_⟩
    have hdata : DataOnly (items.mapM (outcome (nestingLimit - 2))) :=
      dataOnly_mapM items fun v hv => dataOnly_outcome (forall_depth_le hdepth v hv)
    obtain ⟨cause, rfl⟩ := hdata fault (by rw [← parse_array hsource, hfault])
    exact ⟨cause, hfault⟩

/-- A forest with tags between and behind the fields, older keys, nulls and members that mean
nothing here, though they have the names of fields of another kind. -/
def shuffled : Value :=
  .array [
    .object [("thenBranch", .array [.object [("text", .null), ("type", .string "TEXT")]]),
      ("note", .object [("type", .array [])]), ("type", .string "IF"), ("text", .boolean true),
      ("condition", .array [.object [("else", .array [.object [("then", .number (.natural 3)),
        ("text", .string "a\"é"), ("type", .string "TEXT")]]), ("type", .string "IF")]]),
      ("else", .null)],
    .object [("type", .string "TEXT")]]

/-- A node with both keys of one branch, which is one time too many. -/
def doubled : Value :=
  .object [("thenBranch", .null), ("type", .string "IF"), ("then", .null)]

/-- A node that has no flaw itself, with one in a branch. -/
def spoiled : Value :=
  .object [("type", .string "IF"), ("elseBranch", .array [doubled])]

/-- The shuffled forest is read as what it stands for, and a flaw in a branch is found. -/
theorem parse_written_shuffled :
    Holds shuffled.indented shuffled ∧
      ForestWritten [.conditional [.conditional [] [] [.text "a\"é"]] [.text ""] [], .text ""]
        shuffled ∧
      parse shuffled.indented =
        .ok [.conditional [.conditional [] [] [.text "a\"é"]] [.text ""] [], .text ""] ∧
    Holds (Value.array [spoiled]).compact (.array [spoiled]) ∧ Flawed spoiled ∧
      ∃ cause, parse (Value.array [spoiled]).compact = .error (.mismatch cause) := by
  have hholds : Holds shuffled.indented shuffled := by
    refine holds_indented ?_
    simp [shuffled, Value.Integral, Value.ItemsIntegral, Value.MembersIntegral, Number.Integral,
      UInt64.size]
  have hforest : ForestWritten
      [.conditional [.conditional [] [] [.text "a\"é"]] [.text ""] [], .text ""] shuffled := by
    refine .array (.cons (.conditional rfl ?_ ?_ (.given .null)) (.cons (.text rfl .omitted) .nil))
    · refine .given (.array (.cons (.conditional rfl .omitted .omitted ?_) .nil))
      exact .given (.array (.cons (.text rfl .given) .nil))
    · exact .given (.array (.cons (.text rfl .null) .nil))
  have hspoiled : Holds (Value.array [spoiled]).compact (.array [spoiled]) := by
    refine holds_compact ?_
    simp [spoiled, doubled, Value.Integral, Value.ItemsIntegral, Value.MembersIntegral]
  have hdoubled : Flawed doubled := by
    have hkeys : branchKeys .consequent ∈ fieldKeys .conditional := by decide
    exact .repeated ⟨_, by simp, .conditional⟩ hkeys (by decide)
  have hflawed : Flawed spoiled := by
    have hkey : "elseBranch" ∈ branchKeys .alternative := by decide
    exact .inside ⟨_, by simp, .conditional⟩ hkey (List.mem_cons_of_mem _ List.mem_cons_self)
      List.mem_cons_self hdoubled
  have hread := (parse_written hholds).1 _ hforest (by decide)
  have hrefused := (parse_written hspoiled).2 [spoiled] rfl ⟨spoiled, List.mem_cons_self, hflawed⟩
  exact ⟨hholds, hforest, hread, hspoiled, hflawed, hrefused.2 (by decide)⟩

end Content

end MessageTemplate
