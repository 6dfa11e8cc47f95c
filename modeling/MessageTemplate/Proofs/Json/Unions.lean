/-
Reading a union from the text, in whatever form a value is written there.

In an object the tag may stand anywhere among the members and is judged where it stands; the other
members are kept as plain values.  So the outcome is found by going through the members once
(`TaggedUnion.ofMembers`), and what they come to does not depend on how they are spelled.  In an
array the tag comes first and the rest is kept as it stands (`TaggedUnion.ofItems`).  Any other
value is no union.

`read_spelled` puts the three together.  A union without any fields is read as a bare name, which is
a string among the names of its kinds.
-/
import MessageTemplate.Json.Union
import MessageTemplate.Proofs.Json.Reading

set_option autoImplicit false

namespace MessageTemplate.Json

/-- A reader that only judges, by `accept`, takes nothing from the text. -/
theorem accept_apply {α : Type} (answer : Except Mismatch α) (text : List Char) :
    accept answer text = (answer.mapError Fault.mismatch).map fun a => (a, text) := by
  cases answer with
  | ok a => rfl
  | error cause => rfl

theorem Value.membersDepth_append (members more : List (String × Value)) :
    membersDepth (members ++ more) = max (membersDepth members) (membersDepth more) := by
  induction members with
  | nil => rw [List.nil_append, membersDepth, Nat.zero_max]
  | cons m rest ih =>
    obtain ⟨key, v⟩ := m
    rw [List.cons_append, membersDepth, membersDepth, ih, Nat.max_assoc]

namespace TaggedUnion

variable {τ : Type} (u : TaggedUnion τ)

/-- Takes one member as `readMember` does: the tag is judged, another member is kept. -/
def take (depth : Nat) (state : Option τ × List (String × Value)) (m : String × Value) :
    Except Fault (Option τ × List (String × Value)) :=
  if m.1 = u.tagKey then
    if state.1.isSome then .error (.mismatch (.duplicateField u.tagKey))
    else do
      let name ← m.2.stringFor .tag
      let kind ← (u.ofName name).mapError .mismatch
      .ok (some kind, state.2)
  else do
    let read ← keep depth state.2 m
    .ok (state.1, read)

/-- What the members of an object come to where a `TaggedUnion` is asked for, if so many brackets
may be open inside it. -/
def ofMembers (depth : Nat) (members : List (String × Value)) : Except Fault (τ × Parts) := do
  let (tag, read) ← members.foldlM (u.take depth) (none, [])
  match tag with
  | none => .error (.mismatch (.missingField u.tagKey))
  | some kind => .ok (kind, .fields read.reverse)

/-- The reader of members takes each of them as `take` does, if the reader inside has the bound for
its outcome. -/
theorem readMember_takes {depth : Nat} {inner : Reader Value}
    (hinner : ∀ v text, Spelled v text → Answers inner text (within depth v)) :
    TakesMembers Spelled (u.readMember inner) (u.take depth) := by
  intro state key v text gap gap' rest hv hgap hgap' hrest
  obtain ⟨tag, read⟩ := state
  rw [readMember, take]
  dsimp only
  by_cases hkey : key = u.tagKey
  · rw [if_pos hkey, if_pos hkey]
    by_cases htag : tag.isSome = true
    · rw [if_pos htag, if_pos htag]
      rfl
    · rw [if_neg htag, if_neg htag, Reader.bind_ok (colon_append hgap _)]
      refine Reader.bind_map (hv.readString .tag gap' rest hgap' hrest) fun name => ?_
      exact Reader.bind_map (accept_apply (u.ofName name) rest) fun _ => rfl
  -- Any other member is kept as it is in a plain value, and the tag stays as it was.
  · rw [if_neg hkey, if_neg hkey]
    have hread := keepMember_takes hinner read key v text gap gap' rest hv hgap hgap' hrest
    exact Reader.bind_map hread fun _ => rfl

/-- An object is read to what its members come to, `ofMembers`. -/
theorem read_object (depth : Nat) {members : List (String × Value)} {body : List Char}
    (h : Listed (Member Spelled) true members body) :
    Answers (u.read (depth + 1)) ('{' :: (body ++ ['}'])) (u.ofMembers depth members) := by
  intro gap rest hgap hrest
  unfold read
  rw [Reader.bind_ok (peekWord_begins hgap rfl (by decide) rest), List.cons_append,
    List.append_assoc, List.singleton_append]
  change (advance >>= _) _ = _
  have hmembers := h.members
    (fun m _ => (u.readMember_takes fun _ _ hv => hv.value depth).takesKey m.1) (none, []) rest
  rw [Reader.bind_ok (advance_cons _ _), ofMembers]
  refine Reader.bind_map hmembers fun state => ?_
  obtain ⟨tag, read⟩ := state
  cases tag with
  | none => rfl
  | some kind => exact Reader.bind_ok (close_cons rest (by decide))

/-! ## Other forms -/

/-- What the items of an array come to where a `TaggedUnion` is asked for, if so many brackets may
be open inside it. -/
def ofItems (depth : Nat) : List Value → Except Fault (τ × Parts)
  | [] => .error (.mismatch (.missingField u.tagKey))
  | tag :: items => do
    let name ← tag.stringFor .tag
    let kind ← (u.ofName name).mapError .mismatch
    let items ← items.mapM (within depth)
    .ok (kind, .positional items)

/-- An array is read to what its items come to, `ofItems`: the first is the tag, and the others are
kept. -/
theorem read_array (depth : Nat) {items : List Value} {body : List Char}
    (h : Listed Spelled true items body) :
    Answers (u.read (depth + 1)) ('[' :: (body ++ [']'])) (u.ofItems depth items) := by
  intro gap rest hgap hrest
  unfold read
  rw [Reader.bind_ok (peekWord_begins hgap rfl (by decide) rest), List.cons_append,
    List.append_assoc, List.singleton_append]
  change (advance >>= _) _ = _
  rw [Reader.bind_ok (advance_cons _ _)]
  cases h with
  | done hgap' =>
    rw [Reader.bind_ok (nextElement_close true hgap' rest)]
    rfl
  | @next _ tag items lead piece text hlead htag hitems =>
    have hbracket : Stops (']' :: rest) :=
      stops_cons (by decide) (by decide) (by decide) (by decide)
    have hnext := hlead.nextElement (htag.begins.append (text ++ ']' :: rest))
    have hname := (htag.readString .tag).apply (hitems.stops hbracket)
    -- There are at least as many turns as items, and one more for the bracket.
    have hlength := hitems.length_le fun _ _ hv => hv.begins
    have hturns : items.length < (text ++ ']' :: rest).length := by
      rw [List.length_append, List.length_cons]
      omega
    have hmore := hitems.elementsFrom (fun _ _ hv => hv.begins) (fun _ _ hv => hv.value depth)
      (text ++ ']' :: rest) [] rest hturns
    rw [List.append_assoc, List.append_assoc, Reader.bind_ok hnext, if_pos rfl, ofItems]
    refine Reader.bind_map hname fun name => ?_
    refine Reader.bind_map (accept_apply (u.ofName name) _) fun kind => ?_
    refine Reader.bind_map hmore fun items => ?_
    exact Reader.bind_ok (close_cons rest (by decide))

/-- What a `Value` comes to where a `TaggedUnion` is asked for, if so many brackets may be open
inside it. -/
def outcome (depth : Nat) : Value → Except Fault (τ × Parts)
  | .object members => u.ofMembers depth members
  | .array items => u.ofItems depth items
  | v => .error (.mismatch (.wrongType v.found (.union u.name)))

theorem read_scalar (depth : Nat) {v : Value} {text : List Char} (h : Spelled v text)
    (hv : v.depth = 0) :
    Answers (u.read depth) text (.error (.mismatch (.wrongType v.found (.union u.name)))) := by
  intro gap rest hgap hrest
  obtain ⟨c, tail, htext, hspace, hbracket, hbrace, -, hscalar⟩ := h.scalar hv hrest
  unfold read
  rw [Reader.bind_ok (peekWord_begins hgap htext hspace rest)]
  simp only
  rw [refuse, if_neg hbracket, if_neg hbrace, Reader.bind_ok hscalar]
  rfl

/-- Any value is read to its `outcome`, however it is spelled. -/
theorem read_spelled (depth : Nat) {v : Value} {text : List Char} (h : Spelled v text) :
    Answers (u.read (depth + 1)) text (u.outcome depth v) := by
  cases h with
  | array hitems => exact u.read_array depth hitems
  | object hmembers => exact u.read_object depth hmembers
  | null => exact u.read_scalar _ .null rfl
  | yes => exact u.read_scalar _ .yes rfl
  | no => exact u.read_scalar _ .no rfl
  | number hn => exact u.read_scalar _ (.number hn) rfl
  | string hs => exact u.read_scalar _ (.string hs) rfl

/-! ## One tag -/

/-- Members among which there is no tag are kept by `take`, and the tag stays as it was. -/
theorem foldlM_take {depth : Nat} (tag : Option τ) (members : List (String × Value)) :
    ∀ read : List (String × Value), (∀ m ∈ members, m.1 ≠ u.tagKey) →
      members.foldlM (u.take depth) (tag, read) =
        members.foldlM (keep depth) read >>= fun read => .ok (tag, read) := by
  induction members with
  | nil => exact fun _ _ => rfl
  | cons m rest ih =>
    intro read hkeys
    obtain ⟨hkey, hrest⟩ := List.forall_mem_cons.mp hkeys
    rw [List.foldlM_cons, List.foldlM_cons, take, if_neg hkey]
    cases keep depth read m with
    | error fault => rfl
    | ok read => exact ih read hrest

/-- The tag may stand anywhere among the members, between `front` and `back`.  Its members come to
the kind and the other members in their order, unless one of these is too deep. -/
theorem ofMembers_of_tag {depth : Nat} {name : String} {kind : τ}
    {front back : List (String × Value)} (hname : u.ofName name = .ok kind)
    (hfront : ∀ m ∈ front, m.1 ≠ u.tagKey) (hback : ∀ m ∈ back, m.1 ≠ u.tagKey) :
    u.ofMembers depth (front ++ (u.tagKey, .string name) :: back) =
      if Value.membersDepth (front ++ back) ≤ depth then .ok (kind, .fields (front ++ back))
      else .error .badToken := by
  have htag : ∀ read, u.take depth (none, read) (u.tagKey, .string name) =
      .ok (some kind, read) := by
    intro read
    rw [take, if_pos rfl, if_neg nofun, Value.stringFor]
    change ((u.ofName name).mapError Fault.mismatch >>= fun kind => .ok (some kind, read)) = _
    rw [hname]
    rfl
  have hsplit : Value.membersDepth (front ++ back) ≤ depth ↔
      Value.membersDepth front ≤ depth ∧ Value.membersDepth back ≤ depth := by
    rw [Value.membersDepth_append, Nat.max_le]
  rw [ofMembers, List.foldlM_append, u.foldlM_take none front [] hfront, foldlM_keep]
  by_cases hdepth : Value.membersDepth front ≤ depth
  · rw [if_pos hdepth, List.append_nil]
    change (((u.tagKey, .string name) :: back).foldlM (u.take depth) (none, front.reverse) >>=
      _) = _
    rw [List.foldlM_cons, htag]
    change (back.foldlM (u.take depth) (some kind, front.reverse) >>= _) = _
    rw [u.foldlM_take (some kind) back front.reverse hback, foldlM_keep]
    by_cases hdepth' : Value.membersDepth back ≤ depth
    · rw [if_pos hdepth', if_pos (hsplit.mpr ⟨hdepth, hdepth'⟩)]
      change Except.ok (kind, Parts.fields (back.reverse ++ front.reverse).reverse) = _
      rw [List.reverse_append, List.reverse_reverse, List.reverse_reverse]
    · rw [if_neg hdepth', if_neg fun h => hdepth' (hsplit.mp h).2]
      rfl
  · rw [if_neg hdepth, if_neg fun h => hdepth (hsplit.mp h).1]
    rfl

theorem ofMembers_cons {depth : Nat} {name : String} {kind : τ} {members : List (String × Value)}
    (hname : u.ofName name = .ok kind) (hkeys : ∀ m ∈ members, m.1 ≠ u.tagKey) :
    u.ofMembers depth ((u.tagKey, .string name) :: members) =
      if Value.membersDepth members ≤ depth then .ok (kind, .fields members)
      else .error .badToken :=
  u.ofMembers_of_tag hname (List.forall_mem_nil _) hkeys

end TaggedUnion

/-! ## Bare names -/

/-- A choice of names reads a string as `kindNamed` says: as the kind that has the name, or it
refuses one that is the name of no kind with the list of the names it knows. -/
theorem StringSpelled.readName {τ : Type} {name : String} {text : List Char}
    (h : StringSpelled name text) (kinds : List (String × τ)) :
    Answers (readName kinds) text ((kindNamed kinds name).mapError .mismatch) := by
  intro gap rest hgap _
  have hquote : ∃ tail, text = '"' :: tail := by
    obtain ⟨_⟩ := h
    exact ⟨_, rfl⟩
  obtain ⟨tail, htext⟩ := hquote
  rw [Json.readName, Reader.bind_ok (peekWord_begins hgap htext (by decide) rest)]
  exact (Reader.bind_ok (h.quotedString rest)).trans (accept_apply _ rest)

/-- A source that `Holds` a string is read as the kind of that name. -/
theorem Holds.readName {τ : Type} {source name : String} {kinds : List (String × τ)} {kind : τ}
    (h : Holds source (.string name)) (hkind : kinds.lookup name = some kind) :
    Json.decode (Json.readName kinds) source = .ok kind := by
  refine h.decode fun text htext => ?_
  cases htext with
  | string hname =>
    have hanswers := hname.readName kinds
    rwa [kindNamed, hkind] at hanswers

end MessageTemplate.Json
