/-
Edits as messages.

An edit is sent as an object, and whoever sends it may put its members in any order and add others.
What an edit is read as therefore depends on no order.  Its tag is found wherever it stands
(`TaggedUnion.ofMembers_of_tag`), and of the other members each `EditField` is given by the one with
its `key`; the rest is left alone.

The main result is `Edit.parse_message`.  It holds of every source that `Holds` a message, so of
every key and value in it that can be read at all; of a message that is read this far only the
brackets are counted, also those in members that nobody knows.
-/
import MessageTemplate.Edit.Written
import MessageTemplate.Proofs.Json.Fields
import MessageTemplate.Proofs.Json.Printing
import MessageTemplate.Proofs.Json.Records

set_option autoImplicit false

namespace MessageTemplate

open Json

/-! ## Members in any order -/

namespace Json

theorem givenBy_append (keys : List String) (members more : List (String × Value)) :
    givenBy keys (members ++ more) = givenBy keys members ++ givenBy keys more :=
  List.filter_append members more

/-- `givenBy` of one key is empty if no member has the key. -/
theorem givenBy_eq_nil {key : String} {members : List (String × Value)} :
    givenBy [key] members = [] ↔ ∀ m ∈ members, m.1 ≠ key := by
  simp [givenBy, List.filter_eq_nil_iff]

/-- A member of an object in which no key is given twice is the only one with its key that `givenBy`
finds. -/
theorem givenBy_of_nodup {own : List (String × Value)} (hkeys : (own.map Prod.fst).Nodup)
    {m : String × Value} (hm : m ∈ own) : givenBy [m.1] own = [m] := by
  induction own with
  | nil => exact absurd hm List.not_mem_nil
  | cons first rest ih =>
    obtain ⟨key, v⟩ := first
    rw [List.map_cons, List.nodup_cons] at hkeys
    obtain ⟨hfirst, hrest⟩ := hkeys
    rcases List.mem_cons.mp hm with rfl | hm'
    · have hnone : givenBy [key] rest = [] :=
        givenBy_eq_nil.mpr fun m' hm' heq => hfirst (List.mem_map.mpr ⟨m', hm', heq⟩)
      rw [givenBy_cons_of_mem (List.mem_singleton_self key), hnone]
    · have hne : key ∉ [m.1] := by
        rw [List.mem_singleton]
        exact fun heq => hfirst (List.mem_map.mpr ⟨m, hm', heq.symm⟩)
      rw [givenBy_cons_of_notMem hne, ih hrest hm']

/-- And still so in a message that has the members of `own` in some order, mixed with members whose
keys none of `own` has.  That is the shape of every message in this module. -/
theorem givenBy_of_perm {own unknown message : List (String × Value)}
    (hperm : message.Perm (own ++ unknown)) (hkeys : (own.map Prod.fst).Nodup)
    (hunknown : ∀ m ∈ unknown, m.1 ∉ own.map Prod.fst) {m : String × Value} (hm : m ∈ own) :
    givenBy [m.1] message = [m] := by
  have hnone : givenBy [m.1] unknown = [] :=
    givenBy_eq_nil.mpr fun m' hm' heq => hunknown m' hm' (List.mem_map.mpr ⟨m, hm, heq.symm⟩)
  have hsame : (givenBy [m.1] message).Perm (givenBy [m.1] (own ++ unknown)) := hperm.filter _
  rw [givenBy_append, givenBy_of_nodup hkeys hm, hnone, List.append_nil] at hsame
  exact List.perm_singleton.mp hsame

end Json

/-! ## Fields by key -/

/-- The three fields have three different keys, so `key` tells them apart. -/
theorem EditField.key_inj {f g : EditField} (h : f.key = g.key) : f = g := by
  revert h
  cases f <;> cases g <;> decide

/-- What a plain `Value` stands for as an `EditField`, as a plain value again.  In this form all
three fields have values of one type, and one lemma serves for all of them. -/
def EditField.judge : EditField → Value → Except Mismatch Value
  | .address, v => v.asString.map .string
  | .caret, v => v.asSize.map fun n => .number (.natural n)
  | .text, v => v.asString.map .string

namespace EditFields

/-- A field that has been found, as a plain value; `none` if it has not been given so far. -/
def get? (s : EditFields) : EditField → Option Value
  | .address => s.address.map .string
  | .caret => s.caret.map fun n => .number (.natural n)
  | .text => s.text.map .string

/-- `has`, by which a field given twice is noticed, asks whether `get?` gives a value. -/
theorem has_eq (s : EditFields) (f : EditField) : s.has f = (s.get? f).isSome := by
  cases f with
  | address => exact Option.isSome_map.symm
  | caret => exact Option.isSome_map.symm
  | text => exact Option.isSome_map.symm

/-- The fields found so far are known by `get?`.  All its cases are injective: a field is a text or
a natural number, and from the plain value it can be had back. -/
theorem ext_get? {s s' : EditFields} (h : ∀ f, s.get? f = s'.get? f) : s = s' := by
  obtain ⟨a, c, t⟩ := s
  obtain ⟨a', c', t'⟩ := s'
  have ha : a = a' := Option.map_injective (fun _ _ h => Value.string.inj h) (h .address)
  have hc : c = c' := Option.map_injective
    (fun _ _ h => Number.natural.inj (Value.number.inj h)) (h .caret)
  have ht : t = t' := Option.map_injective (fun _ _ h => Value.string.inj h) (h .text)
  rw [ha, hc, ht]

/-- What `put` does, in terms of `judge` and `get?`: it succeeds on a value that stands for
something, sets its own field to that, and leaves the others. -/
theorem put_of_judge (s : EditFields) {f : EditField} {v w : Value} (h : f.judge v = .ok w) :
    ∃ s', s.put f v = .ok s' ∧ s'.get? f = some w ∧ ∀ g, g ≠ f → s'.get? g = s.get? g := by
  cases f with
  | address =>
    obtain ⟨a, ha, rfl⟩ := Outcome.map_eq_ok.mp h
    refine ⟨_, Outcome.map_eq_ok.mpr ⟨a, ha, rfl⟩, rfl, fun g hg => ?_⟩
    cases g with
    | address => exact absurd rfl hg
    | caret | text => rfl
  | caret =>
    obtain ⟨n, hn, rfl⟩ := Outcome.map_eq_ok.mp h
    refine ⟨_, Outcome.map_eq_ok.mpr ⟨n, hn, rfl⟩, rfl, fun g hg => ?_⟩
    cases g with
    | caret => exact absurd rfl hg
    | address | text => rfl
  | text =>
    obtain ⟨t, ht, rfl⟩ := Outcome.map_eq_ok.mp h
    refine ⟨_, Outcome.map_eq_ok.mpr ⟨t, ht, rfl⟩, rfl, fun g hg => ?_⟩
    cases g with
    | text => exact absurd rfl hg
    | address | caret => rfl

/-- A field that has been found stands for itself under `judge`.  This is why the members that are
written are read as what they were written from. -/
theorem judge_get? {s : EditFields} {f : EditField} {w : Value} (h : s.get? f = some w) :
    f.judge w = .ok w := by
  cases f with
  | address =>
    obtain ⟨a, -, rfl⟩ := Option.map_eq_some_iff.mp h
    rfl
  | caret =>
    obtain ⟨n, -, rfl⟩ := Option.map_eq_some_iff.mp h
    rfl
  | text =>
    obtain ⟨t, -, rfl⟩ := Option.map_eq_some_iff.mp h
    rfl

/-- The loop over the members.  If every field of the edit is given once, or is there already and
not given again, `ofMembers` ends with exactly these fields; all other members are passed over.  The
induction is on the members with the fields found so far left general, and `Sole` is what each step
uses up. -/
theorem ofMembers_of_sole {fields : List EditField} {final : EditFields}
    (members : List (String × Value)) : ∀ {found : EditFields},
    (∀ f ∈ fields, Sole f.judge (found.get? f) (givenBy [f.key] members) (final.get? f)) →
      (∀ f ∉ fields, final.get? f = found.get? f) → ofMembers fields found members = .ok final := by
  induction members with
  | nil =>
    intro found hsole hothers
    refine congrArg Except.ok (ext_get? fun f => ?_)
    by_cases hf : f ∈ fields
    · exact (sole_nil.mp (hsole f hf)).symm
    · exact (hothers f hf).symm
  | cons m rest ih =>
    intro found hsole hothers
    obtain ⟨key, v⟩ := m
    rw [ofMembers]
    cases hfind : fields.find? (fun f => f.key = key) with
    | none =>
      -- A member that no field is named by is no member of any `givenBy`.
      have hnot : ∀ f ∈ fields, key ∉ [f.key] := by
        intro f hf hkey
        have hne := List.find?_eq_none.mp hfind f hf
        exact hne (decide_eq_true (List.mem_singleton.mp hkey).symm)
      refine ih (fun f hf => ?_) hothers
      rw [← givenBy_cons_of_notMem (hnot f hf)]
      exact hsole f hf
    | some field =>
      -- The member is the first one of its field, which from now on must not be given again.
      have hkey : field.key = key := by simpa using List.find?_some hfind
      have hfield : field ∈ fields := List.mem_of_find?_eq_some hfind
      subst hkey
      have hgiven := hsole field hfield
      rw [givenBy_cons_of_mem (List.mem_singleton_self _), sole_cons] at hgiven
      obtain ⟨hnone, w, hw, hrest⟩ := hgiven
      obtain ⟨next, hput, hself, hother⟩ := found.put_of_judge hw
      have hnew : ¬ found.has field = true := by
        rw [has_eq, hnone]
        exact Bool.false_ne_true
      dsimp only
      rw [if_neg hnew, hput]
      refine ih (fun f hf => ?_) fun f hf => ?_
      · by_cases hf' : f = field
        · subst hf'
          rw [hself]
          exact hrest
        · have hkey : field.key ∉ [f.key] := fun h =>
            hf' (EditField.key_inj (List.mem_singleton.mp h)).symm
          have hf'' := hsole f hf
          rwa [givenBy_cons_of_notMem hkey, ← hother f hf'] at hf''
      · rw [hothers f hf, hother f]
        rintro rfl
        exact hf hfield

end EditFields

/-! ## Messages -/

namespace Edit

/-- The kind of edit that an edit is.  It is what the tag of its message says, by `ofName_name`. -/
def operation : Edit → EditKind
  | insertText _ _ _ => .insertText
  | replaceText _ _ => .replaceText
  | insertConditional _ _ => .insertConditional
  | deleteConditional _ => .deleteConditional

/-- The `EditFields` of an edit, as they are found in its message. -/
def given : Edit → EditFields
  | insertText a caret s => ⟨some a.text, some caret, some s⟩
  | replaceText a s => ⟨some a.text, none, some s⟩
  | insertConditional a caret => ⟨some a.text, some caret, none⟩
  | deleteConditional a => ⟨some a.text, none, none⟩

/-- Every edit has the `fields` of its kind and no others. -/
theorem isSome_given (e : Edit) (f : EditField) :
    (e.given.get? f).isSome = decide (f ∈ e.operation.fields) := by
  cases e <;> cases f <;> rfl

theorem edit_given (e : Edit) : e.given.edit e.operation = .ok e := by
  cases e <;> rfl

/-- The name under which an edit is sent is the name of its kind, by which `ofName` finds the
kind. -/
theorem ofName_name (e : Edit) : EditKind.union.ofName e.name = .ok e.operation := by
  cases e <;> rfl

/-- The members of an edit, in the order in which it is written: the tag first, then its
`fields`. -/
def members (e : Edit) : List (String × Value) :=
  (EditKind.union.tagKey, .string e.name) ::
    e.operation.fields.filterMap fun f => (e.given.get? f).map fun v => (f.key, v)

/-- An edit is written as the object of its `members`. -/
theorem toJson_eq (e : Edit) : e.toJson = .object e.members := by
  cases e <;> rfl

/-- No two `members` of an edit have the same key.  The keys are those of its kind, so the four
kinds are gone through once, whatever is in the fields. -/
theorem nodup_keys_members (e : Edit) : (e.members.map Prod.fst).Nodup := by
  have hkeys : ∀ kind : EditKind,
      (EditKind.union.tagKey :: kind.fields.map EditField.key).Nodup := by
    intro kind
    cases kind <;> decide
  have hmembers : e.members.map Prod.fst =
      EditKind.union.tagKey :: e.operation.fields.map EditField.key := by
    cases e <;> rfl
  rw [hmembers]
  exact hkeys e.operation

variable {e : Edit} {message unknown : List (String × Value)}

/-- The fields that are found in a message are those of its edit.  `others` stands for the message
without its tag: all that matters of it is that it gives every field as the message does. -/
theorem ofMembers_message {others : List (String × Value)}
    (hothers : ∀ f : EditField, givenBy [f.key] others = givenBy [f.key] message)
    (hperm : message.Perm (e.members ++ unknown))
    (hunknown : ∀ m ∈ unknown, m.1 ∉ e.members.map Prod.fst) :
    EditFields.ofMembers e.operation.fields {} others = .ok e.given := by
  have hnone : ∀ f, EditFields.get? {} f = none := fun f => by cases f <;> rfl
  refine EditFields.ofMembers_of_sole others (fun f hf => ?_) fun f hf => ?_
  · have hsome := e.isSome_given f
    rw [decide_eq_true hf, Option.isSome_iff_exists] at hsome
    obtain ⟨w, hw⟩ := hsome
    have hmem : (f.key, w) ∈ e.members := by
      refine List.mem_cons_of_mem _ (List.mem_filterMap.mpr ⟨f, hf, ?_⟩)
      rw [hw, Option.map_some]
    rw [hothers f, givenBy_of_perm hperm e.nodup_keys_members hunknown hmem, hnone, hw]
    exact .given (EditFields.judge_get? hw)
  · have hsome := e.isSome_given f
    rw [decide_eq_false hf, Option.isSome_eq_false_iff, Option.isNone_iff_eq_none] at hsome
    rw [hsome, hnone]

/-- What a value comes to where an edit is asked for, in terms of the `outcome` of the union alone,
without the text that holds it.  Inside of the braces of the message another 126 may be opened. -/
theorem parse_holds {source : String} {v : Value} (h : Holds source v) :
    parse source = EditKind.union.outcome 126 v >>= fun found =>
      (ofParts found.1 found.2).mapError .mismatch := by
  refine h.decode fun text htext => ?_
  intro gap rest hgap hrest
  refine Reader.bind_map (EditKind.union.read_spelled 126 htext gap rest hgap hrest) fun found => ?_
  exact accept_apply (ofParts found.1 found.2) rest

/-- An edit is read from its `members` in any order, among any others that can be read, unless the
brackets in the message nest too deeply: and then this is the error. -/
theorem parse_message {source : String} (h : Holds source (.object message))
    (hperm : message.Perm (e.members ++ unknown))
    (hunknown : ∀ m ∈ unknown, m.1 ∉ e.members.map Prod.fst) :
    parse source =
      if (Value.object message).depth ≤ nestingLimit then .ok e else .error .badToken := by
  have htag : givenBy [EditKind.union.tagKey] message =
      [(EditKind.union.tagKey, .string e.name)] :=
    givenBy_of_perm hperm e.nodup_keys_members hunknown List.mem_cons_self
  -- The message is cut at its tag.  What stands before and after it is what the fields are read
  -- from.
  obtain ⟨front, back, rfl, hfront, -, hback⟩ := List.filter_eq_cons_iff.mp htag
  have hfront' : ∀ m ∈ front, m.1 ≠ EditKind.union.tagKey := by simpa using hfront
  have hback' : ∀ m ∈ back, m.1 ≠ EditKind.union.tagKey := givenBy_eq_nil.mp hback
  -- The tag opens no bracket, so the depth is that of the other members.
  have hdepth : (Value.object (front ++ (EditKind.union.tagKey, .string e.name) :: back)).depth ≤
      nestingLimit ↔ Value.membersDepth (front ++ back) ≤ 126 := by
    have hname : (Value.string e.name).depth = 0 := rfl
    rw [Value.depth, Value.membersDepth_append, Value.membersDepth_append, Value.membersDepth,
      hname, Nat.zero_max, nestingLimit]
    exact Nat.succ_le_succ_iff
  have hothers : ∀ f : EditField, givenBy [f.key] (front ++ back) =
      givenBy [f.key] (front ++ (EditKind.union.tagKey, .string e.name) :: back) := by
    intro f
    -- No field goes by the key of the tag, so taking the tag away takes no field away.
    have hne : EditKind.union.tagKey ∉ [f.key] := by cases f <;> decide
    rw [givenBy_append, givenBy_append, givenBy_cons_of_notMem hne]
  have hfields := ofMembers_message hothers hperm hunknown
  have hparts : ofParts e.operation (.fields (front ++ back)) = .ok e := by
    change EditFields.ofMembers e.operation.fields {} (front ++ back) >>= _ = _
    rw [hfields]
    exact e.edit_given
  rw [parse_holds h, TaggedUnion.outcome,
    EditKind.union.ofMembers_of_tag e.ofName_name hfront' hback']
  by_cases hfits : Value.membersDepth (front ++ back) ≤ 126
  · rw [if_pos hfits, if_pos (hdepth.mpr hfits)]
    change (ofParts e.operation (.fields (front ++ back))).mapError Fault.mismatch = _
    rw [hparts]
    rfl
  · rw [if_neg hfits, if_neg (mt hdepth.mp hfits)]
    rfl

end Edit

/-! ## Carets -/

namespace Focus

/-- What a value comes to as a field of a focus.  It is the `judge` of `Record.take`: the field is
chosen by its key. -/
def judge (key : String) (found : Option String × Option Nat) (v : Value) :
    Except Fault (Option String × Option Nat) :=
  if key = "caret" then v.sizeFor.map fun n => (found.1, some n)
  else (v.stringFor .string).map fun a => (some a, found.2)

/-- A focus that is written comes back as it was.  Its members come in their own order here, but
`Record.read_object` would take them in any. -/
theorem parse_holds {f : Focus} {source : String} (h : Holds source f.toJson) :
    parse source = .ok f := by
  have hmembers : ∀ m ∈ [("address", Value.string f.address.text),
      ("caret", .number (.natural f.caret))],
        TakesKey Spelled record.readMember (record.take judge) m.1 := by
    rw [List.forall_mem_cons, List.forall_mem_singleton]
    constructor
    · refine Record.readMember_takes rfl fun found v text hv => ?_
      exact (hv.readString .string).map fun a => (some a, found.2)
    · refine Record.readMember_takes rfl fun found v text hv => ?_
      exact hv.readSize.map fun n => (found.1, some n)
  exact Record.read_object h hmembers

end Focus

end MessageTemplate
