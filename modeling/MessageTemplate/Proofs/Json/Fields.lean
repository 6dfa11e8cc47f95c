/-
When the members of an object are accepted.

A field is looked for among the members under its key or under one of several keys (`givenBy`).  It
may be missing; if it is given, it is given once, and the value given is judged (`Sole`).  All other
members stand where they like and hold what they like (`besides`).  The loops that go through the
members stop at the first complaint, so which complaint it is depends on the order of the members;
that there is none does not, and it is said here field by field.

A union is read in two ways, from the text itself and from a plain value that was kept.  The two
differ in what they complain about and in whether a tag may be given as a position, but what the
first accepts the second accepts as well (`ofTagValue_of_ofTagName`).

Complaints are told apart in one way only: whether the data has the wrong shape or the text itself
is at fault (`DataOnly`).
-/
import MessageTemplate.Proofs.Json.Unions
import MessageTemplate.Proofs.Outcome

set_option autoImplicit false

namespace MessageTemplate.Json

/-! ## Members by key -/

/-- The members that give a field, under any of its `keys`, in their order. -/
def givenBy (keys : List String) (members : List (String × Value)) : List (String × Value) :=
  members.filter fun m => m.1 ∈ keys

/-- The members that do not give it, in their order: what `givenBy` leaves out. -/
def besides (keys : List String) (members : List (String × Value)) : List (String × Value) :=
  members.filter fun m => m.1 ∉ keys

section

variable {keys : List String} {key : String} {v : Value} {members rest : List (String × Value)}

theorem mem_givenBy {m : String × Value} :
    m ∈ givenBy keys members ↔ m ∈ members ∧ m.1 ∈ keys := by
  simp [givenBy]

theorem mem_besides {m : String × Value} :
    m ∈ besides keys members ↔ m ∈ members ∧ m.1 ∉ keys := by
  simp [besides]

theorem givenBy_cons_of_mem (h : key ∈ keys) :
    givenBy keys ((key, v) :: rest) = (key, v) :: givenBy keys rest := by
  simp [givenBy, h]

/-- A first member with a key that is none of the field's `keys` is passed over. -/
theorem givenBy_cons_of_notMem (h : key ∉ keys) :
    givenBy keys ((key, v) :: rest) = givenBy keys rest := by
  simp [givenBy, h]

theorem besides_cons_of_mem (h : key ∈ keys) :
    besides keys ((key, v) :: rest) = besides keys rest := by
  simp [besides, h]

theorem besides_cons_of_notMem (h : key ∉ keys) :
    besides keys ((key, v) :: rest) = (key, v) :: besides keys rest := by
  simp [besides, h]

/-- Leaving out one field with `besides` leaves the others as they are given. -/
theorem givenBy_besides {keys' : List String} (h : ∀ key ∈ keys', key ∉ keys) :
    givenBy keys' (besides keys members) = givenBy keys' members := by
  rw [givenBy, besides, List.filter_filter, givenBy]
  refine List.filter_congr fun m _ => ?_
  by_cases hm : m.1 ∈ keys'
  · simp [hm, h m.1 hm]
  · simp [hm]

end

/-! ## Fields that are given once -/

/-- What a field comes to that has been found before or has not, and is looked for among these
members: none of them may give it a second time, and the value that is given is judged by
`judge`. -/
inductive Sole {α ε : Type} (judge : Value → Except ε α) :
    Option α → List (String × Value) → Option α → Prop
  | kept {found : Option α} : Sole judge found [] found
  | given {key : String} {v : Value} {a : α} (h : judge v = .ok a) :
    Sole judge none [(key, v)] (some a)

section

variable {α ε : Type} {judge : Value → Except ε α} {found result : Option α}
  {members rest : List (String × Value)}

theorem sole_nil : Sole judge found [] result ↔ result = found := by
  constructor
  · rintro ⟨⟩
    rfl
  · rintro rfl
    exact .kept

/-- A further member is accepted if the field has not been `found` before it, and its value is
judged well; what comes behind then meets a field that has been found. -/
theorem sole_cons {key : String} {v : Value} :
    Sole judge found ((key, v) :: rest) result ↔
      found = none ∧ ∃ a, judge v = .ok a ∧ Sole judge (some a) rest result := by
  constructor
  · intro h
    cases h with
    | given h => exact ⟨rfl, _, h, .kept⟩
  · rintro ⟨rfl, a, hv, hrest⟩
    cases hrest with
    | kept => exact .given hv

theorem Sole.length_le (h : Sole judge found members result) : members.length ≤ 1 := by
  cases h with
  | kept => simp
  | given _ => simp

theorem Sole.judged (h : Sole judge found members result) {m : String × Value}
    (hm : m ∈ members) : ∃ a, judge m.2 = .ok a ∧ result = some a := by
  cases h with
  | kept => simp at hm
  | given hv =>
    rw [List.mem_singleton] at hm
    subst hm
    exact ⟨_, hv, rfl⟩

/-- Another `judge` may take the place of this one if it agrees on the members. -/
theorem Sole.imp {ε' : Type} {judge' : Value → Except ε' α}
    (h : Sole judge found members result)
    (himp : ∀ m ∈ members, ∀ a, judge m.2 = .ok a → judge' m.2 = .ok a) :
    Sole judge' found members result := by
  cases h with
  | kept => exact .kept
  | @given key v a hv => exact .given (himp (key, v) (List.mem_singleton_self _) a hv)

end

/-! ## Depth -/

theorem itemsDepth_le {depth : Nat} {items : List Value} :
    Value.itemsDepth items ≤ depth ↔ ∀ v ∈ items, v.depth ≤ depth := by
  induction items with
  | nil => simp [Value.itemsDepth]
  | cons v rest ih => rw [Value.itemsDepth, Nat.max_le, ih, List.forall_mem_cons]

theorem membersDepth_le {depth : Nat} {members : List (String × Value)} :
    Value.membersDepth members ≤ depth ↔ ∀ m ∈ members, m.2.depth ≤ depth := by
  induction members with
  | nil => simp [Value.membersDepth]
  | cons m rest ih =>
    obtain ⟨key, v⟩ := m
    rw [Value.membersDepth, Nat.max_le, ih, List.forall_mem_cons]

/-- A value `within` the bound stands for itself. -/
theorem within_eq_ok {depth : Nat} {v w : Value} :
    within depth v = .ok w ↔ v.depth ≤ depth ∧ w = v := by
  rw [within]
  by_cases h : v.depth ≤ depth
  · simp [h, eq_comm]
  · simp [h]

/-! ## Faults of the data -/

/-- If this fails, it is with a `mismatch`: the data has the wrong shape, and the text is not at
fault. -/
def DataOnly {α : Type} (x : Except Fault α) : Prop :=
  ∀ fault, x = .error fault → ∃ cause, fault = .mismatch cause

section

variable {α β : Type}

theorem dataOnly_ok (a : α) : DataOnly (.ok a) :=
  fun _ h => absurd h nofun

theorem dataOnly_mismatch (cause : Mismatch) :
    DataOnly (.error (.mismatch cause) : Except Fault α) :=
  fun _ h => ⟨cause, (Except.error.inj h).symm⟩

/-- What can only fail with a `Mismatch` has no other fault. -/
theorem dataOnly_mapError (x : Except Mismatch α) : DataOnly (x.mapError .mismatch) := by
  cases x with
  | ok a => exact dataOnly_ok a
  | error cause => exact dataOnly_mismatch cause

/-- In a chain it is enough that each step is `DataOnly`. -/
theorem DataOnly.bind {x : Except Fault α} {f : α → Except Fault β} (hx : DataOnly x)
    (hf : ∀ a, x = .ok a → DataOnly (f a)) : DataOnly (x >>= f) := by
  cases x with
  | ok a => exact hf a rfl
  | error fault =>
    intro fault' h
    exact hx fault' (congrArg Except.error (Except.error.inj h))

/-- A value that does not nest too deep has no fault at all (`within_eq_ok`). -/
theorem dataOnly_within {depth : Nat} {v : Value} (h : v.depth ≤ depth) :
    DataOnly (within depth v) := by
  rw [within, if_pos h]
  exact dataOnly_ok v

theorem dataOnly_stringFor (v : Value) (expected : Expected) :
    DataOnly (v.stringFor expected) := by
  cases v with
  | string s => exact dataOnly_ok s
  | _ => exact dataOnly_mismatch _

/-- In a list it is enough that each element is `DataOnly`. -/
theorem dataOnly_mapM {f : α → Except Fault β} (xs : List α) (h : ∀ x ∈ xs, DataOnly (f x)) :
    DataOnly (xs.mapM f) := by
  induction xs with
  | nil => exact dataOnly_ok []
  | cons x rest ih =>
    rw [List.forall_mem_cons] at h
    rw [List.mapM_cons]
    exact h.1.bind fun y _ => (ih h.2).bind fun ys _ => dataOnly_ok (y :: ys)

end

/-! ## Unions -/

namespace TaggedUnion

variable {τ : Type} (u : TaggedUnion τ)

/-- The kind that a plain `Value` names, if it is a name: `ofName` of a string. -/
def ofTagName (v : Value) : Except Fault τ := do
  let name ← v.stringFor .tag
  (u.ofName name).mapError .mismatch

theorem ofTagName_eq_ok {v : Value} {kind : τ} :
    u.ofTagName v = .ok kind ↔ ∃ name, v = .string name ∧ u.ofName name = .ok kind := by
  cases v with
  | string name =>
    have hstep : u.ofTagName (.string name) = (u.ofName name).mapError .mismatch := rfl
    rw [hstep, Outcome.mapError_eq_ok]
    simp
  | _ => exact ⟨nofun, nofun⟩

/-- Whatever names a kind in the text (`ofTagName`) names it in a plain value (`ofTagValue`), where
its position may stand as well. -/
theorem ofTagValue_of_ofTagName {v : Value} {kind : τ} (h : u.ofTagName v = .ok kind) :
    u.ofTagValue v = .ok kind := by
  obtain ⟨name, rfl, hname⟩ := u.ofTagName_eq_ok.mp h
  exact hname

/-- `tagOf` finds the tag of a plain value: one member gives it, wherever it stands. -/
theorem tagOf_eq_ok {kind : τ} (members : List (String × Value)) : ∀ {tag : Option τ},
    u.tagOf tag members = .ok kind ↔
      Sole u.ofTagValue tag (givenBy [u.tagKey] members) (some kind) := by
  induction members with
  | nil =>
    intro tag
    rw [givenBy, List.filter_nil, sole_nil]
    cases tag with
    | none => exact ⟨nofun, nofun⟩
    | some k => simp [tagOf, eq_comm]
  | cons m rest ih =>
    intro tag
    obtain ⟨key, v⟩ := m
    rw [tagOf]
    by_cases hkey : key = u.tagKey
    · rw [if_pos hkey, givenBy_cons_of_mem (by simp [hkey]), sole_cons]
      cases tag with
      | some k => simp
      | none =>
        cases hv : u.ofTagValue v with
        | error cause => simp
        | ok k => simp [ih]
    · rw [if_neg hkey, givenBy_cons_of_notMem (by simp [hkey]), ih]

/-- `take` of one member of a union in the text: it is the tag, which is named once, or it is
kept. -/
theorem take_eq_ok {depth : Nat} {tag : Option τ} {read : List (String × Value)} {key : String}
    {v : Value} {next : Option τ × List (String × Value)} :
    u.take depth (tag, read) (key, v) = .ok next ↔
      (key = u.tagKey ∧ tag = none ∧ ∃ kind, u.ofTagName v = .ok kind ∧ next = (some kind, read)) ∨
        (key ≠ u.tagKey ∧ v.depth ≤ depth ∧ next = (tag, (key, v) :: read)) := by
  rw [take]
  by_cases hkey : key = u.tagKey
  · cases tag with
    | some k => simp [hkey]
    | none =>
      -- The two steps of the judgement are those of the tag's name.
      have hjudge : (do
          let name ← v.stringFor .tag
          let kind ← (u.ofName name).mapError .mismatch
          .ok (some kind, read) : Except Fault (Option τ × List (String × Value))) =
          u.ofTagName v >>= fun kind => .ok (some kind, read) := by
        rw [ofTagName, bind_assoc]
      rw [if_pos hkey, if_neg (by simp), hjudge, Outcome.bind_eq_ok]
      simp [hkey, eq_comm]
  · rw [if_neg hkey, keep, Outcome.bind_eq_ok]
    simp only [Outcome.bind_eq_ok, within_eq_ok, Except.ok.injEq]
    constructor
    · rintro ⟨_, ⟨w, ⟨hdepth, rfl⟩, rfl⟩, rfl⟩
      exact .inr ⟨hkey, hdepth, rfl⟩
    · rintro (⟨htag, -⟩ | ⟨-, hdepth, rfl⟩)
      · exact absurd htag hkey
      · exact ⟨_, ⟨v, ⟨hdepth, rfl⟩, rfl⟩, rfl⟩

/-- `take` of all members of a union in the text: the tag is given by one member and named there,
and all the others are kept in their order. -/
theorem foldlM_take_eq_ok {depth : Nat} (members : List (String × Value)) :
    ∀ {tag tag' : Option τ} {read read' : List (String × Value)},
      members.foldlM (u.take depth) (tag, read) = .ok (tag', read') ↔
        Sole u.ofTagName tag (givenBy [u.tagKey] members) tag' ∧
          Value.membersDepth (besides [u.tagKey] members) ≤ depth ∧
          read' = (besides [u.tagKey] members).reverse ++ read := by
  induction members with
  | nil =>
    intro tag tag' read read'
    rw [List.foldlM_nil, givenBy, besides, List.filter_nil, List.filter_nil, sole_nil]
    simp [pure, Except.pure, Value.membersDepth, eq_comm]
  | cons m rest ih =>
    intro tag tag' read read'
    obtain ⟨key, v⟩ := m
    rw [List.foldlM_cons, Outcome.bind_eq_ok]
    simp only [u.take_eq_ok]
    by_cases hkey : key = u.tagKey
    · -- The tag: it is judged, if it is the first, and it is not kept.
      have hmem : key ∈ [u.tagKey] := by simp [hkey]
      rw [givenBy_cons_of_mem hmem, besides_cons_of_mem hmem, sole_cons]
      constructor
      · rintro ⟨_, ⟨-, htag, kind, hkind, rfl⟩ | ⟨hne, -⟩, hrest⟩
        · obtain ⟨hsole, hdepth, hread⟩ := ih.mp hrest
          exact ⟨⟨htag, kind, hkind, hsole⟩, hdepth, hread⟩
        · exact absurd hkey hne
      · rintro ⟨⟨htag, kind, hkind, hsole⟩, hdepth, hread⟩
        exact ⟨_, .inl ⟨hkey, htag, kind, hkind, rfl⟩, ih.mpr ⟨hsole, hdepth, hread⟩⟩
    · -- Any other member is kept if it is not too deep, in front of those kept before.
      have hmem : key ∉ [u.tagKey] := by simp [hkey]
      rw [givenBy_cons_of_notMem hmem, besides_cons_of_notMem hmem, Value.membersDepth,
        Nat.max_le, List.reverse_cons, List.append_assoc, List.singleton_append]
      constructor
      · rintro ⟨_, ⟨htag, -⟩ | ⟨-, hv, rfl⟩, hrest⟩
        · exact absurd htag hkey
        · obtain ⟨hsole, hdepth, hread⟩ := ih.mp hrest
          exact ⟨hsole, ⟨hv, hdepth⟩, hread⟩
      · rintro ⟨hsole, ⟨hv, hdepth⟩, hread⟩
        exact ⟨_, .inr ⟨hkey, hv, rfl⟩, ih.mpr ⟨hsole, hdepth, hread⟩⟩

/-- An object is a union exactly when one of its members is the tag (`givenBy`) and the others
(`besides`) do not nest too deep. -/
theorem ofMembers_eq_ok {depth : Nat} {members : List (String × Value)} {kind : τ}
    {parts : Parts} :
    u.ofMembers depth members = .ok (kind, parts) ↔
      Sole u.ofTagName none (givenBy [u.tagKey] members) (some kind) ∧
        Value.membersDepth (besides [u.tagKey] members) ≤ depth ∧
        parts = .fields (besides [u.tagKey] members) := by
  rw [ofMembers, Outcome.bind_eq_ok]
  constructor
  · rintro ⟨⟨tag, read⟩, hfold, hend⟩
    obtain ⟨hsole, hdepth, rfl⟩ := (u.foldlM_take_eq_ok members).mp hfold
    cases tag with
    | none => cases hend
    | some k =>
      obtain ⟨rfl, rfl⟩ := Prod.mk.inj (Except.ok.inj hend)
      exact ⟨hsole, hdepth, by simp⟩
  · rintro ⟨hsole, hdepth, rfl⟩
    refine ⟨_, (u.foldlM_take_eq_ok members).mpr ⟨hsole, hdepth, rfl⟩, ?_⟩
    simp

theorem ofItems_cons_eq_ok {depth : Nat} {tag : Value} {rest : List Value} {kind : τ}
    {parts : Parts} :
    u.ofItems depth (tag :: rest) = .ok (kind, parts) ↔
      u.ofTagName tag = .ok kind ∧ Value.itemsDepth rest ≤ depth ∧ parts = .positional rest := by
  have hsteps : u.ofItems depth (tag :: rest) = u.ofTagName tag >>= fun kind =>
      rest.mapM (within depth) >>= fun items => .ok (kind, .positional items) := by
    rw [ofItems, ofTagName, bind_assoc]
  rw [hsteps, mapM_within, Outcome.bind_eq_ok]
  simp only [Outcome.bind_eq_ok]
  constructor
  · rintro ⟨k, hk, items, hitems, hend⟩
    split at hitems
    case isTrue hdepth =>
      obtain rfl := Except.ok.inj hitems
      obtain ⟨rfl, rfl⟩ := Prod.mk.inj (Except.ok.inj hend)
      exact ⟨hk, hdepth, rfl⟩
    case isFalse => cases hitems
  · rintro ⟨hk, hdepth, rfl⟩
    exact ⟨kind, hk, rest, by rw [if_pos hdepth], rfl⟩

/-! ## Faults of a union -/

/-- `take` of one member that does not nest too deep fails for the sake of the data only. -/
theorem dataOnly_take {depth : Nat} (state : Option τ × List (String × Value))
    {m : String × Value} (h : m.2.depth ≤ depth) : DataOnly (u.take depth state m) := by
  rw [take]
  by_cases hkey : m.1 = u.tagKey
  · rw [if_pos hkey]
    by_cases htag : state.1.isSome = true
    · rw [if_pos htag]
      exact dataOnly_mismatch _
    · rw [if_neg htag]
      refine (dataOnly_stringFor m.2 .tag).bind fun name _ => ?_
      exact (dataOnly_mapError _).bind fun kind _ => dataOnly_ok _
  · rw [if_neg hkey, keep]
    exact ((dataOnly_within h).bind fun v _ => dataOnly_ok _).bind fun read _ => dataOnly_ok _

theorem dataOnly_foldlM_take {depth : Nat} (members : List (String × Value)) :
    ∀ state : Option τ × List (String × Value), Value.membersDepth members ≤ depth →
      DataOnly (members.foldlM (u.take depth) state) := by
  induction members with
  | nil => exact fun state _ => dataOnly_ok state
  | cons m rest ih =>
    intro state h
    rw [membersDepth_le, List.forall_mem_cons, ← membersDepth_le] at h
    rw [List.foldlM_cons]
    exact (u.dataOnly_take state h.1).bind fun next _ => ih next h.2

/-- If the `outcome` of a value that does not nest too deep is a refusal, it is one for the sake of
its data only. -/
theorem dataOnly_outcome {depth : Nat} {v : Value} (h : v.depth ≤ depth + 1) :
    DataOnly (u.outcome depth v) := by
  cases v with
  | object members =>
    rw [Value.depth] at h
    rw [outcome, ofMembers]
    refine (u.dataOnly_foldlM_take members _ (by omega)).bind fun state _ => ?_
    obtain ⟨tag, read⟩ := state
    cases tag with
    | none => exact dataOnly_mismatch _
    | some kind => exact dataOnly_ok _
  | array items =>
    cases items with
    | nil => exact dataOnly_mismatch _
    | cons tag rest =>
      rw [Value.depth, Nat.add_le_add_iff_right, itemsDepth_le, List.forall_mem_cons] at h
      rw [outcome, ofItems]
      refine (dataOnly_stringFor tag .tag).bind fun name _ => ?_
      refine (dataOnly_mapError _).bind fun kind _ => ?_
      exact (dataOnly_mapM rest fun v hv => dataOnly_within (h.2 v hv)).bind fun items _ =>
        dataOnly_ok _
  | _ => exact dataOnly_mismatch _

end TaggedUnion

end MessageTemplate.Json
