/-
Reading a record from the text.

The fields of a record are read straight from the text, so what a record comes to is made of what
its fields come to, taken one after the other into the record's state (`Record.take`).  What a field
comes to is known for every value that can stand in its place: what is asked for is read, and
anything else is refused for what it is (`Spelled.readSize`, `Spelled.readSequence`).

A record does not read the values of members that it does not know, it skips them.  What can be
skipped is more than what can be read, so `Record.read_object` leaves it to the caller to say what
becomes of every key that occurs.
-/
import MessageTemplate.Json.Union
import MessageTemplate.Proofs.Json.Unions

set_option autoImplicit false

namespace MessageTemplate.Json

/-! ## Values by their first character -/

/-- The first character of a `Spelled` value tells numbers and arrays from all other values. -/
theorem Spelled.head {v : Value} {text : List Char} (h : Spelled v text) :
    ∃ c tail, text = c :: tail ∧ isSpace c = false ∧
      ((c = '-' ∨ c.isDigit = true) ↔ ∃ n, v = .number n) ∧
      (c = '[' ↔ ∃ items, v = .array items) := by
  -- Most values are neither, which takes four facts about their first character.
  have hother : ∀ {c : Char} {tail : List Char} {v : Value}, isSpace c = false →
      ¬ (c = '-' ∨ c.isDigit = true) → c ≠ '[' → (∀ n, v ≠ .number n) →
        (∀ items, v ≠ .array items) →
          ∃ c' tail', c :: tail = c' :: tail' ∧ isSpace c' = false ∧
            ((c' = '-' ∨ c'.isDigit = true) ↔ ∃ n, v = .number n) ∧
            (c' = '[' ↔ ∃ items, v = .array items) :=
    fun hspace hdigit hbracket hnumber harray => ⟨_, _, rfl, hspace,
      iff_of_false hdigit fun ⟨n, hn⟩ => hnumber n hn,
      iff_of_false hbracket fun ⟨items, hitems⟩ => harray items hitems⟩
  cases h with
  | null => exact hother (by decide) (by decide) (by decide) nofun nofun
  | yes => exact hother (by decide) (by decide) (by decide) nofun nofun
  | no => exact hother (by decide) (by decide) (by decide) nofun nofun
  | string hs =>
    obtain ⟨_⟩ := hs
    exact hother (by decide) (by decide) (by decide) nofun nofun
  | object _ => exact hother (by decide) (by decide) (by decide) nofun nofun
  | array _ =>
    refine ⟨'[', _, rfl, by decide, iff_of_false (by decide) nofun, iff_of_true rfl ⟨_, rfl⟩⟩
  | @number n _ hn =>
    obtain ⟨c, tail, rfl, hc, hne⟩ := hn.ne_head
    obtain ⟨c', tail', hcons, hspace, -⟩ := (Spelled.number hn).begins
    obtain ⟨rfl, rfl⟩ := List.cons.inj hcons
    exact ⟨c, tail, rfl, hspace, iff_of_true hc ⟨n, rfl⟩,
      iff_of_false (hne '[' (by decide) (by decide)) nofun⟩

/-- Whatever value stands where it has no meaning, `refuse` names it for what it is. -/
theorem Spelled.refuse {α : Type} {v : Value} {c : Char} {tail : List Char}
    (h : Spelled v (c :: tail)) (expected : Expected) {rest : List Char} (hrest : Stops rest) :
    (refuse expected c : Reader α) (c :: tail ++ rest) =
      .error (.mismatch (.wrongType v.found expected)) := by
  by_cases hv : v.depth = 0
  · obtain ⟨c', tail', htext, -, hbracket, hbrace, -, hscalar⟩ := h.scalar hv hrest
    obtain ⟨rfl, rfl⟩ := List.cons.inj htext
    rw [Json.refuse, if_neg hbracket, if_neg hbrace, Reader.bind_ok hscalar]
    rfl
  · cases h with
    | array _ => rfl
    | object _ => rfl
    | _ => exact absurd rfl hv

/-! ## Numbers and sequences -/

theorem Answers.map {α β : Type} {reader : Reader α} {text : List Char}
    {outcome : Except Fault α} (h : Answers reader text outcome) (f : α → β) :
    Answers (do return f (← reader)) text (outcome.map f) := by
  intro gap rest hgap hrest
  have hmap : outcome.map f = outcome >>= fun a => .ok (f a) := by
    cases outcome with
    | error fault => rfl
    | ok a => rfl
  rw [hmap]
  exact Reader.bind_map (h gap rest hgap hrest) fun a => rfl

/-- A natural number where one is asked for, or the `Mismatch` that names what stands there
instead. -/
def Value.sizeFor (v : Value) : Except Fault Nat :=
  v.asSize.mapError .mismatch

/-- Whatever value stands where a natural number is asked for, `readSize` comes to what the value is
worth there, `Value.sizeFor`. -/
theorem Spelled.readSize {v : Value} {text : List Char} (h : Spelled v text) :
    Answers readSize text v.sizeFor := by
  intro gap rest hgap hrest
  obtain ⟨c, tail, rfl, hspace, hnumber, -⟩ := h.head
  rw [Json.readSize, Reader.bind_ok (peekWord_begins hgap rfl hspace rest)]
  dsimp only
  by_cases hc : c = '-' ∨ c.isDigit = true
  · obtain ⟨n, rfl⟩ := hnumber.mp hc
    cases h with
    | number hn =>
      rw [if_pos hc, Reader.bind_ok (hn.strict hrest)]
      exact accept_apply n.size rest
  · rw [if_neg hc, h.refuse .size hrest]
    cases v with
    | number n => exact absurd (hnumber.mpr ⟨n, rfl⟩) hc
    | _ => rfl

/-- A sequence where one is asked for, made of what its items come to, or the `Mismatch` that names
what stands there instead. -/
def Value.sequenceFor {β : Type} (outcome : Value → Except Fault β) :
    Value → Except Fault (List β)
  | .array items => items.mapM outcome
  | v => .error (.mismatch (.wrongType v.found .sequence))

/-- Whatever value stands where a sequence is asked for, `readSequence` comes to what its items come
to, or names what stands there instead. -/
theorem Spelled.readSequence {β : Type} {item : Reader β} {outcome : Value → Except Fault β}
    (hitem : ∀ v text, Spelled v text → Answers item text (outcome v)) {v : Value}
    {text : List Char} (h : Spelled v text) :
    Answers (readSequence item) text (v.sequenceFor outcome) := by
  obtain ⟨c, tail, rfl, hspace, -, harray⟩ := h.head
  by_cases hc : c = '['
  · obtain ⟨items, rfl⟩ := harray.mp hc
    cases h with
    | array hitems => exact hitems.readSequence (fun _ _ hv => hv.begins) hitem
  · intro gap rest hgap hrest
    rw [Json.readSequence, Reader.bind_ok (peekWord_begins hgap rfl hspace rest)]
    dsimp only
    rw [if_neg hc, h.refuse .sequence hrest]
    cases v with
    | array items => exact absurd (harray.mpr ⟨items, rfl⟩) hc
    | _ => rfl

/-! ## Records -/

namespace Record

variable {σ : Type} (r : Record σ)

/-- The field of a key, if the `Record` has one. -/
def field? (key : String) : Option (Field σ) :=
  r.fields.find? fun f => f.name = key

/-- Takes one member into the state, if it is one of the record's fields.  `judge` says what the
value comes to there. -/
def take (judge : String → σ → Value → Except Fault σ) (state : σ) (m : String × Value) :
    Except Fault σ :=
  match r.field? m.1 with
  | none => .ok state
  | some field =>
    if field.given state then .error (.mismatch (.duplicateField m.1))
    else judge m.1 state m.2

variable {r} {judge : String → σ → Value → Except Fault σ}

/-- `readMember` takes the value of a field that is known into the state, unless it has been given
before. -/
theorem readMember_takes {key : String} {field : Field σ} (hfield : r.field? key = some field)
    (hread : ∀ state v text, Spelled v text → Answers (field.read state) text (judge key state v)) :
    TakesKey Spelled r.readMember (r.take judge) key := by
  intro state v text gap gap' rest hv hgap hgap' hrest
  rw [field?] at hfield
  rw [readMember, take, field?, hfield]
  dsimp only
  by_cases hgiven : field.given state = true
  · rw [if_pos hgiven, if_pos hgiven]
    rfl
  · rw [if_neg hgiven, if_neg hgiven, Reader.bind_ok (colon_append hgap _)]
    exact hread state v text hv gap' rest hgap' hrest

/-- A `Record` written as an object, all of whose members are its fields. -/
theorem read_object {α : Type} {byName byOrder : σ → Except Mismatch α}
    {members : List (String × Value)} {source : String} (h : Holds source (.object members))
    (hmembers : ∀ m ∈ members, TakesKey Spelled r.readMember (r.take judge) m.1) :
    decode (r.read byName byOrder) source =
      members.foldlM (r.take judge) r.start >>= fun state => (byName state).mapError .mismatch := by
  refine h.decode fun text htext => ?_
  cases htext with
  | object hlisted =>
    intro gap rest hgap hrest
    rw [read, Reader.bind_ok (peekWord_begins hgap rfl (by decide) rest), List.cons_append,
      List.append_assoc, List.singleton_append]
    change (advance >>= _) _ = _
    rw [Reader.bind_ok (advance_cons _ _)]
    refine Reader.bind_map (hlisted.members hmembers r.start rest) fun state => ?_
    rw [← bind_pure ((byName state).mapError Fault.mismatch)]
    refine Reader.bind_map (accept_apply (byName state) _) fun a => ?_
    exact Reader.bind_ok (close_cons rest (by decide))

end Record

end MessageTemplate.Json
