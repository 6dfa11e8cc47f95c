/-
Reading a value undoes spelling it.

A reader is described by its outcome on a spelled text (`Answers`): what it comes to, and that it
leaves what stands behind.  A list is read by its elements one after the other, so its outcome is
made of theirs, and the first bad one is the outcome of all (`Listed.elements`); the members of an
object are taken into a state in the same way (`Listed.members`).

For plain values the only bad outcome is that of brackets nested too deep.  `within` says so by the
depth of the value, and `Spelled.value` that the reader comes to the same.  The two meet at every
bracket: `within_array` and `within_object` give the bound one level further in, which is what the
reader inside has.
-/
import MessageTemplate.Json.Reader
import MessageTemplate.Proofs.Json.Words

set_option autoImplicit false

namespace MessageTemplate.Json

/-! ## Outcomes -/

/-- What a `Reader` comes to on a text, whatever `Blanks` stand in front of it and whatever follows
that lets a number end (`Stops`). -/
def Answers {α : Type} (reader : Reader α) (text : List Char) (outcome : Except Fault α) : Prop :=
  ∀ gap rest, Blanks gap → Stops rest →
    reader (gap ++ (text ++ rest)) = outcome.map fun a => (a, rest)

theorem Answers.apply {α : Type} {reader : Reader α} {text : List Char}
    {outcome : Except Fault α} (h : Answers reader text outcome) {rest : List Char}
    (hrest : Stops rest) : reader (text ++ rest) = outcome.map fun a => (a, rest) :=
  h [] rest blanks_nil hrest

/-- `peekWord` sees the first character of a word through the blanks in front of it, whatever
follows the word. -/
theorem peekWord_begins {gap text : List Char} (hgap : Blanks gap) {c : Char} {tail : List Char}
    (htext : text = c :: tail) (hc : isSpace c = false) (rest : List Char) :
    peekWord (gap ++ (text ++ rest)) = .ok (some c, text ++ rest) := by
  rw [htext, List.cons_append]
  exact peekWord_append hgap hc

/-! ## Elements -/

/-- `nextElement` finds that an element comes next, and takes what leads to it (`Lead`). -/
theorem Lead.nextElement {first : Bool} {lead text : List Char} (h : Lead first lead)
    (htext : Begins text) : nextElement first (lead ++ text) = .ok (true, text) := by
  obtain ⟨c, rest, rfl, hspace, hbracket, hcomma⟩ := htext
  cases h with
  | first hgap =>
    rw [Json.nextElement, Reader.bind_ok (peekWord_append hgap hspace)]
    -- The character is neither of the two that the match names.
    simp only
    rfl
  | comma hgap hgap' =>
    rw [Json.nextElement, List.append_assoc, List.cons_append,
      Reader.bind_ok (peekWord_append hgap (by decide))]
    change (advance >>= _) _ = _
    rw [Reader.bind_ok (advance_cons _ _), Reader.bind_ok (peekWord_append hgap' hspace)]
    simp only
    rfl

/-- `nextElement` finds that no element comes next, and leaves the bracket, which is for `close`. -/
theorem nextElement_close (first : Bool) {gap : List Char} (hgap : Blanks gap)
    (rest : List Char) : nextElement first (gap ++ ']' :: rest) = .ok (false, ']' :: rest) := by
  rw [Json.nextElement, Reader.bind_ok (peekWord_append hgap (by decide))]
  rfl

/-- `close` takes the bracket that it is given, if it comes next. -/
theorem close_cons {bracket : Char} (rest : List Char) (h : isSpace bracket = false) :
    close bracket (bracket :: rest) = .ok ((), rest) := by
  rw [close, Reader.bind_ok (peekWord_cons rest h)]
  dsimp only
  rw [if_pos rfl, advance_cons]

section

variable {α β : Type} {P : α → List Char → Prop} {first : Bool} {xs : List α} {body : List Char}

/-- Every element of a `Listed` takes at least one character, so a list has no more elements than
characters. -/
theorem Listed.length_le (hP : ∀ x piece, P x piece → Begins piece) (h : Listed P first xs body) :
    xs.length ≤ body.length := by
  induction h with
  | done _ => exact Nat.zero_le _
  | @next _ x rest lead piece text _ hx _ ih =>
    obtain ⟨c, tail, rfl, -⟩ := hP x piece hx
    rw [List.length_append, List.length_append, List.length_cons, List.length_cons]
    omega

/-- The outcome of a list is that of its elements, from the first to the last.  The reader has a
turn for every character of the text, and there are `turns` enough. -/
theorem Listed.elementsFrom {item : Reader β} {outcome : α → Except Fault β}
    (hP : ∀ x piece, P x piece → Begins piece)
    (hitem : ∀ x piece, P x piece → Answers item piece (outcome x)) (h : Listed P first xs body) :
    ∀ (turns : List Char) (read : List β) (rest : List Char), xs.length < turns.length →
      elementsFrom item turns first read (body ++ ']' :: rest) =
        (xs.mapM outcome).map fun ys => (read.reverse ++ ys, ']' :: rest) := by
  have hbracket : ∀ rest, Stops (']' :: rest) := fun rest =>
    stops_cons (by decide) (by decide) (by decide) (by decide)
  induction h with
  | @done first gap hgap =>
    intro turns read rest hturns
    obtain ⟨turn, turns, rfl⟩ := List.exists_cons_of_length_pos hturns
    rw [Json.elementsFrom, Reader.bind_ok (nextElement_close first hgap rest), List.mapM_nil]
    change _ = Except.ok (read.reverse ++ [], _)
    rw [List.append_nil]
    rfl
  | @next first x more lead piece text hlead hx hmore ih =>
    intro turns read rest hturns
    obtain ⟨turn, turns, rfl⟩ := List.exists_cons_of_length_pos (Nat.zero_lt_of_lt hturns)
    have hnext := hlead.nextElement ((hP x piece hx).append (text ++ ']' :: rest))
    have hread := (hitem x piece hx).apply (hmore.stops (hbracket rest))
    rw [List.length_cons, List.length_cons] at hturns
    rw [Json.elementsFrom, List.append_assoc, List.append_assoc, Reader.bind_ok hnext, if_pos rfl,
      List.mapM_cons]
    refine Reader.bind_map hread fun y => ?_
    rw [ih turns (y :: read) rest (by omega), List.reverse_cons]
    cases more.mapM outcome with
    | error fault => rfl
    | ok ys =>
      change Except.ok (read.reverse ++ [y] ++ ys, _) = Except.ok (read.reverse ++ (y :: ys), _)
      rw [List.append_assoc, List.singleton_append]

/-- The outcome of `elements` on a whole list, read up to its closing bracket.  The text has more
characters than the list has elements (`Listed.length_le`), so the turns do not run out. -/
theorem Listed.elements {item : Reader β} {outcome : α → Except Fault β}
    (hP : ∀ x piece, P x piece → Begins piece)
    (hitem : ∀ x piece, P x piece → Answers item piece (outcome x)) (h : Listed P true xs body)
    (rest : List Char) :
    elements item (body ++ ']' :: rest) = (xs.mapM outcome).map fun ys => (ys, ']' :: rest) := by
  -- There are at least as many turns as elements, and one more for the bracket.
  have hlength := h.length_le hP
  refine h.elementsFrom hP hitem _ [] rest ?_
  rw [List.length_append, List.length_cons]
  omega

/-! ## Members -/

/-- `nextKey` finds that a key comes next; what leads to it (`Lead`) and the key itself are
taken. -/
theorem Lead.nextKey {key : String} {lead name : List Char} (h : Lead first lead)
    (hname : StringSpelled key name) (text : List Char) :
    nextKey strict first (lead ++ (name ++ text)) = .ok (some key, text) := by
  have hread : strict.string (name ++ text) = .ok (key, text) := hname.quotedString text
  obtain ⟨_⟩ := hname
  cases h with
  | first hgap =>
    rw [Json.nextKey, List.cons_append, List.cons_append,
      Reader.bind_ok (peekWord_append hgap (by decide))]
    exact Reader.map_ok hread
  | comma hgap hgap' =>
    rw [Json.nextKey, List.append_assoc, List.cons_append,
      Reader.bind_ok (peekWord_append hgap (by decide))]
    change (advance >>= _) _ = _
    rw [Reader.bind_ok (advance_cons _ _), List.cons_append, List.cons_append,
      Reader.bind_ok (peekWord_append hgap' (by decide))]
    exact Reader.map_ok hread

/-- `nextKey` finds that no key comes next, and leaves the brace. -/
theorem nextKey_close (first : Bool) {gap : List Char} (hgap : Blanks gap) (rest : List Char) :
    nextKey strict first (gap ++ '}' :: rest) = .ok (none, '}' :: rest) := by
  rw [Json.nextKey, Reader.bind_ok (peekWord_append hgap (by decide))]
  rfl

/-- `colon` leaves out the blanks in front of a colon and takes it. -/
theorem colon_append {gap : List Char} (hgap : Blanks gap) (rest : List Char) :
    colon (gap ++ ':' :: rest) = .ok ((), rest) := by
  rw [colon, Reader.bind_ok (peekWord_append hgap (by decide))]
  rfl

/-- What a reader of members comes to on what stands behind a key, the colon included: it takes the
member into the state as `step` does. -/
def TakesMembers {σ : Type} (P : α → List Char → Prop) (member : σ → String → Reader σ)
    (step : σ → String × α → Except Fault σ) : Prop :=
  ∀ state key x text gap gap' rest, P x text → Blanks gap → Blanks gap' → Stops rest →
    member state key (gap ++ ':' :: (gap' ++ (text ++ rest))) =
      (step state (key, x)).map fun state => (state, rest)

/-- The part of `TakesMembers` for one key.  Not every reader of members can say it of all keys. -/
def TakesKey {σ : Type} (P : α → List Char → Prop) (member : σ → String → Reader σ)
    (step : σ → String × α → Except Fault σ) (key : String) : Prop :=
  ∀ state x text gap gap' rest, P x text → Blanks gap → Blanks gap' → Stops rest →
    member state key (gap ++ ':' :: (gap' ++ (text ++ rest))) =
      (step state (key, x)).map fun state => (state, rest)

/-- A reader that takes members whatever their key does so for each key. -/
theorem TakesMembers.takesKey {σ : Type} {member : σ → String → Reader σ}
    {step : σ → String × α → Except Fault σ} (h : TakesMembers P member step) (key : String) :
    TakesKey P member step key :=
  fun state => h state key

/-- A member begins with the quote of its key, which is neither a blank nor a bracket nor a
comma. -/
theorem Member.begins {m : String × α} {text : List Char} (h : Member P m text) : Begins text := by
  obtain ⟨hname, -, -, -⟩ := h
  exact hname.begins.append _

/-- `membersFrom` takes the members into the state from the first to the last.  The induction is on
the list, as for elements. -/
theorem Listed.membersFrom {σ : Type} {member : σ → String → Reader σ}
    {step : σ → String × α → Except Fault σ} {ms : List (String × α)}
    (h : Listed (Member P) first ms body) (hmember : ∀ m ∈ ms, TakesKey P member step m.1) :
    ∀ (turns : List Char) (state : σ) (rest : List Char), ms.length < turns.length →
      membersFrom strict member turns first state (body ++ '}' :: rest) =
        (ms.foldlM step state).map fun state => (state, '}' :: rest) := by
  have hbrace : ∀ rest, Stops ('}' :: rest) := fun rest =>
    stops_cons (by decide) (by decide) (by decide) (by decide)
  induction h with
  | @done first gap hgap =>
    intro turns state rest hturns
    obtain ⟨turn, turns, rfl⟩ := List.exists_cons_of_length_pos hturns
    rw [Json.membersFrom, Reader.bind_ok (nextKey_close first hgap rest)]
    rfl
  | @next first m more lead piece text hlead hm hmore ih =>
    intro turns state rest hturns
    obtain ⟨turn, turns, rfl⟩ := List.exists_cons_of_length_pos (Nat.zero_lt_of_lt hturns)
    obtain ⟨htakes, hmore'⟩ := List.forall_mem_cons.mp hmember
    obtain @⟨key, x, name, gap, gap', value, hname, hgap, hgap', hx⟩ := hm
    have hread := htakes state x value gap gap' _ hx hgap hgap' (hmore.stops (hbrace rest))
    -- The reader of members takes the key; the colon and what follows are left to `member`.
    have hshape : lead ++ (name ++ (gap ++ ':' :: (gap' ++ value)) ++ text) ++ '}' :: rest =
        lead ++ (name ++ (gap ++ ':' :: (gap' ++ (value ++ (text ++ '}' :: rest))))) := by
      simp only [List.append_assoc, List.cons_append]
    rw [List.length_cons, List.length_cons] at hturns
    rw [hshape, Json.membersFrom, Reader.bind_ok (hlead.nextKey hname _), List.foldlM_cons]
    exact Reader.bind_map hread fun next => ih hmore' turns next rest (by omega)

/-- The outcome of `members` on an object, read up to its closing bracket, with turns enough by
`Listed.length_le`. -/
theorem Listed.members {σ : Type} {member : σ → String → Reader σ}
    {step : σ → String × α → Except Fault σ} {ms : List (String × α)}
    (h : Listed (Member P) true ms body) (hmember : ∀ m ∈ ms, TakesKey P member step m.1)
    (start : σ) (rest : List Char) :
    members strict member start (body ++ '}' :: rest) =
      (ms.foldlM step start).map fun state => (state, '}' :: rest) := by
  have hlength := h.length_le fun _ _ hm => hm.begins
  refine h.membersFrom hmember _ start rest ?_
  rw [List.length_append, List.length_cons]
  omega

end

/-! ## Values -/

/-- A number starts with a minus or a digit, so the first characters of all other values can be
ruled out for it. -/
theorem NumberSpelled.ne_head {n : Number} {text : List Char} (h : NumberSpelled n text) :
    ∃ c tail, text = c :: tail ∧ (c = '-' ∨ c.isDigit = true) ∧
      ∀ d : Char, d ≠ '-' → d.isDigit = false → c ≠ d := by
  obtain ⟨c, tail, rfl, hc⟩ := h.head
  refine ⟨c, tail, rfl, hc, fun d hminus hdigit => ?_⟩
  rcases hc with rfl | hc
  · exact hminus.symm
  · exact ne_of_isDigit hc hdigit

/-- `scalar` reads a value that opens no bracket by its first character, and a string is the only
one that starts with a quote. -/
theorem Spelled.scalar {v : Value} {text : List Char} (h : Spelled v text) (hv : v.depth = 0)
    {rest : List Char} (hrest : Stops rest) :
    ∃ c tail, text = c :: tail ∧ isSpace c = false ∧ c ≠ '[' ∧ c ≠ '{' ∧
      (c = '"' ↔ ∃ s, v = .string s) ∧ scalar strict c (text ++ rest) = .ok (v, rest) := by
  cases h with
  | null =>
    refine ⟨'n', _, rfl, by decide, by decide, by decide, ⟨nofun, nofun⟩, ?_⟩
    rw [Json.scalar, if_pos rfl, Reader.bind_ok (literal_append ['n', 'u', 'l', 'l'] rest)]
    rfl
  | yes =>
    refine ⟨'t', _, rfl, by decide, by decide, by decide, ⟨nofun, nofun⟩, ?_⟩
    rw [Json.scalar, if_neg (by decide), if_pos rfl,
      Reader.bind_ok (literal_append ['t', 'r', 'u', 'e'] rest)]
    rfl
  | no =>
    refine ⟨'f', _, rfl, by decide, by decide, by decide, ⟨nofun, nofun⟩, ?_⟩
    rw [Json.scalar, if_neg (by decide), if_neg (by decide), if_pos rfl,
      Reader.bind_ok (literal_append ['f', 'a', 'l', 's', 'e'] rest)]
    rfl
  | @string s _ hs =>
    have hread : strict.string (text ++ rest) = .ok (s, rest) := hs.quotedString rest
    obtain ⟨_⟩ := hs
    refine ⟨'"', _, rfl, by decide, by decide, by decide, ⟨fun _ => ⟨s, rfl⟩, fun _ => rfl⟩, ?_⟩
    rw [Json.scalar, if_neg (by decide), if_neg (by decide), if_neg (by decide), if_pos rfl]
    exact Reader.map_ok hread
  | @number n _ hn =>
    have hread := hn.strict hrest
    obtain ⟨c, tail, rfl, hc, hne⟩ := hn.ne_head
    have hspace : isSpace c = false := by
      rw [← Bool.not_eq_true, isSpace_iff, not_or, not_or, not_or]
      exact ⟨hne ' ' (by decide) (by decide), hne '\n' (by decide) (by decide),
        hne '\t' (by decide) (by decide), hne '\r' (by decide) (by decide)⟩
    have hquote := hne '"' (by decide) (by decide)
    refine ⟨c, tail, rfl, hspace, hne '[' (by decide) (by decide), hne '{' (by decide) (by decide),
      ⟨fun h => absurd h hquote, nofun⟩, ?_⟩
    rw [Json.scalar, if_neg (hne 'n' (by decide) (by decide)),
      if_neg (hne 't' (by decide) (by decide)), if_neg (hne 'f' (by decide) (by decide)),
      if_neg hquote, if_pos hc]
    exact Reader.map_ok hread
  | array _ => exact absurd hv (Nat.succ_ne_zero _)
  | object _ => exact absurd hv (Nat.succ_ne_zero _)

/-- What stands for a value inside which at most so many brackets may be open; one bracket more is a
`badToken` where it stands. -/
def bounded {α : Type} (f : α → Value) (depth : Nat) (x : α) : Except Fault α :=
  if (f x).depth ≤ depth then .ok x else .error .badToken

/-- `bounded` for the value itself, which is then what is read. -/
def within (depth : Nat) (v : Value) : Except Fault Value :=
  if v.depth ≤ depth then .ok v else .error .badToken

/-- Several values are `bounded` if the deepest of them is.  The first that is too deep ends the
reading, but the fault is the same for each. -/
theorem mapM_bounded {α : Type} (f : α → Value) (depth : Nat) (xs : List α) :
    xs.mapM (bounded f depth) =
      if Value.itemsDepth (xs.map f) ≤ depth then .ok xs else .error .badToken := by
  induction xs with
  | nil =>
    rw [List.mapM_nil, List.map_nil, Value.itemsDepth, if_pos (Nat.zero_le _)]
    rfl
  | cons x rest ih =>
    rw [List.mapM_cons, ih, bounded, List.map_cons, Value.itemsDepth]
    by_cases hx : (f x).depth ≤ depth
    · rw [if_pos hx]
      by_cases hrest : Value.itemsDepth (rest.map f) ≤ depth
      · rw [if_pos hrest, if_pos (Nat.max_le.mpr ⟨hx, hrest⟩)]
        rfl
      · rw [if_neg hrest, if_neg (fun h => hrest (Nat.max_le.mp h).2)]
        rfl
    · rw [if_neg hx, if_neg (fun h => hx (Nat.max_le.mp h).1)]
      rfl

/-- The same for `within`, which is `bounded` for values that stand for themselves. -/
theorem mapM_within (depth : Nat) (items : List Value) :
    items.mapM (within depth) =
      if Value.itemsDepth items ≤ depth then .ok items else .error .badToken := by
  have h := mapM_bounded id depth items
  rwa [List.map_id] at h

/-- An array is `within` a bound if its elements are within one less. -/
theorem within_array (depth : Nat) (items : List Value) :
    within (depth + 1) (.array items) =
      items.mapM (within depth) >>= fun items => .ok (.array items) := by
  rw [within, Value.depth, mapM_within]
  by_cases h : Value.itemsDepth items ≤ depth
  · rw [if_pos h, if_pos (Nat.succ_le_succ h)]
    rfl
  · rw [if_neg h, if_neg (fun hsucc => h (Nat.le_of_succ_le_succ hsucc))]
    rfl

/-- A member kept with those before it, if its value is `within` the bound. -/
def keep (depth : Nat) (read : List (String × Value)) (m : String × Value) :
    Except Fault (List (String × Value)) :=
  within depth m.2 >>= fun v => .ok ((m.1, v) :: read)

/-- All members are kept, the last one first, if the deepest of their values is `within` the
bound. -/
theorem foldlM_keep (depth : Nat) (members : List (String × Value)) :
    ∀ read : List (String × Value),
      members.foldlM (keep depth) read =
        if Value.membersDepth members ≤ depth then .ok (members.reverse ++ read)
        else .error .badToken := by
  induction members with
  | nil =>
    intro read
    rw [List.foldlM_nil, Value.membersDepth, if_pos (Nat.zero_le _), List.reverse_nil,
      List.nil_append]
    rfl
  | cons m rest ih =>
    intro read
    obtain ⟨key, v⟩ := m
    rw [List.foldlM_cons, keep, within, Value.membersDepth]
    by_cases hv : v.depth ≤ depth
    · rw [if_pos hv]
      change rest.foldlM (keep depth) ((key, v) :: read) = _
      rw [ih, List.reverse_cons, List.append_assoc, List.singleton_append]
      by_cases hrest : Value.membersDepth rest ≤ depth
      · rw [if_pos hrest, if_pos (Nat.max_le.mpr ⟨hv, hrest⟩)]
      · rw [if_neg hrest, if_neg (fun h => hrest (Nat.max_le.mp h).2)]
    · rw [if_neg hv, if_neg (fun h => hv (Nat.max_le.mp h).1)]
      rfl

/-- An object is `within` a bound if the values of its members are within one less. -/
theorem within_object (depth : Nat) (members : List (String × Value)) :
    within (depth + 1) (.object members) =
      members.foldlM (keep depth) [] >>= fun read => .ok (.object read.reverse) := by
  rw [within, Value.depth, foldlM_keep]
  by_cases h : Value.membersDepth members ≤ depth
  · rw [if_pos h, if_pos (Nat.succ_le_succ h), List.append_nil]
    change _ = Except.ok (Value.object members.reverse.reverse)
    rw [List.reverse_reverse]
  · rw [if_neg h, if_neg (fun hsucc => h (Nat.le_of_succ_le_succ hsucc))]
    rfl

/-- The reader of members takes a value as `keep` does, if the reader inside has the bound for its
outcome. -/
theorem keepMember_takes {depth : Nat} {inner : Reader Value}
    (hinner : ∀ v text, Spelled v text → Answers inner text (within depth v)) :
    TakesMembers Spelled (keepMember inner) (keep depth) := by
  intro read key v text gap gap' rest hv hgap hgap' hrest
  rw [keepMember, Reader.bind_ok (colon_append hgap _), keep]
  exact Reader.bind_map (hinner v text hv gap' rest hgap' hrest) fun _ => rfl

/-- `valueAround` reads a value that opens no bracket in any depth. -/
theorem valueAround_scalar {v : Value} {text : List Char} (h : Spelled v text) (hv : v.depth = 0)
    (inner : Option (Reader Value)) : Answers (valueAround strict inner) text (.ok v) := by
  intro gap rest hgap hrest
  obtain ⟨c, tail, htext, hspace, hbracket, hbrace, -, hscalar⟩ := h.scalar hv hrest
  unfold valueAround
  rw [Reader.bind_ok (peekWord_begins hgap htext hspace rest)]
  simp only
  exact hscalar

/-- `valueAround` reads an array with the reader `inner`, which is given one bracket less. -/
theorem valueAround_array {inner : Reader Value} {depth : Nat}
    (hinner : ∀ v text, Spelled v text → Answers inner text (within depth v))
    {items : List Value} {body : List Char} (h : Listed Spelled true items body) :
    Answers (valueAround strict (some inner)) ('[' :: (body ++ [']']))
      (within (depth + 1) (.array items)) := by
  intro gap rest hgap hrest
  unfold valueAround
  rw [Reader.bind_ok (peekWord_begins hgap rfl (by decide) rest), List.cons_append,
    List.append_assoc, List.singleton_append]
  change (advance >>= _) _ = _
  rw [Reader.bind_ok (advance_cons _ _), within_array]
  refine Reader.bind_map (h.elements (fun _ _ hv => hv.begins) hinner rest) fun items => ?_
  exact Reader.bind_ok (close_cons rest (by decide))

/-- `valueAround` reads an object with the reader `inner`, which is given one bracket less. -/
theorem valueAround_object {inner : Reader Value} {depth : Nat}
    (hinner : ∀ v text, Spelled v text → Answers inner text (within depth v))
    {members : List (String × Value)} {body : List Char}
    (h : Listed (Member Spelled) true members body) :
    Answers (valueAround strict (some inner)) ('{' :: (body ++ ['}']))
      (within (depth + 1) (.object members)) := by
  intro gap rest hgap hrest
  unfold valueAround
  rw [Reader.bind_ok (peekWord_begins hgap rfl (by decide) rest), List.cons_append,
    List.append_assoc, List.singleton_append]
  change (advance >>= _) _ = _
  rw [Reader.bind_ok (advance_cons _ _), within_object]
  have hmembers := h.members (fun m _ => (keepMember_takes hinner).takesKey m.1) [] rest
  refine Reader.bind_map hmembers fun read => ?_
  exact Reader.bind_ok (close_cons rest (by decide))

/-- The reader of values comes to a value exactly if it is `within` the bound.  The induction is on
the brackets that may still be opened: the values inside a bracket are read with one less. -/
theorem Spelled.value (depth : Nat) : ∀ {v : Value} {text : List Char}, Spelled v text →
    Answers (value strict depth) text (within depth v) := by
  have hscalar : ∀ {v : Value} {text : List Char} (depth : Nat) (inner : Option (Reader Value)),
      Spelled v text → v.depth = 0 →
        Answers (valueAround strict inner) text (within depth v) := by
    intro v text depth inner h hv
    rw [within, if_pos (by omega)]
    exact valueAround_scalar h hv inner
  induction depth with
  | zero =>
    intro v text h
    rw [Json.value]
    by_cases hv : v.depth = 0
    · exact hscalar 0 none h hv
    · rw [within, if_neg (by omega)]
      intro gap rest hgap hrest
      unfold valueAround
      cases h with
      | array _ =>
        rw [Reader.bind_ok (peekWord_begins hgap rfl (by decide) rest)]
        rfl
      | object _ =>
        rw [Reader.bind_ok (peekWord_begins hgap rfl (by decide) rest)]
        rfl
      | _ => exact absurd rfl hv
  | succ depth ih =>
    intro v text h
    rw [Json.value]
    -- Without brackets of its own a value does not touch the budget.
    by_cases hv : v.depth = 0
    · exact hscalar (depth + 1) _ h hv
    · cases h with
      | array hitems => exact valueAround_array (fun _ _ => ih) hitems
      | object hms => exact valueAround_object (fun _ _ => ih) hms
      | _ => exact absurd rfl hv

/-! ## Strings and sequences -/

/-- A string where one is asked for, or a `Mismatch` that tells what stands there instead. -/
def Value.stringFor (expected : Expected) : Value → Except Fault String
  | .string s => .ok s
  | v => .error (.mismatch (.wrongType v.found expected))

/-- Whatever value stands where a string is asked for, `readString` takes a string and names
everything else. -/
theorem Spelled.readString {v : Value} {text : List Char} (h : Spelled v text)
    (expected : Expected) : Answers (readString expected) text (v.stringFor expected) := by
  intro gap rest hgap hrest
  rw [Json.readString]
  by_cases hv : v.depth = 0
  · obtain ⟨c, tail, htext, hspace, hbracket, hbrace, hquote, hscalar⟩ := h.scalar hv hrest
    rw [Reader.bind_ok (peekWord_begins hgap htext hspace rest)]
    dsimp only
    -- The reader looks at the first character only, and strings alone start with a quote.
    by_cases hc : c = '"'
    · obtain ⟨s, rfl⟩ := hquote.mp hc
      rw [if_pos hc]
      cases h with
      | string hs => exact hs.quotedString rest
    · rw [if_neg hc, refuse, if_neg hbracket, if_neg hbrace, Reader.bind_ok hscalar]
      cases v with
      | string s => exact absurd (hquote.mpr ⟨s, rfl⟩) hc
      | _ => rfl
  · cases h with
    | array _ =>
      rw [Reader.bind_ok (peekWord_begins hgap rfl (by decide) rest)]
      rfl
    | object _ =>
      rw [Reader.bind_ok (peekWord_begins hgap rfl (by decide) rest)]
      rfl
    | _ => exact absurd rfl hv

/-- `readSequence` of an array has the outcome of its elements. -/
theorem Listed.readSequence {α β : Type} {P : α → List Char → Prop} {item : Reader β}
    {outcome : α → Except Fault β} (hP : ∀ x piece, P x piece → Begins piece)
    (hitem : ∀ x piece, P x piece → Answers item piece (outcome x)) {xs : List α}
    {body : List Char} (h : Listed P true xs body) :
    Answers (readSequence item) ('[' :: (body ++ [']'])) (xs.mapM outcome) := by
  intro gap rest hgap hrest
  rw [Json.readSequence, Reader.bind_ok (peekWord_begins hgap rfl (by decide) rest)]
  dsimp only
  rw [if_pos rfl, List.cons_append, List.append_assoc, List.singleton_append,
    Reader.bind_ok (advance_cons _ _), ← bind_pure (xs.mapM outcome)]
  refine Reader.bind_map (h.elements hP hitem rest) fun ys => ?_
  exact Reader.bind_ok (close_cons rest (by decide))

/-! ## Whole texts -/

/-- For `decode` blanks may stand around the text that is read, and nothing else. -/
theorem Answers.decode {α : Type} {reader : Reader α} {text : List Char}
    {outcome : Except Fault α} (h : Answers reader text outcome) {source : String}
    {gap gap' : List Char} (hgap : Blanks gap) (hgap' : Blanks gap')
    (hsource : source.toList = gap ++ (text ++ gap')) : decode reader source = outcome := by
  have hstops : Stops gap' := by
    have hnil := hgap'.stops stops_nil
    rwa [List.append_nil] at hnil
  rw [Json.decode, hsource, h gap gap' hgap hstops]
  cases outcome with
  | error fault => rfl
  | ok a =>
    change (if gap'.all isSpace = true then Except.ok a else .error Fault.badToken) = .ok a
    rw [if_pos (List.all_eq_true.mpr hgap')]

/-- The text is a spelling (`Spelled`) of the value, with `Blanks` around it. -/
def Holds (source : String) (v : Value) : Prop :=
  ∃ gap text gap', Blanks gap ∧ Spelled v text ∧ Blanks gap' ∧
    source.toList = gap ++ (text ++ gap')

/-- What `decode` makes of a source is what the reader comes to on every spelling of the value that
the source holds. -/
theorem Holds.decode {α : Type} {reader : Reader α} {source : String} {v : Value}
    {outcome : Except Fault α} (h : Holds source v)
    (hread : ∀ text, Spelled v text → Answers reader text outcome) :
    Json.decode reader source = outcome := by
  obtain ⟨gap, text, gap', hgap, htext, hgap', hsource⟩ := h
  exact (hread text htext).decode hgap hgap' hsource

end MessageTemplate.Json
