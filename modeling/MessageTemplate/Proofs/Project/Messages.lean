/-
What is sent and kept comes back.

Edits and carets are sent as compact JSON, the configuration of a project is kept as JSON in its
directory, and kinds and branches are sent as their names.  Reading any of them gives back what was
written: `messages_come_back`, with `Kind.parse_holds` and `Branch.parse_holds` for the names.

An edit may even come with its members in another order and with members that nobody knows.  The
reader of JSON goes through such a member before it leaves it out, so the member has to be JSON that
the reader gives a value to.  `messages_refused` has one message for each way to fail: brackets that
nest deeper than the reader follows, a number out of the range of a double, and an escape that is
half of a surrogate pair.  Texts of the last two kinds are spellings of no value, so there is none
that they hold (`Holds`), and nesting is what is left to be said of the others.
-/
import MessageTemplate.Project.Command
import MessageTemplate.Proofs.Edit.Messages
import MessageTemplate.Tree.Written

set_option autoImplicit false

namespace MessageTemplate

open Json

/-! ## Names of kinds and branches -/

/-- The name of a `Kind` is read as that kind, from any source that `Holds` it. -/
theorem Kind.parse_holds {k : Kind} {source : String} (h : Holds source k.toJson) :
    Kind.parse source = .ok k :=
  Holds.readName h (by cases k <;> rfl)

/-- The name of a `Branch` is read as that branch, from any source that `Holds` it. -/
theorem Branch.parse_holds {b : Branch} {source : String} (h : Holds source b.toJson) :
    Branch.parse source = .ok b :=
  Holds.readName h (by cases b <;> rfl)

/-! ## Configurations -/

namespace Config

/-- What a value comes to as a field of a configuration.  The field is chosen by its key, as in
`Record.take`. -/
def judge (key : String) (found : Option String × Option (List String)) (v : Value) :
    Except Fault (Option String × Option (List String)) :=
  if key = "varNames" then
    (v.sequenceFor fun item => item.stringFor .string).map fun names => (found.1, some names)
  else (v.stringFor .string).map fun template => (some template, found.2)

theorem mapM_stringFor (expected : Expected) (names : List String) :
    (names.map Value.string).mapM (fun item => item.stringFor expected) = .ok names := by
  induction names with
  | nil => rfl
  | cons name rest ih =>
    rw [List.map_cons, List.mapM_cons, ih]
    rfl

/-- A `Config` that is written comes back as it was, from any source that `Holds` it. -/
theorem parse_holds {c : Config} {source : String} (h : Holds source c.toJson) :
    parse source = .ok c := by
  have hmembers : ∀ m ∈ [("template", Value.string c.template),
      ("varNames", .array (c.names.map .string))],
        TakesKey Spelled record.readMember (record.take judge) m.1 := by
    rw [List.forall_mem_cons, List.forall_mem_singleton]
    constructor
    · refine Record.readMember_takes rfl fun found v text hv => ?_
      exact (hv.readString .string).map fun template => (some template, found.2)
    · refine Record.readMember_takes rfl fun found v text hv => ?_
      have hnames := hv.readSequence fun item _ hitem => hitem.readString .string
      exact hnames.map fun names => (found.1, some names)
  have htake : record.take judge (some c.template, none)
      ("varNames", .array (c.names.map .string)) = .ok (some c.template, some c.names) := by
    change ((c.names.map Value.string).mapM fun (item : Value) => item.stringFor .string).map _ = _
    rw [mapM_stringFor]
    rfl
  refine (Record.read_object h hmembers).trans ?_
  change (record.take judge (some c.template, none) ("varNames", .array (c.names.map .string)) >>=
    fun found => pure found) >>= _ = _
  rw [htake]
  rfl

/-- A `Config` has no numbers, so it is `Integral` and printed as what it is. -/
theorem toJson_integral (c : Config) : c.toJson.Integral := by
  have hnames : ∀ names : List String, Value.ItemsIntegral (names.map .string) := by
    intro names
    induction names with
    | nil => trivial
    | cons name rest ih => exact ⟨trivial, ih⟩
  exact ⟨trivial, hnames c.names, trivial⟩

end Config

/-! ## Everything that is written -/

namespace Edit

/-- The caret of an `Edit` that has one. -/
def caret? : Edit → Option Nat
  | insertText _ caret _ => some caret
  | replaceText _ _ => none
  | insertConditional _ caret => some caret
  | deleteConditional _ => none

/-- An `Edit` is `Integral`, and printed as what it is, if its caret fits into 64 bits; that is the
only number in it. -/
theorem toJson_integral {e : Edit} (hcaret : ∀ caret ∈ e.caret?, caret < UInt64.size) :
    e.toJson.Integral := by
  cases e with
  | insertText a caret s => exact ⟨trivial, trivial, hcaret caret rfl, trivial, trivial⟩
  | replaceText a s => exact ⟨trivial, trivial, trivial, trivial⟩
  | insertConditional a caret => exact ⟨trivial, trivial, hcaret caret rfl, trivial⟩
  | deleteConditional a => exact ⟨trivial, trivial, trivial⟩

theorem depth_toJson (e : Edit) : e.toJson.depth = 1 := by
  cases e <;> rfl

end Edit

/-- So many pairs of brackets, one inside the other: a `Value` of any depth. -/
def nested : Nat → Value
  | 0 => .null
  | depth + 1 => .array [nested depth]

theorem depth_nested (depth : Nat) : (nested depth).depth = depth := by
  induction depth with
  | zero => rfl
  | succ depth ih =>
    rw [nested, Value.depth, Value.itemsDepth, Value.itemsDepth, ih, Nat.max_zero]

theorem nested_integral (depth : Nat) : (nested depth).Integral := by
  induction depth with
  | zero => trivial
  | succ depth ih => exact ⟨ih, trivial⟩

/-- An edit with one member that nobody knows, which keeps it from being read.  First the member is
good JSON and opens as many brackets as the reader follows, so that with those of the message it is
one too many; with one pair less it would be read.  Then it is a number that no double can hold,
where a smaller one would be read, and last a string with half of a surrogate pair. -/
theorem messages_refused :
    let e := Edit.deleteConditional ⟨"/0-if"⟩
    let own := [("op", .string "delete_conditional"), ("address", .string "/0-if")]
    let message := fun depth => own ++ [("note", nested depth)]
    e.toJson = .object own ∧ Holds (nested 127).compact (nested 127) ∧
      Holds (Value.object (message 127)).compact (.object (message 127)) ∧
      Edit.parse (Value.object (message 127)).compact = .error .badToken ∧
      Edit.parse (Value.object (message 126)).compact = .ok e ∧
      Edit.parse "\x7b\"op\":\"delete_conditional\",\"address\":\"/0-if\",\"note\":1e400\x7d" =
        .error .badToken ∧
      Edit.parse "\x7b\"op\":\"delete_conditional\",\"address\":\"/0-if\",\"note\":1e300\x7d" =
        .ok e ∧
      Edit.parse
          "\x7b\"op\":\"delete_conditional\",\"address\":\"/0-if\",\"note\":\"\\ud800\"\x7d" =
        .error .badToken := by
  intro e own message
  have hholds : ∀ depth, Holds (Value.object (message depth)).compact (.object (message depth)) :=
    fun depth => holds_compact ⟨trivial, trivial, nested_integral depth, trivial⟩
  have hdepth : ∀ depth, (Value.object (message depth)).depth = depth + 1 := by
    intro depth
    change max 0 (max 0 (max (nested depth).depth 0)) + 1 = _
    rw [depth_nested, Nat.zero_max, Nat.zero_max, Nat.max_zero]
  have hunknown : ∀ depth, ∀ m ∈ [("note", nested depth)], m.1 ∉ e.members.map Prod.fst := by
    intro depth m hm
    rw [List.mem_singleton.mp hm]
    change "note" ∉ ["op", "address"]
    decide
  have hparse := fun depth => Edit.parse_message (hholds depth) (List.Perm.refl _) (hunknown depth)
  refine ⟨rfl, holds_compact (nested_integral 127), hholds 127, ?_, ?_, by decide +kernel,
    by decide +kernel, by decide +kernel⟩
  · rw [hparse, hdepth, if_neg (by decide)]
  · rw [hparse, hdepth, if_pos (by decide)]

/-- Every edit with a caret of 64 bits, if it has one, every such focus and every configuration is
read from the compact text of its `toJson`.  An edit is also read from any text that holds its
members in whatever order among members with other keys.  That the text holds them, `Holds`, says
that each key and each value in it is one that the reader gives a meaning to, so a number out of
range or half a surrogate pair is excluded; of such texts those that open more than 127 brackets at
once are refused, and all others are read as the same edit. -/
theorem messages_come_back :
    (∀ e : Edit, (∀ caret ∈ e.caret?, caret < UInt64.size) →
      Edit.parse e.toJson.compact = .ok e) ∧
    (∀ (e : Edit) (own unknown message : List (String × Value)) (source : String),
      e.toJson = .object own → (∀ m ∈ unknown, m.1 ∉ own.map Prod.fst) →
        message.Perm (own ++ unknown) → Holds source (.object message) →
          Edit.parse source =
            if (Value.object message).depth ≤ 127 then .ok e else .error .badToken) ∧
    (∀ f : Focus, f.caret < UInt64.size → Focus.parse f.toJson.compact = .ok f) ∧
    ∀ c : Config, Config.parse c.toJson.compact = .ok c := by
  refine ⟨fun e hcaret => ?_, ?_, fun f hcaret => ?_, fun c => ?_⟩
  · have hholds := holds_compact (Edit.toJson_integral hcaret)
    have hperm : e.members.Perm (e.members ++ []) := by
      rw [List.append_nil]
    have hdepth := e.depth_toJson
    rw [Edit.toJson_eq] at hholds hdepth ⊢
    rw [Edit.parse_message hholds hperm (List.forall_mem_nil _), hdepth, if_pos (by decide)]
  · rintro e own unknown message source hown hunknown hperm hholds
    obtain rfl := Value.object.inj (e.toJson_eq.symm.trans hown)
    exact Edit.parse_message hholds hperm hunknown
  · exact Focus.parse_holds (holds_compact ⟨trivial, hcaret, trivial⟩)
  · exact Config.parse_holds (holds_compact c.toJson_integral)

/-- The largest caret, a text with a quote, a control character and one outside of the basic plane,
and a message with its tag at the end, behind an unknown member that has one as well. -/
theorem messages_come_back_reordered :
    let e := Edit.insertText ⟨"/0-if-then/1-text"⟩ 18446744073709551615 "\"\x07😀"
    let unknown := [("draft", Value.object [("op", .string "replace_text")])]
    let f : Focus := ⟨⟨"/0-text"⟩, 3⟩
    ∃ own, e.toJson = .object own ∧ (∀ m ∈ unknown, m.1 ∉ own.map Prod.fst) ∧
      Edit.parse e.toJson.compact = .ok e ∧
      Edit.parse (Value.object (unknown ++ own.reverse)).indented = .ok e ∧
      Focus.parse f.toJson.compact = .ok f ∧
      Config.parse Config.usual.toJson.compact = .ok Config.usual := by
  intro e unknown f
  obtain ⟨hedit, hmessage, hfocus, hconfig⟩ := messages_come_back
  have hunknown : ∀ m ∈ unknown, m.1 ∉ e.members.map Prod.fst := by
    intro m hm
    rw [List.mem_singleton.mp hm]
    decide
  have hperm : (unknown ++ e.members.reverse).Perm (e.members ++ unknown) :=
    List.perm_append_comm.trans ((List.reverse_perm _).append_right _)
  have hcaret : ∀ caret ∈ e.caret?, caret < UInt64.size := by
    rintro _ ⟨⟩
    decide
  have hintegral : (Value.object (unknown ++ e.members.reverse)).Integral := by
    refine ⟨⟨trivial, trivial⟩, trivial, ?_, trivial, trivial, trivial⟩
    exact hcaret _ rfl
  refine ⟨e.members, e.toJson_eq, hunknown, hedit e hcaret, ?_, hfocus f (by decide),
    hconfig .usual⟩
  rw [hmessage e e.members unknown _ _ e.toJson_eq hunknown hperm (holds_indented hintegral)]
  exact if_pos (by decide)

end MessageTemplate
