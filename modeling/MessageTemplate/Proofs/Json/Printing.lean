/-
What is printed is a spelling of what was printed.

The printer writes spellings of the value it is given, so what holds of every spelling holds of what
it writes.  In what layout it writes is a parameter: all that the proof needs to know of a `Layout`
is that it puts nothing but blanks between the words (`Layout.Blank`).  So there is one proof,
`printValue_spelled`, for the compact form and for the indented one.

Only integers of 64 bits are considered among the numbers (`Number.Integral`).  The other numbers
are rounded, and which decimal stands for them is a matter of its own.
-/
import MessageTemplate.Json.Printer
import MessageTemplate.Proofs.Json.Reading

set_option autoImplicit false

namespace MessageTemplate.Json

/-! ## Values without rounded numbers -/

/-- An integer of 64 bits, with a sign or without.  A `negative` number is kept by its absolute
value, which is not zero. -/
def Number.Integral : Number → Prop
  | .natural n => n < UInt64.size
  | .negative n => 0 < n ∧ n ≤ UInt64.size / 2
  | .floating _ _ => False

namespace Value

mutual

/-- All numbers in a `Value` are integers of 64 bits. -/
def Integral : Value → Prop
  | .number n => n.Integral
  | .array items => ItemsIntegral items
  | .object members => MembersIntegral members
  | _ => True

/-- All numbers in some values are integers of 64 bits; for the elements of an `array`. -/
def ItemsIntegral : List Value → Prop
  | [] => True
  | v :: rest => v.Integral ∧ ItemsIntegral rest

/-- All numbers in some members are integers of 64 bits; for the members of an `object`. -/
def MembersIntegral : List (String × Value) → Prop
  | [] => True
  | (_, v) :: rest => v.Integral ∧ MembersIntegral rest

end

end Value

/-! ## Words -/

theorem hexDigit?_digitChar : ∀ n < 16, hexDigit? (Nat.digitChar n) = some n := by
  decide

/-- `escapeChar` writes a control character by the number of its code point, for which two digits
are enough. -/
theorem control_spelled {c : Char} (h : c.toNat < 0x20) :
    CharSpelled c (['\\', 'u', '0', '0'] ++ twoHexDigits c.toNat) := by
  have hvalue : ((0 * 16 + 0) * 16 + c.toNat / 16) * 16 + c.toNat % 16 = c.toNat := by omega
  have hdigits : HexSpelled (((0 * 16 + 0) * 16 + c.toNat / 16) * 16 + c.toNat % 16)
      ('0' :: '0' :: twoHexDigits c.toNat) :=
    .digits rfl rfl (hexDigit?_digitChar _ (by omega)) (hexDigit?_digitChar _ (by omega))
  rw [hvalue] at hdigits
  have hhigh : isHighSurrogate c.toNat = false := by
    rw [isHighSurrogate, Bool.and_eq_false_iff, decide_eq_false_iff_not]
    omega
  have hlow : isLowSurrogate c.toNat = false := by
    rw [isLowSurrogate, Bool.and_eq_false_iff, decide_eq_false_iff_not]
    omega
  have hspelled := CharSpelled.numbered hdigits hhigh hlow
  rwa [Char.ofNat_toNat] at hspelled

/-- Whatever the printer writes for a character is a way of writing it.  The cases are those of
`escapeChar`. -/
theorem escapeChar_spelled (c : Char) : CharSpelled c (escapeChar c) := by
  by_cases hquote : c = '"'
  · subst hquote
    exact .short rfl
  by_cases hslash : c = '\\'
  · subst hslash
    exact .short rfl
  by_cases hback : c = '\x08'
  · subst hback
    exact .short rfl
  by_cases hfeed : c = '\x0c'
  · subst hfeed
    exact .short rfl
  by_cases hline : c = '\n'
  · subst hline
    exact .short rfl
  by_cases hreturn : c = '\r'
  · subst hreturn
    exact .short rfl
  by_cases htab : c = '\t'
  · subst htab
    exact .short rfl
  rw [escapeChar, if_neg hquote, if_neg hslash, if_neg hback, if_neg hfeed, if_neg hline,
    if_neg hreturn, if_neg htab]
  -- What is left is a control character without a short escape, or stands for itself.
  by_cases hcontrol : c.toNat < 0x20
  · rw [if_pos hcontrol]
    exact control_spelled hcontrol
  · rw [if_neg hcontrol]
    exact .plain hquote hslash (by omega)

/-- Characters written one after the other by `escapeChar` are the inside of a string,
`BodySpelled`. -/
theorem flatMap_escapeChar_spelled (cs : List Char) : BodySpelled cs (cs.flatMap escapeChar) := by
  induction cs with
  | nil => exact .done
  | cons c cs ih =>
    rw [List.flatMap_cons]
    exact .next (escapeChar_spelled c) ih

theorem printString_spelled (s : String) : StringSpelled s (printString s) :=
  .quoted (flatMap_escapeChar_spelled s.toList)

/-- A natural number is written by `Nat.toDigits` alone, with neither fraction nor exponent. -/
theorem toDigits_spelled (n : Nat) : NumeralSpelled ⟨false, Nat.toDigits 10 n, [], none⟩
    (Nat.toDigits 10 n) := by
  have h : NumeralSpelled ⟨false, Nat.toDigits 10 n, [], none⟩ (Nat.toDigits 10 n ++ ([] ++ [])) :=
    .parts (.plain (Text.toDigits_canonical n)) .absent .absent
  rwa [List.append_nil, List.append_nil] at h

theorem minus_toDigits_spelled (n : Nat) : NumeralSpelled ⟨true, Nat.toDigits 10 n, [], none⟩
    ('-' :: Nat.toDigits 10 n) := by
  have h : NumeralSpelled ⟨true, Nat.toDigits 10 n, [], none⟩
      ('-' :: Nat.toDigits 10 n ++ ([] ++ [])) :=
    .parts (.minus (Text.toDigits_canonical n)) .absent .absent
  rwa [List.append_nil, List.append_nil] at h

/-- `printNumber` writes an integer of 64 bits as a spelling of it: what the digits stand for is in
range, so the reader keeps it as an integer and does not round it. -/
theorem printNumber_spelled {n : Number} (h : n.Integral) : NumberSpelled n (printNumber n) := by
  -- A number is read back as the constructor it was printed from; only integers are left to
  -- consider.
  cases n with
  | natural n =>
    refine .value (toDigits_spelled n) ?_
    rw [Numeral.value]
    dsimp only
    rw [Nat.ofDigitChars_ten_toDigits, if_pos ⟨rfl, rfl, h⟩]
    rfl
  | negative n =>
    obtain ⟨hpos, hle⟩ := h
    have hbound : n < Numeral.significandBound := by
      rw [Numeral.significandBound]
      omega
    refine .value (minus_toDigits_spelled n) ?_
    rw [Numeral.value]
    dsimp only
    rw [Nat.ofDigitChars_ten_toDigits, if_pos ⟨rfl, rfl, hbound⟩, if_neg (by decide),
      if_pos ⟨hpos, hle⟩]
  | floating minus m => exact h.elim

/-! ## Brackets -/

/-- Further elements of a `Listed` with the closing bracket behind them.  This is what the printer
writes behind each element, so it is what the induction can speak of. -/
def Closed {α : Type} (P : α → List Char → Prop) (bracket : Char) (xs : List α)
    (text : List Char) : Prop :=
  ∃ body, text = body ++ [bracket] ∧ Listed P false xs body

section

variable {α : Type} {P : α → List Char → Prop} {bracket : Char} {gap piece text : List Char}

theorem closed_nil (hgap : Blanks gap) : Closed P bracket [] (gap ++ [bracket]) :=
  ⟨gap, rfl, .done hgap⟩

theorem closed_cons {x : α} {xs : List α} (hgap : Blanks gap) (hx : P x piece)
    (hrest : Closed P bracket xs text) :
    Closed P bracket (x :: xs) (',' :: (gap ++ (piece ++ text))) := by
  obtain ⟨body, rfl, hbody⟩ := hrest
  refine ⟨_, ?_, .next (.comma blanks_nil hgap) hx hbody⟩
  rw [List.nil_append, List.cons_append, List.cons_append, List.append_assoc, List.append_assoc]

/-- The first element has no comma in front of it, so it is put before further ones (`Closed`) to
make a whole `Listed`. -/
theorem listed_of_closed {x : α} {xs : List α} (hgap : Blanks gap) (hx : P x piece)
    (hrest : Closed P bracket xs text) :
    ∃ body, gap ++ (piece ++ text) = body ++ [bracket] ∧ Listed P true (x :: xs) body := by
  obtain ⟨body, rfl, hbody⟩ := hrest
  refine ⟨_, ?_, .next (.first hgap) hx hbody⟩
  rw [List.append_assoc, List.append_assoc]

/-- An array is spelled by its first element and the further ones (`Closed`) behind it. -/
theorem array_spelled {v : Value} {rest : List Value} (hgap : Blanks gap) (hv : Spelled v piece)
    (hrest : Closed Spelled ']' rest text) :
    Spelled (.array (v :: rest)) ('[' :: (gap ++ (piece ++ text))) := by
  obtain ⟨body, heq, hbody⟩ := listed_of_closed hgap hv hrest
  rw [heq]
  exact .array hbody

/-- An object is spelled by its first member and the further ones (`Closed`) behind it. -/
theorem object_spelled {m : String × Value} {rest : List (String × Value)} (hgap : Blanks gap)
    (hm : Member Spelled m piece) (hrest : Closed (Member Spelled) '}' rest text) :
    Spelled (.object (m :: rest)) ('{' :: (gap ++ (piece ++ text))) := by
  obtain ⟨body, heq, hbody⟩ := listed_of_closed hgap hm hrest
  rw [heq]
  exact .object hbody

/-- The key of a member is printed as a string, and what stands between its colon and its value are
blanks, so `printMember` writes a member whenever the value is spelled. -/
theorem printMember_spelled {l : Layout} (hspace : Blanks l.space) (key : String) {v : Value}
    (hv : Spelled v piece) : Member Spelled (key, v) (printMember l key piece) := by
  have h : Member Spelled (key, v) (printString key ++ ([] ++ ':' :: (l.space ++ piece))) :=
    .colon (printString_spelled key) blanks_nil hspace hv
  rwa [List.nil_append] at h

end

/-- `printScalar` writes what has nothing inside as a spelling of it: a value without brackets, and
empty brackets. -/
theorem printScalar_spelled {v : Value} (h : v.Integral)
    (hv : v.depth = 0 ∨ v = .array [] ∨ v = .object []) : Spelled v (printScalar v) := by
  cases v with
  | null => exact .null
  | boolean b =>
    cases b with
    | true => exact .yes
    | false => exact .no
  | number n => exact .number (printNumber_spelled h)
  | string s => exact .string (printString_spelled s)
  | array items =>
    obtain hdepth | heq | heq := hv
    · exact absurd hdepth (Nat.succ_ne_zero _)
    · obtain rfl := Value.array.inj heq
      exact .array (.done blanks_nil)
    · exact absurd heq nofun
  | object members =>
    obtain hdepth | heq | heq := hv
    · exact absurd hdepth (Nat.succ_ne_zero _)
    · exact absurd heq nofun
    · obtain rfl := Value.object.inj heq
      exact .object (.done blanks_nil)

/-! ## Values in a layout -/

/-- A layout that puts nothing but blanks between the words.  This is all that `printValue_spelled`
asks of a layout, so both forms of a value are spellings for one reason. -/
structure Layout.Blank (l : Layout) : Prop where
  line : ∀ steps, Blanks (l.line steps)
  space : Blanks l.space

section

variable {l : Layout} (hl : l.Blank)

include hl

mutual

/-- What `printValue` writes is a spelling of the value, in every `Layout` of blanks.  The induction
is on the value, for all depths at once, and each of the three functions carries its own part. -/
theorem printValue_spelled (steps : Nat) :
    ∀ v : Value, v.Integral → Spelled v (printValue l steps v)
  | .null, h => printScalar_spelled h (.inl rfl)
  | .boolean _, h => printScalar_spelled h (.inl rfl)
  | .number _, h => printScalar_spelled h (.inl rfl)
  | .string _, h => printScalar_spelled h (.inl rfl)
  | .array [], h => printScalar_spelled h (.inr (.inl rfl))
  | .object [], h => printScalar_spelled h (.inr (.inr rfl))
  | .array (v :: rest), h => by
    obtain ⟨hv, hrest⟩ := h
    rw [printValue]
    exact array_spelled (hl.line _) (printValue_spelled (steps + 1) v hv)
      (printItems_closed steps rest hrest)
  | .object ((key, v) :: rest), h => by
    obtain ⟨hv, hrest⟩ := h
    rw [printValue]
    exact object_spelled (hl.line _)
      (printMember_spelled hl.space key (printValue_spelled (steps + 1) v hv))
      (printMembers_closed steps rest hrest)

/-- `printItems` writes the elements behind the first, up to the closing bracket. -/
theorem printItems_closed (steps : Nat) : ∀ items : List Value, Value.ItemsIntegral items →
    Closed Spelled ']' items (printItems l steps items)
  | [], _ => closed_nil (hl.line steps)
  | v :: rest, h => by
    obtain ⟨hv, hrest⟩ := h
    rw [printItems]
    exact closed_cons (hl.line _) (printValue_spelled (steps + 1) v hv)
      (printItems_closed steps rest hrest)

/-- `printMembers` writes the members behind the first, up to the closing bracket. -/
theorem printMembers_closed (steps : Nat) :
    ∀ members : List (String × Value), Value.MembersIntegral members →
      Closed (Member Spelled) '}' members (printMembers l steps members)
  | [], _ => closed_nil (hl.line steps)
  | (key, v) :: rest, h => by
    obtain ⟨hv, hrest⟩ := h
    rw [printMembers]
    exact closed_cons (hl.line _)
      (printMember_spelled hl.space key (printValue_spelled (steps + 1) v hv))
      (printMembers_closed steps rest hrest)

end

end

/-! ## The two layouts -/

theorem Layout.compact_blank : Layout.compact.Blank :=
  ⟨fun _ => blanks_nil, blanks_nil⟩

/-- The `indented` layout is made of new lines and spaces. -/
theorem Layout.indented_blank : Layout.indented.Blank := by
  constructor
  case line =>
    intro steps c hc
    obtain rfl | hc := List.mem_cons.mp hc
    · decide
    · rw [List.eq_of_mem_replicate hc]
      decide
  case space =>
    intro c hc
    rw [List.mem_singleton.mp hc]
    decide

/-- `compact` writes a spelling of a value whose numbers are `Integral`. -/
theorem Value.compact_spelled {v : Value} (h : v.Integral) : Spelled v v.compact.toList := by
  rw [compact, String.toList_ofList]
  exact printValue_spelled Layout.compact_blank 0 v h

/-- `indented` writes a spelling of a value whose numbers are `Integral`. -/
theorem Value.indented_spelled {v : Value} (h : v.Integral) : Spelled v v.indented.toList := by
  rw [indented, String.toList_ofList]
  exact printValue_spelled Layout.indented_blank 0 v h

/-- A source that is a spelling from end to end `Holds` the value. -/
theorem Spelled.holds {source : String} {v : Value} (h : Spelled v source.toList) :
    Holds source v :=
  ⟨[], _, [], blanks_nil, h, blanks_nil, (List.append_nil _).symm⟩

theorem holds_compact {v : Value} (h : v.Integral) : Holds v.compact v :=
  (Value.compact_spelled h).holds

theorem holds_indented {v : Value} (h : v.Integral) : Holds v.indented v :=
  (Value.indented_spelled h).holds

end MessageTemplate.Json
