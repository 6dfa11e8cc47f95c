/-
Which texts stand for a value.

A reader says what a text comes to, character by character and with a fault for whatever goes wrong.
Here it is said without a reader which texts are spellings of a value (`Spelled`): where blanks may
stand, how a character may be escaped, how a number may be written.  A value has many spellings,
since nothing of layout or escapes is in it.

Lists and members are spelled by rules with a parameter: what an element is and how it is spelled
(`Listed`, `Member`).  The same rules serve for plain values and for everything that is read from
brackets directly.

Two properties of texts go with them.  A number is over only when what follows cannot go on with it
(`Stops`), and a list goes on only when a value comes (`Begins`).
-/
import MessageTemplate.Json.Lexer
import MessageTemplate.Proofs.Text.Decimal

set_option autoImplicit false

namespace MessageTemplate.Json

/-! ## Blanks -/

/-- A run of blanks (`isSpace`), which may be empty. -/
def Blanks (text : List Char) : Prop :=
  ∀ c ∈ text, isSpace c = true

/-! ## Strings -/

/-- Four digits to the base sixteen, in either case of letters, and the number they stand for; they
follow `\u` in a string. -/
inductive HexSpelled : Nat → List Char → Prop
  | digits {a b c d : Char} {w x y z : Nat} :
    hexDigit? a = some w → hexDigit? b = some x → hexDigit? c = some y → hexDigit? d = some z →
      HexSpelled (((w * 16 + x) * 16 + y) * 16 + z) [a, b, c, d]

/-- How one character of a string may be written: as itself, by a short escape, by the number of its
code point, or by the numbers of a surrogate pair.  A single surrogate is no character, so
`numbered` excludes both halves. -/
inductive CharSpelled : Char → List Char → Prop
  | plain {c : Char} : c ≠ '"' → c ≠ '\\' → 0x20 ≤ c.toNat → CharSpelled c [c]
  | short {letter c : Char} : shortEscape? letter = some c → CharSpelled c ['\\', letter]
  | numbered {n : Nat} {digits : List Char} :
    HexSpelled n digits → isHighSurrogate n = false → isLowSurrogate n = false →
      CharSpelled (Char.ofNat n) ('\\' :: 'u' :: digits)
  | paired {high low : Nat} {digits digits' : List Char} :
    HexSpelled high digits → isHighSurrogate high = true → HexSpelled low digits' →
      isLowSurrogate low = true →
        CharSpelled (pairedChar high low) ('\\' :: 'u' :: digits ++ '\\' :: 'u' :: digits')

/-- The characters of a string, one after the other, each `CharSpelled` in a way of its own. -/
inductive BodySpelled : List Char → List Char → Prop
  | done : BodySpelled [] []
  | next {c : Char} {piece rest text : List Char} :
    CharSpelled c piece → BodySpelled rest text → BodySpelled (c :: rest) (piece ++ text)

/-- A string between quotes, whose characters are `BodySpelled`. -/
inductive StringSpelled : String → List Char → Prop
  | quoted {s : String} {body : List Char} :
    BodySpelled s.toList body → StringSpelled s ('"' :: body ++ ['"'])

/-! ## Numbers -/

/-- At least one digit (`isDigit`); zeros may stand in front, as they may behind a point and in an
exponent. -/
def Digits (text : List Char) : Prop :=
  text ≠ [] ∧ ∀ c ∈ text, c.isDigit = true

/-- The digits after the point with the point, or nothing.  There is no point without `Digits`
behind it. -/
inductive FractionSpelled : List Char → List Char → Prop
  | absent : FractionSpelled [] []
  | point {digits : List Char} : Digits digits → FractionSpelled digits ('.' :: digits)

/-- The exponent with its letter, its sign and its `Digits`, or nothing. -/
inductive ExponentSpelled : Option Int → List Char → Prop
  | absent : ExponentSpelled none []
  | bare {letter : Char} {digits : List Char} : letter = 'e' ∨ letter = 'E' → Digits digits →
    ExponentSpelled (some (Nat.ofDigitChars 10 digits 0 : Nat)) (letter :: digits)
  | plus {letter : Char} {digits : List Char} : letter = 'e' ∨ letter = 'E' → Digits digits →
    ExponentSpelled (some (Nat.ofDigitChars 10 digits 0 : Nat)) (letter :: '+' :: digits)
  | minus {letter : Char} {digits : List Char} : letter = 'e' ∨ letter = 'E' → Digits digits →
    ExponentSpelled (some (-(Nat.ofDigitChars 10 digits 0 : Nat))) (letter :: '-' :: digits)

/-- The digits before the point with the sign in front of them.  These are `Text.Canonical`: no zero
stands in front of other digits. -/
inductive WholeSpelled : Bool → List Char → List Char → Prop
  | plain {digits : List Char} : Text.Canonical digits → WholeSpelled false digits digits
  | minus {digits : List Char} : Text.Canonical digits → WholeSpelled true digits ('-' :: digits)

/-- A `Numeral` as it is written, of its three parts with no blanks between them. -/
inductive NumeralSpelled : Numeral → List Char → Prop
  | parts {n : Numeral} {whole fraction exponent : List Char} :
    WholeSpelled n.negative n.whole whole → FractionSpelled n.fraction fraction →
      ExponentSpelled n.exponent exponent →
        NumeralSpelled n (whole ++ (fraction ++ exponent))

/-- A `Number`, if what is written has a value.  A numeral beyond the range of a double has none, so
no text with one in it spells anything. -/
inductive NumberSpelled : Number → List Char → Prop
  | value {numeral : Numeral} {n : Number} {text : List Char} :
    NumeralSpelled numeral text → numeral.value = some n → NumberSpelled n text

/-! ## Elements and members -/

/-- What stands in front of an element: `Blanks`, and a comma unless it is the first. -/
inductive Lead : Bool → List Char → Prop
  | first {gap : List Char} : Blanks gap → Lead true gap
  | comma {gap gap' : List Char} : Blanks gap → Blanks gap' → Lead false (gap ++ ',' :: gap')

/-- Elements up to the closing bracket, `first` telling whether none stands before them.  The blanks
in front of the bracket belong to the list. -/
inductive Listed {α : Type} (P : α → List Char → Prop) : Bool → List α → List Char → Prop
  | done {first : Bool} {gap : List Char} : Blanks gap → Listed P first [] gap
  | next {first : Bool} {x : α} {rest : List α} {lead piece text : List Char} :
    Lead first lead → P x piece → Listed P false rest text →
      Listed P first (x :: rest) (lead ++ (piece ++ text))

/-- A member: its key, a colon, and what it holds, with `Blanks` around the colon. -/
inductive Member {α : Type} (P : α → List Char → Prop) : String × α → List Char → Prop
  | colon {key : String} {x : α} {name gap gap' text : List Char} :
    StringSpelled key name → Blanks gap → Blanks gap' → P x text →
      Member P (key, x) (name ++ (gap ++ ':' :: (gap' ++ text)))

/-! ## Values -/

/-- A `Value` from its first character to its last; blanks around it are not part of it, and are
left to `Holds`. -/
inductive Spelled : Value → List Char → Prop
  | null : Spelled .null ['n', 'u', 'l', 'l']
  | yes : Spelled (.boolean true) ['t', 'r', 'u', 'e']
  | no : Spelled (.boolean false) ['f', 'a', 'l', 's', 'e']
  | number {n : Number} {text : List Char} : NumberSpelled n text → Spelled (.number n) text
  | string {s : String} {text : List Char} : StringSpelled s text → Spelled (.string s) text
  | array {items : List Value} {body : List Char} : Listed Spelled true items body →
    Spelled (.array items) ('[' :: (body ++ [']']))
  | object {members : List (String × Value)} {body : List Char} :
    Listed (Member Spelled) true members body → Spelled (.object members) ('{' :: (body ++ ['}']))

/-! ## What follows a value -/

/-- A text by which a number is over, as `NumberSpelled` alone does not say where it ends: it starts
with nothing a number could go on with. -/
def Stops (text : List Char) : Prop :=
  ∀ c, text.head? = some c → c.isDigit = false ∧ c ≠ '.' ∧ c ≠ 'e' ∧ c ≠ 'E'

theorem stops_nil : Stops [] :=
  fun _ h => absurd h nofun

/-- A number is over at a character that is no digit, no point and no `e`. -/
theorem stops_cons {c : Char} {text : List Char} (h : c.isDigit = false) (hdot : c ≠ '.')
    (he : c ≠ 'e') (hE : c ≠ 'E') : Stops (c :: text) := by
  intro d hd
  rw [List.head?_cons, Option.some.injEq] at hd
  subst hd
  exact ⟨h, hdot, he, hE⟩

theorem blanks_nil : Blanks [] :=
  fun _ h => absurd h List.not_mem_nil

/-- The four characters for which `isSpace` holds. -/
theorem isSpace_iff {c : Char} : isSpace c = true ↔ c = ' ' ∨ c = '\n' ∨ c = '\t' ∨ c = '\r' := by
  rw [isSpace]
  simp only [Bool.or_eq_true, decide_eq_true_eq, or_assoc]

/-- `Blanks` end a number, and without any blanks what comes behind them has to. -/
theorem Blanks.stops {gap text : List Char} (hgap : Blanks gap) (h : Stops text) :
    Stops (gap ++ text) := by
  cases gap with
  | nil => exact h
  | cons c gap =>
    rcases isSpace_iff.mp (hgap c (List.mem_cons_self ..)) with rfl | rfl | rfl | rfl
    · exact stops_cons (by decide) (by decide) (by decide) (by decide)
    · exact stops_cons (by decide) (by decide) (by decide) (by decide)
    · exact stops_cons (by decide) (by decide) (by decide) (by decide)
    · exact stops_cons (by decide) (by decide) (by decide) (by decide)

/-- After an element of a `Listed` comes a comma or the closing bracket, and either ends a
number. -/
theorem Listed.stops {α : Type} {P : α → List Char → Prop} {xs : List α} {text rest : List Char}
    (h : Listed P false xs text) (hrest : Stops rest) : Stops (text ++ rest) := by
  cases h with
  | done hgap => exact hgap.stops hrest
  | next hlead _ _ =>
    cases hlead with
    | comma hgap _ =>
      rw [List.append_assoc, List.append_assoc, List.cons_append]
      exact hgap.stops (stops_cons (by decide) (by decide) (by decide) (by decide))

/-! ## How a value begins -/

/-- A word starts here, and no bracket or comma that would end a list.  This is what a reader of
elements looks at before it takes one. -/
def Begins (text : List Char) : Prop :=
  ∃ c rest, text = c :: rest ∧ isSpace c = false ∧ c ≠ ']' ∧ c ≠ ','

/-- A text `Begins` with a word if its first character is neither blank nor one that ends a list. -/
theorem begins_cons {c : Char} (rest : List Char) (h : isSpace c = false) (hbracket : c ≠ ']')
    (hcomma : c ≠ ',') : Begins (c :: rest) :=
  ⟨c, rest, rfl, h, hbracket, hcomma⟩

theorem Begins.append {text : List Char} (h : Begins text) (rest : List Char) :
    Begins (text ++ rest) := by
  obtain ⟨c, tail, rfl, hspace, hbracket, hcomma⟩ := h
  exact begins_cons (tail ++ rest) hspace hbracket hcomma

theorem StringSpelled.begins {s : String} {text : List Char} (h : StringSpelled s text) :
    Begins text := by
  cases h with
  | quoted _ => exact begins_cons _ (by decide) (by decide) (by decide)

theorem begins_of_isDigit {c : Char} (rest : List Char) (h : c.isDigit = true) :
    Begins (c :: rest) := by
  refine begins_cons rest ?_ ?_ ?_
  · cases hspace : isSpace c with
    | false => rfl
    | true =>
      rcases isSpace_iff.mp hspace with rfl | rfl | rfl | rfl
      · exact absurd h (by decide)
      · exact absurd h (by decide)
      · exact absurd h (by decide)
      · exact absurd h (by decide)
  · rintro rfl
    exact absurd h (by decide)
  · rintro rfl
    exact absurd h (by decide)

theorem WholeSpelled.head {negative : Bool} {digits text : List Char}
    (h : WholeSpelled negative digits text) :
    ∃ c rest, text = c :: rest ∧ (c = '-' ∨ c.isDigit = true) := by
  cases h with
  | minus _ => exact ⟨'-', _, rfl, .inl rfl⟩
  | plain hdigits =>
    obtain ⟨c, rest, rfl, hc⟩ := hdigits.exists_cons
    exact ⟨c, rest, rfl, .inr hc⟩

/-- A number starts with its sign or with a digit, since the part before the point (`WholeSpelled`)
is never left out. -/
theorem NumberSpelled.head {n : Number} {text : List Char} (h : NumberSpelled n text) :
    ∃ c rest, text = c :: rest ∧ (c = '-' ∨ c.isDigit = true) := by
  obtain ⟨⟨hwhole, -, -⟩, -⟩ := h
  obtain ⟨c, rest, rfl, hc⟩ := hwhole.head
  exact ⟨c, _, rfl, hc⟩

/-- Every value `Begins` with a word of its own, so a reader can tell that one comes. -/
theorem Spelled.begins {v : Value} {text : List Char} (h : Spelled v text) : Begins text := by
  cases h with
  | null => exact begins_cons _ (by decide) (by decide) (by decide)
  | yes => exact begins_cons _ (by decide) (by decide) (by decide)
  | no => exact begins_cons _ (by decide) (by decide) (by decide)
  | string h => exact h.begins
  | array _ => exact begins_cons _ (by decide) (by decide) (by decide)
  | object _ => exact begins_cons _ (by decide) (by decide) (by decide)
  | number h =>
    obtain ⟨c, rest, rfl, rfl | hdigit⟩ := h.head
    · exact begins_cons _ (by decide) (by decide) (by decide)
    · exact begins_of_isDigit rest hdigit

end MessageTemplate.Json
