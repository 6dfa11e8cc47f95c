/-
Reading a word undoes spelling it.

For each kind of word there is one statement: on a spelling of a string, a number or a literal name,
with any text behind it, the reader gives back what was spelled and leaves the text behind.  A
string and a name end by themselves (`StringSpelled.quotedString`, `literal_append`); a number needs
that the text behind does not go on with it (`NumberSpelled.strict`).

Readers are chains of steps, so every proof here is a walk along one: `Reader.bind_ok` takes a step
whose outcome is known, and what is left is the rest of the chain on the rest of the text.
-/
import MessageTemplate.Proofs.Json.Grammar

set_option autoImplicit false

namespace MessageTemplate.Json

/-! ## Steps of a reader -/

namespace Reader

variable {α β : Type} {x : Reader α} {text rest : List Char} {a : α} {fault : Fault}

/-- A chain of `Reader`s goes on with what its first step leaves.  All walks along a reader in these
modules are rewrites with this. -/
theorem bind_ok {f : α → Reader β} (h : x text = .ok (a, rest)) : (x >>= f) text = f a rest := by
  change (x text).bind (fun p => f p.1 p.2) = f a rest
  rw [h]
  rfl

/-- A chain of `Reader`s ends at a step that fails, with the fault of that step. -/
theorem bind_error {f : α → Reader β} (h : x text = .error fault) :
    (x >>= f) text = .error fault := by
  change (x text).bind (fun p => f p.1 p.2) = .error fault
  rw [h]
  rfl

/-- A `Reader` whose outcome is known, with `map` in it, and another on what it leaves.  This is the
form in which the outcome of a list is put together from those of its elements. -/
theorem bind_map {γ : Type} {outcome : Except Fault α} {f : α → Reader β}
    {g : α → Except Fault γ} {h : γ → β × List Char}
    (hx : x text = outcome.map fun a => (a, rest)) (hf : ∀ a, f a rest = (g a).map h) :
    (x >>= f) text = (outcome >>= g).map h := by
  cases outcome with
  | error fault => exact bind_error hx
  | ok a => exact (bind_ok hx).trans (hf a)

/-- What a `Reader` reads may be put into a function; the text that is left is the same. -/
theorem map_ok {f : α → β} (h : x text = .ok (a, rest)) : (f <$> x) text = .ok (f a, rest) := by
  change ((x text).bind fun p => .ok (f p.1, p.2)) = .ok (f a, rest)
  rw [h]
  rfl

end Reader

theorem peek_apply (text : List Char) : peek text = .ok (text.head?, text) := rfl

theorem advance_cons (c : Char) (text : List Char) : advance (c :: text) = .ok ((), text) := rfl

/-- `peekWord` leaves out the blanks in front of a word and sees its first character.  The word
itself is not taken yet. -/
theorem peekWord_append {gap text : List Char} (hgap : Blanks gap) {c : Char}
    (hc : isSpace c = false) : peekWord (gap ++ c :: text) = .ok (some c, c :: text) := by
  have hdrop : (gap ++ c :: text).dropWhile isSpace = c :: text := by
    rw [List.dropWhile_append_of_pos hgap, List.dropWhile_cons_of_neg (by rw [hc]; decide)]
  have hpeek : peekWord (gap ++ c :: text) =
      .ok (((gap ++ c :: text).dropWhile isSpace).head?, (gap ++ c :: text).dropWhile isSpace) :=
    rfl
  rw [hpeek, hdrop, List.head?_cons]

theorem peekWord_cons {c : Char} (text : List Char) (hc : isSpace c = false) :
    peekWord (c :: text) = .ok (some c, c :: text) :=
  peekWord_append blanks_nil hc

/-- `literal` reads a name off any text that starts with it. -/
theorem literal_append (name rest : List Char) : literal name (name ++ rest) = .ok ((), rest) := by
  induction name with
  | nil => rfl
  | cons c name ih =>
    rw [literal, List.cons_append, Reader.bind_ok (peek_apply _)]
    dsimp only [List.head?_cons]
    rw [if_pos rfl, Reader.bind_ok (advance_cons c _), ih]

/-! ## Strings -/

/-- One character inside a string: the state steps as `stringStep` says, and a character that is
complete joins those read. -/
theorem stringBody_cons {state next : StringState} {c : Char} (done : Option Char)
    {read rest : List Char} (hopen : ¬ (state = .plain ∧ c = '"'))
    (h : stringStep true state c rest = .ok (next, done)) :
    stringBody true state read (c :: rest) = stringBody true next (done.toList ++ read) rest := by
  rw [stringBody, if_neg hopen, h]

/-- Four digits take at least four bytes, so `roomForHex`, which is asked first, finds the room. -/
theorem HexSpelled.roomForHex {n : Nat} {digits : List Char} (h : HexSpelled n digits)
    (text : List Char) : roomForHex (digits ++ text) = true := by
  cases h with
  | @digits a b c d _ _ _ _ _ _ _ _ =>
    rw [Json.roomForHex, decide_eq_true_eq]
    have ha := a.utf8Size_pos
    have hb := b.utf8Size_pos
    have hc := c.utf8Size_pos
    have hd := d.utf8Size_pos
    simp only [List.cons_append, List.take_succ_cons, List.take_zero, List.foldr_cons,
      List.foldr_nil]
    omega

/-- One digit of a numbered escape that is not its last: `stringBody` gathers it. -/
theorem stringBody_digit {high : Option Nat} {count value d : Nat} {c : Char}
    {read rest : List Char} (h : hexDigit? c = some d) (hcount : count ≠ 3) :
    stringBody true (.hex high count value) read (c :: rest) =
      stringBody true (.hex high (count + 1) (value * 16 + d)) read rest := by
  refine stringBody_cons none (fun h => absurd h.1 nofun) ?_
  rw [stringStep, h]
  dsimp only
  rw [if_neg hcount]

/-- Four digits in a row, and what their number completes by `closeHex`. -/
theorem stringBody_hex {n : Nat} {digits : List Char} (h : HexSpelled n digits)
    {high : Option Nat} {next : StringState} {done : Option Char}
    (hclose : closeHex true high n = .ok (next, done)) (read rest : List Char) :
    stringBody true (.hex high 0 0) read (digits ++ rest) =
      stringBody true next (done.toList ++ read) rest := by
  obtain ⟨ha, hb, hc, hd⟩ := h
  rw [List.cons_append, stringBody_digit ha (by decide), List.cons_append,
    stringBody_digit hb (by decide), List.cons_append, stringBody_digit hc (by decide),
    List.cons_append, List.nil_append]
  refine stringBody_cons done (fun h => absurd h.1 nofun) ?_
  -- The fourth digit closes the number.
  rw [stringStep, hd]
  dsimp only
  rw [if_pos rfl, Nat.zero_mul, Nat.zero_add]
  exact hclose

/-- A backslash begins an escape, and no character is complete yet. -/
theorem stringBody_backslash (read rest : List Char) :
    stringBody true .plain read ('\\' :: rest) = stringBody true .escape read rest :=
  stringBody_cons none (by decide) (by rw [stringStep, if_pos rfl])

/-- The letter `u` starts a numbered escape, since there is room for its digits
(`HexSpelled.roomForHex`). -/
theorem stringBody_letter {n : Nat} {digits : List Char} (h : HexSpelled n digits)
    (read rest : List Char) :
    stringBody true .escape read ('u' :: (digits ++ rest)) =
      stringBody true (.hex none 0 0) read (digits ++ rest) := by
  refine stringBody_cons none (by decide) ?_
  rw [stringStep, if_pos rfl, if_pos (h.roomForHex rest)]

/-- The start of the second escape of a pair, which a high surrogate (`isHighSurrogate`) needs
behind it. -/
theorem stringBody_pair {n : Nat} {digits : List Char} (h : HexSpelled n digits) (high : Nat)
    (read rest : List Char) :
    stringBody true (.pairSlash high) read ('\\' :: 'u' :: (digits ++ rest)) =
      stringBody true (.hex (some high) 0 0) read (digits ++ rest) := by
  have hslash : stringBody true (.pairSlash high) read ('\\' :: 'u' :: (digits ++ rest)) =
      stringBody true (.pairLetter high) read ('u' :: (digits ++ rest)) :=
    stringBody_cons none (fun h => absurd h.1 nofun) (by rw [stringStep, if_pos rfl])
  rw [hslash]
  refine stringBody_cons none (fun h => absurd h.1 nofun) ?_
  rw [stringStep, if_pos rfl, if_pos (h.roomForHex rest)]

/-- One character of the value, however it is written: `stringBody` ends up in the state where it
was, with the character read. -/
theorem CharSpelled.stringBody {c : Char} {piece : List Char} (h : CharSpelled c piece)
    (read rest : List Char) :
    stringBody true .plain read (piece ++ rest) = stringBody true .plain (c :: read) rest := by
  cases h with
  | plain hquote hslash hcontrol =>
    rw [List.cons_append, List.nil_append]
    refine stringBody_cons (some c) (fun h => hquote h.2) ?_
    rw [stringStep, if_neg hslash, if_neg (by omega)]
  | @short letter _ hletter =>
    have hu : letter ≠ 'u' := by
      rintro rfl
      exact absurd hletter nofun
    rw [List.cons_append, List.cons_append, List.nil_append, stringBody_backslash]
    refine stringBody_cons (some c) (fun h => absurd h.1 nofun) ?_
    rw [stringStep, if_neg hu, hletter]
  | @numbered n _ hdigits hhigh hlow =>
    have hclose : closeHex true none n = .ok (.plain, some (Char.ofNat n)) := by
      rw [closeHex, if_neg (by decide), hlow, hhigh]
      rfl
    rw [List.cons_append, List.cons_append, stringBody_backslash, stringBody_letter hdigits,
      stringBody_hex hdigits hclose]
    rfl
  | @paired high low _ _ hdigits hhigh hdigits' hlow =>
    -- The two halves are told apart by their ranges.
    have hnot : isLowSurrogate high = false := by
      rw [isHighSurrogate, Bool.and_eq_true, decide_eq_true_eq, decide_eq_true_eq] at hhigh
      rw [isLowSurrogate, Bool.and_eq_false_iff, decide_eq_false_iff_not]
      omega
    have hfirst : closeHex true none high = .ok (.pairSlash high, none) := by
      rw [closeHex, if_neg (by decide), hnot, hhigh]
      rfl
    have hsecond : closeHex true (some high) low = .ok (.plain, some (pairedChar high low)) := by
      rw [closeHex, if_neg (by decide), hlow]
      rfl
    rw [List.append_assoc, List.cons_append, List.cons_append, List.cons_append, List.cons_append,
      stringBody_backslash, stringBody_letter hdigits, stringBody_hex hdigits hfirst,
      stringBody_pair hdigits', stringBody_hex hdigits' hsecond]
    rfl

/-- The characters of a string up to its closing quote.  The induction is on `BodySpelled`; each
character of it is one step. -/
theorem BodySpelled.stringBody {cs body : List Char} (h : BodySpelled cs body) :
    ∀ read rest : List Char,
      stringBody true .plain read (body ++ '"' :: rest) = .ok (read.reverse ++ cs, rest) := by
  induction h with
  | done =>
    intro read rest
    rw [List.nil_append, Json.stringBody, if_pos ⟨rfl, rfl⟩, List.append_nil]
  | next hc _ ih =>
    intro read rest
    rw [List.append_assoc, hc.stringBody, ih, List.reverse_cons, List.append_assoc,
      List.singleton_append]

/-- `quotedString` reads a string off any text that starts with a spelling of it. -/
theorem StringSpelled.quotedString {s : String} {text : List Char} (h : StringSpelled s text)
    (rest : List Char) : quotedString true (text ++ rest) = .ok (s, rest) := by
  obtain ⟨hbody⟩ := h
  rw [Json.quotedString, List.cons_append, List.cons_append, List.tail_cons, List.append_assoc,
    List.singleton_append, hbody.stringBody, List.reverse_nil, List.nil_append]
  dsimp only
  rw [String.ofList_toList]

/-! ## Numbers -/

/-- No digit comes next.  This is less than `Stops`, as a point or an `e` may follow the digits
before it. -/
def DigitsEnd (text : List Char) : Prop :=
  ∀ c, text.head? = some c → c.isDigit = false

/-- Before a character that is no digit the digits end. -/
theorem digitsEnd_cons {c : Char} (text : List Char) (h : c.isDigit = false) :
    DigitsEnd (c :: text) := by
  intro d hd
  rw [List.head?_cons, Option.some.injEq] at hd
  rw [← hd]
  exact h

/-- What stops a number stops its digits. -/
theorem Stops.digitsEnd {text : List Char} (h : Stops text) : DigitsEnd text :=
  fun c hc => (h c hc).1

/-- `takeDigits` takes all digits up to where they end. -/
theorem takeDigits_append {digits text : List Char} (h : ∀ c ∈ digits, c.isDigit = true)
    (hend : DigitsEnd text) : takeDigits (digits ++ text) = .ok (digits, text) := by
  rw [takeDigits, List.takeWhile_append_of_pos h, List.dropWhile_append_of_pos h]
  cases text with
  | nil => rw [List.takeWhile_nil, List.dropWhile_nil, List.append_nil]
  | cons c rest =>
    have hc : ¬ c.isDigit = true := by
      rw [hend c rfl]
      decide
    rw [List.takeWhile_cons_of_neg hc, List.dropWhile_cons_of_neg hc, List.append_nil]

section

variable (early : Fault) {text : List Char}

/-- Where `someDigits` asks for at least one digit, all of them are read.  The fault it would give
depends on where the number stands, so it is left open. -/
theorem Digits.someDigits {digits : List Char} (h : Digits digits) (hend : DigitsEnd text) :
    someDigits early (digits ++ text) = .ok (digits, text) := by
  obtain ⟨hne, hall⟩ := h
  rw [Json.someDigits, Reader.bind_ok (takeDigits_append hall hend)]
  obtain ⟨c, rest, rfl⟩ := List.exists_cons_of_ne_nil hne
  rfl

/-- `wholeDigits` takes the digits before the point.  It refuses a zero in front of other digits,
but in a `Text.Canonical` text there is none. -/
theorem wholeDigits_append {digits : List Char} (h : Text.Canonical digits)
    (hend : DigitsEnd text) : wholeDigits early (digits ++ text) = .ok (digits, text) := by
  obtain ⟨hne, hall, hzero⟩ := h
  rw [wholeDigits, Reader.bind_ok (Digits.someDigits early ⟨hne, hall⟩ hend)]
  split
  case h_1 d rest => exact absurd rfl (hzero (by simp))
  case h_2 => rfl

/-- `fractionDigits` takes the digits behind a point if there is a point, and nothing if there is
none. -/
theorem FractionSpelled.fractionDigits {digits fraction : List Char}
    (h : FractionSpelled digits fraction) (hend : DigitsEnd text) (hdot : text.head? ≠ some '.') :
    fractionDigits early (fraction ++ text) = .ok (digits, text) := by
  cases h with
  | absent =>
    rw [Json.fractionDigits, Reader.bind_ok (peek_apply _), List.nil_append, if_neg hdot]
    rfl
  | point hdigits =>
    rw [Json.fractionDigits, List.cons_append, Reader.bind_ok (peek_apply _), List.head?_cons,
      if_pos rfl, Reader.bind_ok (advance_cons _ _)]
    exact hdigits.someDigits early hend

/-- A digit differs from every character that is none, such as a sign or a point. -/
theorem ne_of_isDigit {c d : Char} (hc : c.isDigit = true) (hd : d.isDigit = false) : c ≠ d := by
  rintro rfl
  rw [hc] at hd
  exact absurd hd nofun

/-- `exponentPart` reads the exponent with its sign.  Without a sign it starts with a digit, so none
is taken for one; without an exponent the text behind must not begin like one, which is `Stops`. -/
theorem ExponentSpelled.exponentPart {exponent : Option Int} {piece : List Char}
    (h : ExponentSpelled exponent piece) (hstops : Stops text) :
    exponentPart early (piece ++ text) = .ok (exponent, text) := by
  cases h with
  | absent =>
    rw [Json.exponentPart, Reader.bind_ok (peek_apply _), List.nil_append]
    cases hc : text.head? with
    | none => rfl
    | some c =>
      obtain ⟨-, -, he, hE⟩ := hstops c hc
      dsimp only
      rw [if_neg (not_or.mpr ⟨he, hE⟩)]
      rfl
  | @bare letter digits hletter hdigits =>
    have hread := hdigits.someDigits early hstops.digitsEnd
    obtain ⟨hne, hall⟩ := hdigits
    obtain ⟨d, rest, rfl⟩ := List.exists_cons_of_ne_nil hne
    have hd := hall d (List.mem_cons_self ..)
    -- The first digit is not mistaken for a sign.
    have hplus : (d :: rest ++ text).head? ≠ some '+' := by
      rw [List.cons_append, List.head?_cons, ne_eq, Option.some.injEq]
      exact ne_of_isDigit hd (by decide)
    have hminus : (d :: rest ++ text).head? ≠ some '-' := by
      rw [List.cons_append, List.head?_cons, ne_eq, Option.some.injEq]
      exact ne_of_isDigit hd (by decide)
    rw [Json.exponentPart, List.cons_append, Reader.bind_ok (peek_apply _), List.head?_cons]
    dsimp only
    rw [if_pos hletter, Reader.bind_ok (advance_cons _ _), Reader.bind_ok (peek_apply _),
      if_neg (not_or.mpr ⟨hplus, hminus⟩), Reader.bind_ok hread, if_neg hminus]
    rfl
  | @plus letter digits hletter hdigits =>
    have hread := hdigits.someDigits early hstops.digitsEnd
    rw [Json.exponentPart, List.cons_append, Reader.bind_ok (peek_apply _), List.head?_cons]
    dsimp only
    rw [if_pos hletter, Reader.bind_ok (advance_cons _ _), Reader.bind_ok (peek_apply _),
      List.cons_append, List.head?_cons, if_pos (.inl rfl),
      Reader.bind_ok (advance_cons _ _), Reader.bind_ok hread]
    rfl
  | @minus letter digits hletter hdigits =>
    have hread := hdigits.someDigits early hstops.digitsEnd
    rw [Json.exponentPart, List.cons_append, Reader.bind_ok (peek_apply _), List.head?_cons]
    dsimp only
    rw [if_pos hletter, Reader.bind_ok (advance_cons _ _), Reader.bind_ok (peek_apply _),
      List.cons_append, List.head?_cons, if_pos (.inr rfl),
      Reader.bind_ok (advance_cons _ _), Reader.bind_ok hread]
    rfl

/-- An exponent starts with a letter, so the digits before the point end in front of it
(`DigitsEnd`), and so do those behind the point. -/
theorem digitsEnd_exponent {exponent : Option Int} {piece : List Char}
    (h : ExponentSpelled exponent piece) (hstops : Stops text) :
    DigitsEnd (piece ++ text) ∧ (piece ++ text).head? ≠ some '.' := by
  have hletter : ∀ {letter : Char} (rest : List Char), letter = 'e' ∨ letter = 'E' →
      DigitsEnd (letter :: rest) ∧ (letter :: rest).head? ≠ some '.' := by
    intro letter rest h
    rw [List.head?_cons, ne_eq, Option.some.injEq]
    rcases h with rfl | rfl
    · exact ⟨digitsEnd_cons _ (by decide), by decide⟩
    · exact ⟨digitsEnd_cons _ (by decide), by decide⟩
  cases h with
  | absent => exact ⟨hstops.digitsEnd, fun hdot => (hstops '.' hdot).2.1 rfl⟩
  | bare h _ => exact hletter _ h
  | plus h _ => exact hletter _ h
  | minus h _ => exact hletter _ h

/-- The digits before the point end (`DigitsEnd`) in front of whatever follows them: a point, an
exponent, or the end of the number. -/
theorem digitsEnd_fraction {digits fraction piece : List Char} {exponent : Option Int}
    (hfraction : FractionSpelled digits fraction) (hexponent : ExponentSpelled exponent piece)
    (hstops : Stops text) : DigitsEnd (fraction ++ (piece ++ text)) := by
  cases hfraction with
  | absent => exact (digitsEnd_exponent hexponent hstops).1
  | point _ => exact digitsEnd_cons _ (by decide)

/-- `numeral` reads a number as it is written, part by part. -/
theorem NumeralSpelled.numeral {n : Numeral} {piece : List Char} (h : NumeralSpelled n piece)
    (hstops : Stops text) : numeral early (piece ++ text) = .ok (n, text) := by
  obtain @⟨whole, fraction, exponent, hwhole, hfraction, hexponent⟩ := h
  obtain ⟨negative, digits, fractionDigits, exponentPart⟩ := n
  dsimp only at hwhole hfraction hexponent
  obtain ⟨hend, hdot⟩ := digitsEnd_exponent hexponent hstops
  have hparts := digitsEnd_fraction hfraction hexponent hstops
  have hfractionRead := hfraction.fractionDigits early hend hdot
  have hexponentRead := hexponent.exponentPart early hstops
  rw [Json.numeral, Reader.bind_ok (peek_apply _), List.append_assoc, List.append_assoc]
  cases hwhole with
  | plain hdigits =>
    have hread := wholeDigits_append early hdigits hparts
    obtain ⟨c, rest, hcons, hc⟩ := hdigits.exists_cons
    have hminus : (whole ++ (fraction ++ (exponent ++ text))).head? ≠ some '-' := by
      rw [hcons, List.cons_append, List.head?_cons, ne_eq, Option.some.injEq]
      exact ne_of_isDigit hc (by decide)
    rw [if_neg hminus, decide_eq_false hminus]
    dsimp only
    rw [Reader.bind_ok hread, Reader.bind_ok hfractionRead, Reader.bind_ok hexponentRead]
    rfl
  | minus hdigits =>
    have hread := wholeDigits_append early hdigits hparts
    rw [List.cons_append, List.head?_cons, if_pos rfl, decide_eq_true rfl,
      Reader.bind_ok (advance_cons _ _)]
    dsimp only
    rw [Reader.bind_ok hread, Reader.bind_ok hfractionRead, Reader.bind_ok hexponentRead]
    rfl

/-- By `strict` a number that has a value is read as this value. -/
theorem NumberSpelled.strict {n : Number} {piece : List Char} (h : NumberSpelled n piece)
    (hstops : Stops text) : strict.number (piece ++ text) = .ok (n, text) := by
  obtain ⟨hnumeral, hvalue⟩ := h
  rw [Json.strict]
  dsimp only
  rw [Reader.bind_ok (hnumeral.numeral .endsEarly hstops), hvalue]
  rfl

end

end MessageTemplate.Json
