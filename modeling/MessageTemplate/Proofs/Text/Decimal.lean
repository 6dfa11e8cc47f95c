/-
Natural numbers and their decimal digits.

A run of digits is the spelling of a number when it is not empty and has no zero in front of other
digits (`Canonical`).  Every number has one such spelling, `Nat.toDigits 10`, and reading it by
`Nat.ofDigitChars 10` gives the number back.  Both directions are put into one equivalence,
`canonical_iff`, which is all that is used elsewhere.
-/

set_option autoImplicit false

namespace MessageTemplate.Text

/-- Digits as `Nat.toDigits` writes a number: at least one, and no zero in front of others. -/
def Canonical (digits : List Char) : Prop :=
  digits ≠ [] ∧ (∀ c ∈ digits, c.isDigit) ∧ (1 < digits.length → digits.head? ≠ some '0')

theorem Canonical.exists_cons {digits : List Char} (h : Canonical digits) :
    ∃ c rest, digits = c :: rest ∧ c.isDigit = true := by
  obtain ⟨hne, hall, -⟩ := h
  obtain ⟨c, rest, rfl⟩ := List.exists_cons_of_ne_nil hne
  exact ⟨c, rest, rfl, hall c (List.mem_cons_self ..)⟩

/-! ## From numbers to digits -/

/-- No positive number is written with a zero in front.  The induction is that of `Nat.toDigits`,
which takes the last digit off, so the first one is met in the end. -/
theorem head?_toDigits_ne_zero (n : Nat) (h : 0 < n) : (Nat.toDigits 10 n).head? ≠ some '0' := by
  induction n using Nat.strongRecOn with
  | ind n ih =>
    by_cases hn : n < 10
    · rw [Nat.toDigits_of_lt_base hn, List.head?_cons, ne_eq, Option.some.injEq,
        Nat.digitChar_eq_zero]
      omega
    · have hdiv : 0 < n / 10 := by omega
      have hhead := ih (n / 10) (by omega) hdiv
      rw [Nat.toDigits_of_base_le (by omega) (by omega)]
      cases hq : Nat.toDigits 10 (n / 10) with
      | nil => exact absurd hq Nat.toDigits_ne_nil
      | cons d rest =>
        rw [hq] at hhead
        exact hhead

/-- The digits of every number are `Canonical`.  Zero is the one number that starts with a zero, and
it has no other digit. -/
theorem toDigits_canonical (n : Nat) : Canonical (Nat.toDigits 10 n) := by
  refine ⟨Nat.toDigits_ne_nil, fun c hc => ?_, fun hlen => ?_⟩
  · exact Nat.isDigit_of_mem_toDigits (by omega) (by omega) hc
  · refine head?_toDigits_ne_zero n ?_
    rcases Nat.eq_zero_or_pos n with rfl | hpos
    · rw [Nat.toDigits_zero, List.length_singleton] at hlen
      omega
    · exact hpos

/-! ## From digits to numbers -/

/-- The value of a digit, as bounds that `omega` can work with. -/
theorem isDigit_iff_toNat {c : Char} : c.isDigit = true ↔ 48 ≤ c.toNat ∧ c.toNat ≤ 57 := by
  rw [Char.isDigit, Bool.and_eq_true, decide_eq_true_eq, decide_eq_true_eq]
  exact Iff.rfl

theorem toDigits_digit {c : Char} (h : c.isDigit) :
    Nat.toDigits 10 (c.toNat - '0'.toNat) = [c] := by
  have hc : 48 ≤ c.toNat ∧ c.toNat ≤ 57 := isDigit_iff_toNat.mp h
  have hzero : '0'.toNat = 48 := rfl
  have hlt : c.toNat - '0'.toNat < 10 := by omega
  rw [Nat.toDigits_of_lt_base hlt]
  have hchar : Nat.digitChar (c.toNat - '0'.toNat) = c := by
    apply Char.toNat_inj.mp
    rw [Nat.toNat_digitChar_of_lt_ten hlt]
    omega
  rw [hchar]

/-- Digits after a positive number `n` continue its spelling.  For `n = 0` this fails, as a zero in
front would be lost. -/
theorem toDigits_ofDigitChars_pos (digits : List Char) : ∀ (n : Nat), 0 < n →
    (∀ c ∈ digits, c.isDigit) →
      Nat.toDigits 10 (Nat.ofDigitChars 10 digits n) = Nat.toDigits 10 n ++ digits := by
  induction digits with
  | nil =>
    intro n _ _
    rw [Nat.ofDigitChars_nil, List.append_nil]
  | cons c rest ih =>
    intro n hn hdigits
    have hc : c.isDigit := hdigits c List.mem_cons_self
    have hlt : c.toNat - '0'.toNat < 10 := by
      have hbounds := isDigit_iff_toNat.mp hc
      have hzero : '0'.toNat = 48 := rfl
      omega
    rw [Nat.ofDigitChars_cons, ih _ (by omega) fun d hd => hdigits d (List.mem_cons_of_mem c hd),
      ← Nat.toDigits_append_toDigits (by omega) hn hlt, toDigits_digit hc, List.append_assoc,
      List.singleton_append]

/-- A number is written in one way only: digits that are `Canonical` are the ones that the number
they stand for is written with. -/
theorem toDigits_ofDigitChars {digits : List Char} (h : Canonical digits) :
    Nat.toDigits 10 (Nat.ofDigitChars 10 digits 0) = digits := by
  -- The first digit is taken apart: alone it may be a zero, and in front of others it starts a
  -- positive number.
  obtain ⟨hne, hdigits, hhead⟩ := h
  cases digits with
  | nil => exact absurd rfl hne
  | cons c rest =>
    have hc : c.isDigit := hdigits c List.mem_cons_self
    rw [Nat.ofDigitChars_cons, Nat.mul_zero, Nat.zero_add]
    cases rest with
    | nil => rw [Nat.ofDigitChars_nil, toDigits_digit hc]
    | cons d more =>
      have hzero : c ≠ '0' := by
        rintro rfl
        refine hhead ?_ rfl
        rw [List.length_cons, List.length_cons]
        omega
      have hpos : 0 < c.toNat - '0'.toNat := by
        have hbounds := isDigit_iff_toNat.mp hc
        have h48 : '0'.toNat = 48 := rfl
        have hne48 : c.toNat ≠ '0'.toNat := fun heq => hzero (Char.toNat_inj.mp heq)
        omega
      rw [toDigits_ofDigitChars_pos _ _ hpos fun e he => hdigits e (List.mem_cons_of_mem c he),
        toDigits_digit hc, List.singleton_append]

/-- A spelling that stands for `n` is the same as the digits of `n`. -/
theorem canonical_iff {digits : List Char} {n : Nat} :
    Canonical digits ∧ Nat.ofDigitChars 10 digits 0 = n ↔ digits = Nat.toDigits 10 n := by
  constructor
  · rintro ⟨hdigits, rfl⟩
    exact (toDigits_ofDigitChars hdigits).symm
  · rintro rfl
    exact ⟨toDigits_canonical n, Nat.ofDigitChars_ten_toDigits⟩

end MessageTemplate.Text
