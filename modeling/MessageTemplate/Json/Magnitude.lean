/-
Magnitudes of the binary64 format, exactly.

A JSON number that is no integer of 64 bits is read into this format by `Magnitude.ofDecimal`: its
digits give a whole number, which is scaled by powers of ten, and each step is rounded to the
nearest magnitude, ties to the even one (`roundDiv`).  Nothing here computes with machine floats: a
magnitude is a whole number times a power of two, and rounding is a division of naturals, so
equality is decidable and every result can be computed in a proof.

The second half writes a magnitude with the fewest decimal digits that read back to it,
`Magnitude.shortest`.
-/

set_option autoImplicit false

namespace MessageTemplate.Json

/-! ## The values -/

/-- The finite magnitude `significand * 2 ^ exponent`.  Those the format holds have a significand
below `2 ^ 53` and an exponent between `lowestExponent` and `highestExponent`. -/
structure Magnitude where
  significand : Nat
  exponent : Int
  deriving DecidableEq, Repr

namespace Magnitude

/-- The `exponent` of the smallest magnitudes, at which the spacing of the format stops growing
finer. -/
def lowestExponent : Int := -1074

/-- The exponent of the largest magnitudes; `ofRatio` gives nothing beyond it. -/
def highestExponent : Int := 971

/-- The `Magnitude` of 0, with the exponent that the format gives it. -/
def zero : Magnitude := ⟨0, lowestExponent⟩

/-- The value of a `Magnitude` as a quotient of naturals, of which one side is always a power of
two. -/
def ratio (m : Magnitude) : Nat × Nat :=
  if 0 ≤ m.exponent then (m.significand <<< m.exponent.toNat, 1)
  else (m.significand, 1 <<< (-m.exponent).toNat)

/-! ## Rounding -/

/-- The natural nearest to `a / b`; of two equally near the even one. -/
def roundDiv (a b : Nat) : Nat :=
  let q := a / b
  let twice := 2 * (a % b)
  if b < twice ∨ (twice = b ∧ q % 2 = 1) then q + 1 else q

/-- The quotient `a / b` divided by `2 ^ e`, as a quotient of naturals; `e` may be negative. -/
def scaleTwo (a b : Nat) (e : Int) : Nat × Nat :=
  if 0 ≤ e then (a, b <<< e.toNat) else (a <<< (-e).toNat, b)

/-- The magnitude nearest to `a / b`, or nothing when that lies beyond the largest one.  The first
exponent tried is the smaller of the two that can give a significand of 53 bits; the quotient shows
which it is. -/
def ofRatio (a b : Nat) : Option Magnitude :=
  if a = 0 then some zero
  else
    let first := max lowestExponent ((a.log2 : Int) - (b.log2 : Int) - 53)
    let (c, d) := scaleTwo a b first
    let e := if 1 <<< 53 ≤ c / d then first + 1 else first
    let (c, d) := scaleTwo a b e
    let s := roundDiv c d
    let m : Magnitude := if s = 1 <<< 53 then ⟨1 <<< 52, e + 1⟩ else ⟨s, e⟩
    if highestExponent < m.exponent then none else some m

/-- The product, rounded once by `ofRatio`. -/
def mul (x y : Magnitude) : Option Magnitude :=
  let (a, b) := x.ratio
  let (c, d) := y.ratio
  ofRatio (a * c) (b * d)

/-- The quotient, rounded once by `ofRatio`. -/
def div (x y : Magnitude) : Option Magnitude :=
  let (a, b) := x.ratio
  let (c, d) := y.ratio
  ofRatio (a * d) (b * c)

/-! ## Decimal scaling -/

/-- The largest power of ten the format holds, which bounds the steps of `scaleTen`. -/
def tenLimit : Nat := 308

/-- A power of ten as the nearest magnitude; it is exact only up to `10 ^ 22`. -/
def powerOfTen (k : Nat) : Option Magnitude :=
  ofRatio (Nat.pow 10 k) 1

/-- A magnitude times a power of ten of either sign, in steps of at most `10 ^ 308`, each rounded.
Nothing comes out where a product passes the largest magnitude or where the power itself does. -/
def scaleTen (m : Magnitude) (e : Int) : Option Magnitude :=
  if e.natAbs ≤ tenLimit then
    if 0 ≤ e then (powerOfTen e.natAbs).bind m.mul
    else (powerOfTen e.natAbs).bind m.div
  else if m.significand = 0 then some m
  else if 0 ≤ e then none
  else ((powerOfTen tenLimit).bind m.div).bind fun smaller => smaller.scaleTen (e + tenLimit)
termination_by e.natAbs
decreasing_by simp only [tenLimit] at *; omega

/-- The magnitude that a run of decimal digits with a decimal exponent stands for: the digits
rounded to a magnitude by `ofRatio`, then scaled by `scaleTen`.  Two roundings are made, and the
result need not be the nearest one. -/
def ofDecimal (digits : Nat) (exponent : Int) : Option Magnitude :=
  (ofRatio digits 1).bind fun m => m.scaleTen exponent

/-! ## The shortest decimal -/

/-- The quotient `a / b` divided by `10 ^ e`, as a quotient of naturals; the decimal partner of
`scaleTwo`. -/
def shiftTen (a b : Nat) (e : Int) : Nat × Nat :=
  if 0 ≤ e then (a, b * Nat.pow 10 e.toNat) else (a * Nat.pow 10 (-e).toNat, b)

/-- The place of the decimal point: the least `p` with `a / b < 10 ^ p`, for a positive quotient
whose first digit lies within `fuel` places of the point. -/
def pointPlace (a b : Nat) : Nat → Int
  | 0 => 0
  | fuel + 1 =>
    if b ≤ a then (Nat.toDigits 10 (a / b)).length
    else if b ≤ a * 10 then 0
    else pointPlace (a * 10) b fuel - 1

/-- The multiple of `10 ^ e` that reads back to the magnitude, if one does: of the two multiples
next to the value the nearer, ties to the even one.  The numbers that read back lie between the
halves of the gaps to the neighbours; the halves themselves count for an even significand, and the
gap below a power of two is half the gap above it. -/
def onGrid (m : Magnitude) (e : Int) : Option Nat :=
  let quarter : Magnitude := ⟨1, m.exponent - 2⟩
  let (unit, den) := quarter.ratio
  let below := if m.significand = 1 <<< 52 ∧ lowestExponent < m.exponent then 1 else 2
  let (value, d) := shiftTen (4 * m.significand * unit) den e
  let (low, _) := shiftTen ((4 * m.significand - below) * unit) den e
  let (high, _) := shiftTen ((4 * m.significand + 2) * unit) den e
  let even := m.significand % 2 = 0
  let inside (n : Nat) : Bool :=
    if even then low ≤ n * d && n * d ≤ high else low < n * d && n * d < high
  let floor := value / d
  let near := roundDiv value d
  let far := if near = floor then floor + 1 else floor
  if inside near then some near else if inside far then some far else none

/-- The first grid with a multiple that reads back by `onGrid`, from `digits` digits upwards. -/
def shortestFrom (m : Magnitude) (point : Int) : Nat → Nat → Nat × Int
  | 0, _ => (0, 0)
  | fuel + 1, digits =>
    match m.onGrid (point - digits) with
    | some n => (n, point - digits)
    | none => shortestFrom m point fuel (digits + 1)

/-- The shortest decimal that reads back to a positive magnitude, as a whole number and a decimal
exponent.  Seventeen digits always do, so the search of `shortestFrom` ends with one. -/
def shortest (m : Magnitude) : Nat × Int :=
  let (a, b) := m.ratio
  shortestFrom m (pointPlace a b 400) 17 1

end Magnitude

/-! ## Its text -/

/-- Text of a magnitude: the shortest digits that read back, positional while the point stands among
the first sixteen places or at most four zeros follow it, scientific otherwise.  A whole number
keeps `.0`. -/
def Magnitude.text (m : Magnitude) : String :=
  if m.significand = 0 then "0.0"
  else
    let (n, e) := m.shortest
    let all := Nat.toDigits 10 n
    let digits := (all.reverse.dropWhile (· = '0')).reverse
    let e := e + (all.length - digits.length : Nat)
    let point : Int := digits.length + e
    if 0 < point ∧ point ≤ 16 then
      if 0 ≤ e then String.ofList (digits ++ List.replicate e.toNat '0' ++ ['.', '0'])
      else String.ofList (digits.take point.toNat ++ '.' :: digits.drop point.toNat)
    else if -5 < point ∧ point ≤ 0 then
      String.ofList ('0' :: '.' :: List.replicate (-point).toNat '0' ++ digits)
    else
      let head := match digits with
        | [] => []
        | [d] => [d]
        | d :: rest => d :: '.' :: rest
      let sign := if 0 < point then '+' else '-'
      String.ofList (head ++ 'e' :: sign :: Nat.toDigits 10 (point - 1).natAbs)

/-! ## Values -/

/-- By `ofDecimal` a half is exact, and a tenth is the nearest magnitude. -/
example : (Magnitude.ofDecimal 15 (-1)).map Magnitude.text = some "1.5" := by decide +kernel

/-- The first whole number beyond 64 bits keeps seventeen digits in its `text`. -/
example : (Magnitude.ofDecimal UInt64.size 0).map Magnitude.text =
    some "1.8446744073709552e+19" := by decide +kernel

/-- The least magnitude has one digit in its `text`, as no other is as near to it. -/
example : (Magnitude.mk 1 (-1074)).text = "5e-324" := by decide +kernel

end MessageTemplate.Json
