import EnvDiagram.Decimal.Binary

/-!
# The shortest decimal that reads back

Among the decimals that a reader would round to a given float, `shortest` picks one
with the fewest digits, and of those the nearest. On the grid of decimals with `n`
digits only the two neighbours of the float can qualify first, so for `n = 1, 2, …`
both are tested; seventeen digits always suffice.

* `ReadsBack` — the interval of fractions that are read as the float
* `shortest` — the chosen decimal
* `plain` — the decimal written out without an exponent
-/

namespace EnvDiagram.Decimal

/-- The decimal `digits · 10 ^ exponent`. -/
structure Plain where
  digits : Nat
  exponent : Int
deriving DecidableEq, Repr

/-! ## The interval that reads back -/

/-- The fractions that are read as one float, in quarters of its last binary place:
from `low` to `high` around `value`, the ends included if the mantissa is even. -/
structure ReadsBack where
  low : Nat
  value : Nat
  high : Nat
  /-- A quarter of the last place is `2 ^ unit`. -/
  unit : Int
  closed : Bool
deriving DecidableEq, Repr

/-- Half a place around `m · 2 ^ e`; only a quarter below a power of two, where the
floats lie closer together. -/
def ReadsBack.ofBinary (m : Nat) (e : Int) : ReadsBack where
  low := if m = leadingBit ∧ -1074 < e then 4 * m - 1 else 4 * m - 2
  value := 4 * m
  high := 4 * m + 2
  unit := e - 2
  closed := m % 2 = 0

/-- Whether the multiple `d` of the grid `10 ^ k` lies in the interval. -/
def ReadsBack.contains (b : ReadsBack) (k : Int) (d : Nat) : Bool :=
  let g := (Ratio.ofBinary 1 b.unit).scaleTen (-k)
  let x := d * g.den
  if b.closed then b.low * g.num ≤ x && x ≤ b.high * g.num
  else b.low * g.num < x && x < b.high * g.num

/-! ## Choosing the digits -/

/-- The count of decimal digits of a number. -/
def digitCount (n : Nat) : Nat := (Nat.toDigits 10 n).length

/-- The exponent of the leading decimal digit of a positive fraction: the largest `k`
with `10 ^ k` at most the fraction. -/
def leadingExponent (r : Ratio) : Int :=
  if r.den ≤ r.num then (digitCount (r.num / r.den) : Int) - 1
  else
    let k := digitCount (r.den / r.num)
    if r.den ≤ r.num * Nat.pow 10 (k - 1) then 1 - (k : Int) else -(k : Int)

/-- The neighbour below on the grid `10 ^ k`, and the one above, whichever reads back;
the nearer if both do, and the one above if they are equally near. -/
def ReadsBack.onGrid (b : ReadsBack) (k : Int) : Option Plain :=
  let g := (Ratio.ofBinary b.value b.unit).scaleTen (-k)
  let below := g.num / g.den
  let above := below + 1
  match b.contains k below, b.contains k above with
  | true, true => some ⟨if 2 * (g.num % g.den) < g.den then below else above, k⟩
  | true, false => some ⟨below, k⟩
  | false, true => some ⟨above, k⟩
  | false, false => none

/-- What is found on a grid reads back. -/
theorem ReadsBack.contains_of_onGrid {b : ReadsBack} {k : Int} {p : Plain}
    (h : b.onGrid k = some p) : p.exponent = k ∧ b.contains k p.digits := by
  unfold onGrid at h
  dsimp only at h
  split at h <;> cases h <;> refine ⟨rfl, ?_⟩
  · split <;> assumption
  · assumption
  · assumption

/-- The smallest float reads back from one digit. -/
example : (ReadsBack.ofBinary 1 (-1074)).onGrid (-324) = some ⟨5, -324⟩ := by decide +kernel

/-- The shortest decimal that reads back as `m · 2 ^ e`. -/
def shortest (m : Nat) (e : Int) : Plain :=
  if m = 0 then ⟨0, 0⟩
  else
    let b := ReadsBack.ofBinary m e
    let lead := leadingExponent (Ratio.ofBinary m e)
    ((List.range 18).findSome? fun n : Nat => b.onGrid (lead - n)).getD ⟨m, e⟩

/-! ## Writing it out -/

/-- The digits after the point: padded in front to `places`, zeros at the end left out. -/
def fractionDigits (places d : Nat) : List Char :=
  let ds := Nat.toDigits 10 d
  ((List.replicate (places - ds.length) '0' ++ ds).reverse.dropWhile (· = '0')).reverse

/-- The decimal without an exponent and without a trailing point. -/
def Plain.text (p : Plain) : String :=
  if 0 ≤ p.exponent then toString (p.digits * Nat.pow 10 p.exponent.toNat)
  else
    let places := (-p.exponent).toNat
    let whole := toString (p.digits / Nat.pow 10 places)
    let rest := p.digits % Nat.pow 10 places
    if rest = 0 then whole else whole ++ "." ++ String.ofList (fractionDigits places rest)

/-- A float written with the fewest digits that read back, without an exponent. -/
def plain (x : Float) : String :=
  match Binary.decode x with
  | .nan => "NaN"
  | .infinite negative => signed negative "inf"
  | .finite negative m e => signed negative (shortest m e).text

end EnvDiagram.Decimal
