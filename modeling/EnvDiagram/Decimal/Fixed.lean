import EnvDiagram.Decimal.Binary

/-!
# Decimals with a fixed number of places

The exact value is rounded to the grid of `10 ^ -places`; a value half way between two
neighbours goes to the even one. The sign is kept even where all digits are zero.
-/

namespace EnvDiagram.Decimal

/-- The whole number nearest to a fraction, the even one of two equally near. -/
def Ratio.roundEven (r : Ratio) : Nat :=
  let q := r.num / r.den
  let rest := 2 * (r.num % r.den)
  if rest < r.den ∨ (rest = r.den ∧ q % 2 = 0) then q else q + 1

/-- The nearest whole number is no more than a half away. -/
theorem Ratio.roundEven_near (r : Ratio) (h : 0 < r.den) :
    2 * (r.roundEven * r.den) ≤ 2 * r.num + r.den ∧
      2 * r.num ≤ 2 * (r.roundEven * r.den) + r.den := by
  have hdiv := Nat.div_add_mod' r.num r.den
  have hlt := Nat.mod_lt r.num h
  unfold roundEven
  dsimp only
  split
  · omega
  · rw [Nat.add_mul, Nat.one_mul]
    omega

/-- A number half way between two others goes to the even one. -/
theorem Ratio.even_roundEven_of_half (r : Ratio) (h : 2 * (r.num % r.den) = r.den) :
    r.roundEven % 2 = 0 := by
  unfold roundEven
  dsimp only
  split <;> omega

example : (Ratio.mk 1 2).roundEven = 0 ∧ (Ratio.mk 5 2).roundEven = 2 := by decide

/-- A fraction with the given number of places. -/
def Ratio.fixed (r : Ratio) (places : Nat) : String :=
  let n := (r.scaleTen places).roundEven
  let whole := toString (n / Nat.pow 10 places)
  if places = 0 then whole
  else
    let ds := Nat.toDigits 10 (n % Nat.pow 10 places)
    whole ++ "." ++ String.ofList (List.replicate (places - ds.length) '0' ++ ds)

/-- A float with the given number of places. -/
def fixed (places : Nat) (x : Float) : String :=
  match Binary.decode x with
  | .nan => "NaN"
  | .infinite negative => signed negative "inf"
  | .finite negative m e => signed negative ((Ratio.ofBinary m e).fixed places)

end EnvDiagram.Decimal
