/-!
# Binary floating-point numbers taken apart

A 64-bit float is a sign and a natural number times a power of two, or one of the
values that are no number. Writing a float in decimal starts from these parts, so
that the digits are computed in exact arithmetic.

* `Binary.decode` — the parts of a float
* `Ratio` — a non-negative fraction, the exact value the digits are taken from
-/

namespace EnvDiagram.Decimal

/-- A non-negative fraction. -/
structure Ratio where
  num : Nat
  den : Nat
deriving DecidableEq, Repr

/-- The fraction `m · 2 ^ e`. -/
def Ratio.ofBinary (m : Nat) (e : Int) : Ratio :=
  ⟨m * Nat.pow 2 e.toNat, Nat.pow 2 (-e).toNat⟩

/-- The fraction times `10 ^ k`. -/
def Ratio.scaleTen (r : Ratio) (k : Int) : Ratio :=
  ⟨r.num * Nat.pow 10 k.toNat, r.den * Nat.pow 10 (-k).toNat⟩

/-- The parts of a float. -/
inductive Binary where
  | nan
  | infinite (negative : Bool)
  /-- The number `mantissa · 2 ^ exponent`, negated if `negative`. -/
  | finite (negative : Bool) (mantissa : Nat) (exponent : Int)
deriving DecidableEq, Repr

/-- The leading bit of the mantissa of a normal number: the fifty-third from the right. -/
def leadingBit : Nat := 0x10000000000000

/-- Takes 64 bits apart: one for the sign, eleven for the exponent, the rest for the
mantissa, whose leading bit is left out of a normal number. -/
def Binary.ofBits (bits : Nat) : Binary :=
  let negative := decide ((bits >>> 63) % 2 = 1)
  let field : Nat := (bits >>> 52) % 0x800
  let fraction : Nat := bits % leadingBit
  if field = 0x7ff then
    if fraction = 0 then .infinite negative else .nan
  else if field = 0 then .finite negative fraction (-1074)
  else .finite negative (leadingBit + fraction) ((field : Int) - 1075)

/-- The parts of a float. -/
def Binary.decode (x : Float) : Binary := Binary.ofBits x.toBits.toNat

/-- A mantissa has at most 53 bits, and no float has a binary place beyond the 1074th. -/
theorem Binary.ofBits_finite {bits mantissa : Nat} {negative : Bool} {exponent : Int}
    (h : Binary.ofBits bits = .finite negative mantissa exponent) :
    mantissa < 2 * leadingBit ∧ -1074 ≤ exponent := by
  have hfraction : bits % leadingBit < leadingBit := Nat.mod_lt _ (by decide)
  simp only [Binary.ofBits] at h
  split at h
  · split at h <;> cases h
  · split at h
    · cases h
      exact ⟨by omega, by omega⟩
    · cases h
      exact ⟨by omega, by omega⟩

/-- The bits of one have a mantissa of all 53. -/
example : Binary.ofBits 0x3ff0000000000000 = .finite false leadingBit (-52) := by decide

/-- A sign and a text of digits put together. -/
def signed (negative : Bool) (digits : String) : String :=
  if negative then "-" ++ digits else digits

end EnvDiagram.Decimal
