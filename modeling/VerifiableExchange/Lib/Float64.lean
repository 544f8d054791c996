import Mathlib.Data.Rat.Floor
import Mathlib.Data.Rat.Defs
import Mathlib.Algebra.Order.Ring.Rat

/-!
# Float64 — IEEE 754 binary64 values, multiplied and rounded exactly

A value is given by its three bit fields, so every value of the type is a value of the format.
Not-a-number payloads are one value. Arithmetic is done on the exact rational behind a finite
value and rounded once to the nearest binary64 value, ties to even.
-/

namespace VerifiableExchange
namespace Lib

inductive F64
  | nan
  | inf (negative : Bool)
  | finite (negative : Bool) (exponent : Fin 2047) (fraction : Fin 4503599627370496)
  deriving DecidableEq

instance (priority := 2000) neZero_exponents : NeZero 2047 := ⟨by decide⟩

instance (priority := 2000) neZero_fractions : NeZero 4503599627370496 := ⟨by decide⟩

/-- `2 ^ e` as a rational, for exponents of either sign. -/
def pow2 (e : Int) : Rat :=
  if 0 ≤ e then ((2 ^ e.toNat : Nat) : Rat) else 1 / ((2 ^ (-e).toNat : Nat) : Rat)

/-- A nonnegative rational rounded to the nearest natural number, ties to even. -/
def roundHalfEven (q : Rat) : Nat :=
  let down := q.floor.toNat
  let rest := q - down
  if rest < 1 / 2 then down
  else if 1 / 2 < rest then down + 1
  else if down % 2 = 0 then down else down + 1

/-- A rational rounded to the nearest integer, ties away from zero. -/
def roundHalfAway (q : Rat) : Int :=
  if 0 ≤ q then (q + 1 / 2).floor else -((-q + 1 / 2).floor)

/-- The exponent of the last mantissa bit of a positive rational, not below the smallest one. -/
def lastBitExponent (q : Rat) : Int :=
  let guess : Int := (Nat.log2 q.num.natAbs : Int) - (Nat.log2 q.den : Int) - 52
  max (if q < pow2 (guess + 52) then guess - 1 else guess) (-1074)

/-- The binary64 value nearest to a rational; `none` where it overflows to an infinity. -/
def roundToF64 (q : Rat) : Option Rat :=
  if q = 0 then some 0
  else
    let e := lastBitExponent |q|
    let magnitude := (roundHalfEven (|q| / pow2 e) : Rat) * pow2 e
    if pow2 1024 ≤ magnitude then none
    else some (if q < 0 then -magnitude else magnitude)

namespace F64

/-- The rational a finite value stands for; `none` for the infinities and not-a-number. -/
def toRat? : F64 → Option Rat
  | nan => none
  | inf _ => none
  | finite negative exponent fraction =>
      let magnitude : Rat :=
        if exponent.val = 0 then (fraction.val : Rat) * pow2 (-1074)
        else ((4503599627370496 + fraction.val : Nat) : Rat) * pow2 ((exponent.val : Int) - 1075)
      some (if negative then -magnitude else magnitude)

/-- The product with a small whole number, where it is finite. -/
def scaled (value : F64) (scale : Nat) : Option Rat :=
  value.toRat?.bind (fun q => roundToF64 (q * scale))

/-- A whole number up to `2 ^ 53` as a binary64 value. -/
def ofNat (n : Nat) : F64 :=
  if n = 0 then finite false 0 0
  else
    let e := Nat.log2 n
    finite false (Fin.ofNat 2047 (e + 1023)) (Fin.ofNat 4503599627370496 (n * 2 ^ (52 - e)))

end F64

end Lib
end VerifiableExchange
