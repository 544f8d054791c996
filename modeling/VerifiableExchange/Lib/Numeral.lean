import Mathlib.Data.Nat.Notation

/-!
# Numeral — reading unsigned numbers

Digits of a radix up to 16, and the number a text spells when it fits a bound.
-/

namespace VerifiableExchange
namespace Lib

/-- `char::to_digit`, for a radix up to 16. -/
def digitOf (radix : Nat) (c : Char) : Option Nat :=
  let value :=
    if '0' ≤ c ∧ c ≤ '9' then some (c.toNat - '0'.toNat)
    else if 'a' ≤ c ∧ c ≤ 'f' then some (c.toNat - 'a'.toNat + 10)
    else if 'A' ≤ c ∧ c ≤ 'F' then some (c.toNat - 'A'.toNat + 10)
    else none
  value.filter (fun digit => digit < radix)

/-- The number these digits spell, the highest digit first. -/
def numberOf (radix : Nat) (digits : List Nat) : Nat :=
  digits.foldl (fun value digit => radix * value + digit) 0

/-- `from_str_radix` into an unsigned integer up to `bound`. One leading plus sign counts for
nothing. -/
def fromStrRadix (radix bound : Nat) (text : List Char) : Option Nat :=
  let digits := if text.head? = some '+' then text.tail else text
  if digits = [] then none
  else ((digits.mapM (digitOf radix)).map (numberOf radix)).filter (fun value => value ≤ bound)

example : fromStrRadix 16 255 "+fF".toList = some 255 := by decide

example : fromStrRadix 10 255 "256".toList = none := by decide

end Lib
end VerifiableExchange
