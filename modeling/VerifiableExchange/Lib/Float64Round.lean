import VerifiableExchange.Lib.Float64

/-!
# Float64Round — from a rational to the nearest binary64 value

The bit fields of a rounded rational. One operation of the hardware on exact operands is the exact
result, rounded once.
-/

namespace VerifiableExchange
namespace Lib
namespace F64

/-- The binary64 value nearest to a rational. -/
def ofRat (q : Rat) : F64 :=
  match roundToF64 q with
  | none => inf (decide (q < 0))
  | some rounded =>
      let e := lastBitExponent |rounded|
      let mantissa := (|rounded| / pow2 e).floor.toNat
      if mantissa < 4503599627370496 then
        finite (decide (q < 0)) 0 (Fin.ofNat 4503599627370496 mantissa)
      else
        finite (decide (q < 0)) (Fin.ofNat 2047 (e + 1075).toNat)
          (Fin.ofNat 4503599627370496 (mantissa - 4503599627370496))

def isFinite : F64 → Bool
  | finite _ _ _ => true
  | _ => false

theorem isFinite_iff {x : F64} : x.isFinite = true ↔ ∃ q, x.toRat? = some q := by
  cases x <;> simp [isFinite, toRat?]

theorem isFinite_of_scaled {x : F64} {scale : Nat} {q : Rat} (h : x.scaled scale = some q) :
    x.isFinite = true := by
  obtain ⟨r, hr, -⟩ := Option.bind_eq_some_iff.1 h
  exact isFinite_iff.2 ⟨r, hr⟩

/-- A whole number divided by a whole number, both exact in binary64. -/
def quotient (units : Int) (scale : Nat) : F64 := ofRat ((units : Rat) / scale)

example : quotient 10000 100 = ofNat 100 := by decide +kernel

end F64
end Lib
end VerifiableExchange
