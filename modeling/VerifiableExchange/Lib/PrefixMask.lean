import Mathlib.Data.BitVec

/-!
# PrefixMask — the highest bits of a word

A block of addresses is a word and a number of leading bits: a word is inside when those bits are
the same. A mask that clears every bit below them decides it with one comparison.
-/

namespace VerifiableExchange
namespace Lib

variable {w : Nat} {p : Nat} {a b base : BitVec w}

/-- The two words have the same highest `p` bits. -/
def SameTop (p : Nat) (a b : BitVec w) : Prop := ∀ i < p, a.getMsbD i = b.getMsbD i

instance (p : Nat) (a b : BitVec w) : Decidable (SameTop p a b) :=
  inferInstanceAs (Decidable (∀ i < p, _))

/-- Clears every bit below the highest `p`. -/
def keepTop (p : Nat) (a : BitVec w) : BitVec w := a &&& (BitVec.allOnes w <<< (w - p))

theorem SameTop.symm (h : SameTop p a b) : SameTop p b a := fun i hi => (h i hi).symm

theorem getMsbD_keepTop (hp : p ≤ w) (i : Nat) :
    (keepTop p a).getMsbD i = (decide (i < p) && a.getMsbD i) := by
  unfold keepTop
  rw [BitVec.getMsbD_and, BitVec.getMsbD_shiftLeft, Bool.and_comm]
  congr 1
  by_cases hi : i < p
  · simp [BitVec.getMsbD, hi]
    omega
  · simp [BitVec.getMsbD, hi]
    omega

theorem keepTop_zero : keepTop 0 a = 0#w := by
  refine BitVec.eq_of_getMsbD_eq (fun i _ => ?_)
  rw [getMsbD_keepTop (Nat.zero_le _)]
  simp

theorem keepTop_eq_keepTop_iff (hp : p ≤ w) : keepTop p a = keepTop p b ↔ SameTop p a b := by
  constructor
  · intro h i hi
    have hbit := congrArg (fun word => BitVec.getMsbD word i) h
    simpa [getMsbD_keepTop hp, hi] using hbit
  · intro h
    refine BitVec.eq_of_getMsbD_eq (fun i _ => ?_)
    rw [getMsbD_keepTop hp, getMsbD_keepTop hp]
    by_cases hi : i < p
    · rw [h i hi]
    · simp [hi]

/-- Against a base with nothing below the prefix, one masked comparison decides. -/
theorem keepTop_eq_iff (hp : p ≤ w) (hbase : keepTop p base = base) :
    keepTop p a = base ↔ SameTop p base a :=
  calc keepTop p a = base ↔ keepTop p a = keepTop p base := by rw [hbase]
    _ ↔ SameTop p a base := keepTop_eq_keepTop_iff hp
    _ ↔ SameTop p base a := ⟨SameTop.symm, SameTop.symm⟩

end Lib
end VerifiableExchange
