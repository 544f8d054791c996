import Mathlib.Algebra.Order.BigOperators.Group.List
import Mathlib.Algebra.Order.Ring.Int
import Mathlib.Tactic.Linarith

/-!
# MachineInt — checked and saturating arithmetic on unbounded integers

Machine integers are integers (or naturals) with the range written out. A checked operation
answers `none` where the exact result leaves the range, and a saturating one stops at the edge.
Wider intermediate types than the operands need, such as the 128-bit products of 64-bit values,
are the unbounded integers themselves.
-/

namespace VerifiableExchange
namespace Lib

/-! ## Signed 64-bit values -/

def i64Min : Int := -9223372036854775808

def i64Max : Int := 9223372036854775807

/-- The value fits a signed 64-bit integer. -/
def InI64 (x : Int) : Prop := i64Min ≤ x ∧ x ≤ i64Max

instance (x : Int) : Decidable (InI64 x) := inferInstanceAs (Decidable (_ ∧ _))

/-- Conversion into a signed 64-bit integer. -/
def toI64 (x : Int) : Option Int := if InI64 x then some x else none

def checkedAdd (a b : Int) : Option Int := toI64 (a + b)

def checkedSub (a b : Int) : Option Int := toI64 (a - b)

def checkedMul (a b : Int) : Option Int := toI64 (a * b)

def checkedNeg (a : Int) : Option Int := toI64 (-a)

/-- The nearest value inside the signed 64-bit range. -/
def clampI64 (x : Int) : Int := max i64Min (min x i64Max)

def saturatingAdd (a b : Int) : Int := clampI64 (a + b)

/-- A sum of positive values that is capped at every step is the sum, capped once. -/
theorem foldl_saturatingAdd :
    ∀ {values : List Int} {start : Int}, (∀ n ∈ values, 0 < n) → 0 ≤ start → start ≤ i64Max →
      values.foldl saturatingAdd start = min i64Max (start + values.sum)
  | [], start, _, _, hmax => by simp [hmax]
  | n :: rest, start, hpos, hstart, hmax => by
      obtain ⟨hn, hrest⟩ := List.forall_mem_cons.1 hpos
      have hsum : 0 ≤ rest.sum := List.sum_nonneg (fun m hm => (hrest m hm).le)
      have hcapped : saturatingAdd start n = min i64Max (start + n) := by
        unfold saturatingAdd clampI64 i64Min
        omega
      rw [List.foldl_cons,
        foldl_saturatingAdd hrest (by rw [hcapped]; omega) (by rw [hcapped]; omega),
        hcapped, List.sum_cons]
      omega

theorem clampI64_eq_self {x : Int} (h : InI64 x) : clampI64 x = x := by
  obtain ⟨hlow, hhigh⟩ := h
  unfold clampI64
  omega

/-- The sum of any of these values fits, so they can be added in any order. -/
def SumsFit (values : List Int) : Prop :=
  ∀ part : List Int, part.Subperm values → InI64 part.sum

theorem SumsFit.inI64 {values : List Int} (h : SumsFit values) {n : Int} (hn : n ∈ values) :
    InI64 n := by
  have hone := h [n] (List.singleton_subperm_iff.2 hn)
  rwa [List.sum_singleton] at hone

theorem SumsFit.foldl_saturatingAdd {values walked : List Int} (h : SumsFit values)
    (hperm : walked.Perm values) : walked.foldl saturatingAdd 0 = values.sum := by
  -- What is added so far is part of the values.
  have hadd : ∀ rest added : List Int, (added ++ rest).Perm values →
      rest.foldl saturatingAdd added.sum = values.sum := by
    intro rest
    induction rest with
    | nil =>
        intro added hadded
        rw [List.append_nil] at hadded
        exact hadded.sum_eq
    | cons n rest ih =>
        intro added hadded
        rw [List.append_cons] at hadded
        have hfits := h (added ++ [n])
          ((List.sublist_append_left _ rest).subperm.trans hadded.subperm)
        have hnext : saturatingAdd added.sum n = (added ++ [n]).sum := by
          rw [List.sum_append, List.sum_singleton] at hfits ⊢
          exact clampI64_eq_self hfits
        rw [List.foldl_cons, hnext]
        exact ih _ hadded
  exact hadd walked [] hperm

theorem toI64_eq_some {x y : Int} : toI64 x = some y ↔ InI64 x ∧ x = y := by
  unfold toI64
  split_ifs with h
  · simp [h]
  · simp [h]

theorem inI64_of_toI64 {x y : Int} (h : toI64 x = some y) : InI64 y := by
  obtain ⟨hx, rfl⟩ := toI64_eq_some.1 h
  exact hx

theorem checkedAdd_eq_some {a b y : Int} :
    checkedAdd a b = some y ↔ InI64 (a + b) ∧ a + b = y := toI64_eq_some

theorem checkedSub_eq_some {a b y : Int} :
    checkedSub a b = some y ↔ InI64 (a - b) ∧ a - b = y := toI64_eq_some

theorem checkedMul_eq_some {a b y : Int} :
    checkedMul a b = some y ↔ InI64 (a * b) ∧ a * b = y := toI64_eq_some

theorem checkedNeg_eq_some {a y : Int} :
    checkedNeg a = some y ↔ InI64 (-a) ∧ -a = y := toI64_eq_some

/-! ## Unsigned 64-bit values -/

def u64Max : Nat := 18446744073709551615

/-- Addition that stops at the largest unsigned 64-bit value. -/
def saturatingAddU64 (a b : Nat) : Nat := min (a + b) u64Max

def checkedAddU64 (a b : Nat) : Option Nat := if a + b ≤ u64Max then some (a + b) else none

theorem checkedAddU64_eq_some {a b y : Nat} :
    checkedAddU64 a b = some y ↔ a + b ≤ u64Max ∧ a + b = y := by
  unfold checkedAddU64
  split_ifs with h
  · simp [h]
  · simp [h]

end Lib
end VerifiableExchange
