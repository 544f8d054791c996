import VerifiableExchange.Lib.Float64Round
import Mathlib.Algebra.Order.Field.Power
import Mathlib.Data.Rat.Cast.Order
import Mathlib.Algebra.Order.Archimedean.Basic
import Mathlib.Tactic.Linarith
import Mathlib.Tactic.Positivity
import Mathlib.Tactic.FieldSimp

/-!
# Float64Error — how far rounding moves a number

A rounded rational is within half a unit in the last place of the rational, and the bit fields made
of it stand for it exactly.
-/

namespace VerifiableExchange
namespace Lib

/-! ## Powers of two -/

theorem pow2_eq (e : Int) : pow2 e = (2 : Rat) ^ e := by
  rw [pow2]
  split_ifs with h
  · rw [Nat.cast_pow, Nat.cast_ofNat, ← zpow_natCast, Int.toNat_of_nonneg h]
  · rw [Nat.cast_pow, Nat.cast_ofNat, one_div, ← zpow_natCast, Int.toNat_of_nonneg (by omega),
      zpow_neg, inv_inv]

theorem pow2_pos (e : Int) : 0 < pow2 e := by
  rw [pow2_eq]
  positivity

theorem pow2_add (a b : Int) : pow2 (a + b) = pow2 a * pow2 b := by
  rw [pow2_eq, pow2_eq, pow2_eq, zpow_add₀ two_ne_zero]

theorem pow2_le {a b : Int} (h : a ≤ b) : pow2 a ≤ pow2 b := by
  rw [pow2_eq, pow2_eq]
  exact zpow_le_zpow_right₀ one_le_two h

theorem pow2_lt_iff {a b : Int} : pow2 a < pow2 b ↔ a < b := by
  rw [pow2_eq, pow2_eq]
  exact zpow_lt_zpow_iff_right₀ one_lt_two

theorem pow2_52 : pow2 52 = 4503599627370496 := by
  rw [pow2_eq]
  norm_num

theorem pow2_53 : pow2 53 = 9007199254740992 := by
  rw [pow2_eq]
  norm_num

/-! ## The last bit -/

/-- The place of the leading bit of a positive rational, up to one. -/
theorem between_logs {q : Rat} (hq : 0 < q) :
    pow2 ((Nat.log2 q.num.natAbs : Int) - (Nat.log2 q.den : Int) - 1) < q ∧
      q < pow2 ((Nat.log2 q.num.natAbs : Int) - (Nat.log2 q.den : Int) + 1) := by
  have hnum : 0 < q.num := Rat.num_pos.2 hq
  have hpos : q.num.natAbs ≠ 0 := by omega
  have hlow : ((2 : Rat) ^ Nat.log2 q.num.natAbs) ≤ q.num := by
    have h := Nat.log2_self_le hpos
    have hcast : ((2 ^ Nat.log2 q.num.natAbs : Nat) : Rat) ≤ (q.num.natAbs : Nat) := Nat.cast_le.2 h
    have habs : ((q.num.natAbs : Nat) : Rat) = q.num := by
      rw [← Int.cast_natCast, Int.natAbs_of_nonneg hnum.le]
    rw [habs] at hcast
    exact_mod_cast hcast
  have hhigh : (q.num : Rat) < (2 : Rat) ^ (Nat.log2 q.num.natAbs + 1) := by
    have h := @Nat.lt_log2_self q.num.natAbs
    have hcast : ((q.num.natAbs : Nat) : Rat) < ((2 ^ (Nat.log2 q.num.natAbs + 1) : Nat) : Rat) :=
      Nat.cast_lt.2 h
    have habs : ((q.num.natAbs : Nat) : Rat) = q.num := by
      rw [← Int.cast_natCast, Int.natAbs_of_nonneg hnum.le]
    rw [habs] at hcast
    exact_mod_cast hcast
  have hdlow : ((2 : Rat) ^ Nat.log2 q.den) ≤ q.den := by
    exact_mod_cast Nat.log2_self_le q.den_ne_zero
  have hdhigh : (q.den : Rat) < (2 : Rat) ^ (Nat.log2 q.den + 1) := by
    exact_mod_cast @Nat.lt_log2_self q.den
  have hden : (0 : Rat) < q.den := by exact_mod_cast q.den_pos
  have hqeq : q = q.num / q.den := (Rat.num_div_den q).symm
  constructor
  · rw [pow2_eq, show ((Nat.log2 q.num.natAbs : Int) - (Nat.log2 q.den : Int) - 1) =
      (Nat.log2 q.num.natAbs : Int) - ((Nat.log2 q.den + 1 : Nat) : Int) by push_cast; ring,
      zpow_sub₀ two_ne_zero, zpow_natCast, zpow_natCast]
    conv_rhs => rw [hqeq]
    rw [div_lt_div_iff₀ (by positivity) hden]
    have hnumpos : (0 : Rat) < q.num := by exact_mod_cast hnum
    calc (2 : Rat) ^ Nat.log2 q.num.natAbs * q.den
        ≤ q.num * q.den := by gcongr
      _ < q.num * 2 ^ (Nat.log2 q.den + 1) := by gcongr
  · rw [pow2_eq, show ((Nat.log2 q.num.natAbs : Int) - (Nat.log2 q.den : Int) + 1) =
      ((Nat.log2 q.num.natAbs + 1 : Nat) : Int) - (Nat.log2 q.den : Int) by push_cast; ring,
      zpow_sub₀ two_ne_zero, zpow_natCast, zpow_natCast]
    conv_lhs => rw [hqeq]
    rw [div_lt_div_iff₀ hden (by positivity)]
    calc (q.num : Rat) * 2 ^ Nat.log2 q.den
        ≤ q.num * q.den := by
          have hnumpos : (0 : Rat) < q.num := by exact_mod_cast hnum
          gcongr
      _ < 2 ^ (Nat.log2 q.num.natAbs + 1) * q.den := by gcongr

/-- A positive rational has its leading bit 52 places above its last one, or it is below that. -/
structure LastBit (q : Rat) (e : Int) : Prop where
  least : -1074 ≤ e
  below : q < pow2 (e + 53)
  above : pow2 (e + 52) ≤ q ∨ e = -1074

theorem lastBitExponent_lastBit {q : Rat} (hq : 0 < q) : LastBit q (lastBitExponent q) := by
  obtain ⟨hlow, hhigh⟩ := between_logs hq
  rw [lastBitExponent]
  generalize (Nat.log2 q.num.natAbs : Int) - (Nat.log2 q.den : Int) = lead at hlow hhigh ⊢
  -- The guess is right, or one too high.
  have hexact : ∀ e, pow2 (e + 52) ≤ q → q < pow2 (e + 53) → LastBit q (max e (-1074)) := by
    intro e habove hbelow
    refine ⟨le_max_right _ _, hbelow.trans_le (pow2_le (by omega)), ?_⟩
    rcases le_total (-1074) e with hnormal | hsmall
    · rw [max_eq_left hnormal]
      exact Or.inl habove
    · rw [max_eq_right hsmall]
      exact Or.inr rfl
  split_ifs with hless
  · refine hexact _ (le_of_eq_of_le (congrArg pow2 ?_) hlow.le)
      (hless.trans_le (le_of_eq (congrArg pow2 ?_))) <;> ring
  · refine hexact _ (not_lt.1 hless) (hhigh.trans_le (le_of_eq (congrArg pow2 ?_)))
    ring

/-- There is one such place. -/
theorem LastBit.unique {q : Rat} {a b : Int} (ha : LastBit q a) (hb : LastBit q b) : a = b := by
  have key : ∀ {a b : Int}, LastBit q a → LastBit q b → b ≤ a := by
    intro a b ha hb
    rcases hb.above with habove | rfl
    · have := pow2_lt_iff.1 (habove.trans_lt ha.below)
      omega
    · exact ha.least
  exact le_antisymm (key hb ha) (key ha hb)

/-! ## Rounding -/

theorem roundHalfEven_error {x : Rat} (hx : 0 ≤ x) : |(roundHalfEven x : Rat) - x| ≤ 1 / 2 := by
  have hfloor : 0 ≤ x.floor := Rat.le_floor_iff.2 (by exact_mod_cast hx)
  have hcast : ((x.floor.toNat : Nat) : Rat) = x.floor := by
    rw [← Int.cast_natCast, Int.toNat_of_nonneg hfloor]
  have hle : (x.floor : Rat) ≤ x := Rat.floor_le x
  have hlt : x < x.floor + 1 := by exact_mod_cast Rat.lt_floor_add_one x
  rw [roundHalfEven, hcast]
  split_ifs with hlow hhigh
  · rw [hcast, abs_le]
    constructor <;> linarith
  · rw [Nat.cast_add, hcast, Nat.cast_one, abs_le]
    constructor <;> linarith
  · rw [hcast, abs_le]
    constructor <;> linarith
  · rw [Nat.cast_add, hcast, Nat.cast_one, abs_le]
    constructor <;> linarith

theorem roundHalfEven_nat (n : Nat) : roundHalfEven (n : Rat) = n := by
  have herror := roundHalfEven_error (Nat.cast_nonneg (α := Rat) n)
  have hint : |((roundHalfEven (n : Rat) : Int) - (n : Int) : Int)| < 1 := by
    have hcast : |(((roundHalfEven (n : Rat) : Int) - (n : Int) : Int) : Rat)| < 1 := by
      push_cast
      linarith
    exact_mod_cast hcast
  rw [Int.abs_lt_one_iff] at hint
  omega

theorem roundHalfEven_le {x : Rat} {n : Nat} (hx : 0 ≤ x) (h : x ≤ n) : roundHalfEven x ≤ n := by
  have herror := (abs_le.1 (roundHalfEven_error hx)).2
  have hlt : (roundHalfEven x : Rat) < (n + 1 : Nat) := by
    push_cast
    linarith
  exact Nat.lt_succ_iff.1 (Nat.cast_lt.1 hlt)

theorem le_roundHalfEven {x : Rat} {n : Nat} (h : (n : Rat) ≤ x) : n ≤ roundHalfEven x := by
  have hx : 0 ≤ x := (Nat.cast_nonneg n).trans h
  have herror := (abs_le.1 (roundHalfEven_error hx)).1
  have hlt : (n : Rat) < (roundHalfEven x + 1 : Nat) := by
    push_cast
    linarith
  exact Nat.lt_succ_iff.1 (Nat.cast_lt.1 hlt)

/-- The mantissa a nonzero rational is rounded to. -/
def mantissa (q : Rat) : Nat := roundHalfEven (|q| / pow2 (lastBitExponent |q|))

theorem roundToF64_eq {q : Rat} (hq : q ≠ 0) : roundToF64 q =
    if pow2 1024 ≤ mantissa q * pow2 (lastBitExponent |q|) then none
    else some (if q < 0 then -(mantissa q * pow2 (lastBitExponent |q|))
      else mantissa q * pow2 (lastBitExponent |q|)) := by
  rw [roundToF64, if_neg hq]
  rfl

theorem mantissa_error (q : Rat) :
    |(mantissa q * pow2 (lastBitExponent |q|) - (|q|) : Rat)| ≤ pow2 (lastBitExponent |q|) / 2 := by
  have hpos := pow2_pos (lastBitExponent |q|)
  have herror := roundHalfEven_error (div_nonneg (abs_nonneg q) hpos.le)
  have hsplit : (mantissa q * pow2 (lastBitExponent |q|) - (|q|) : Rat) =
      (mantissa q - |q| / pow2 (lastBitExponent |q|)) * pow2 (lastBitExponent |q|) := by
    rw [sub_mul, div_mul_cancel₀ _ hpos.ne']
  rw [hsplit, abs_mul, abs_of_pos hpos]
  calc |((mantissa q : Rat) - (|q|) / pow2 (lastBitExponent |q|))| * pow2 (lastBitExponent |q|)
      ≤ 1 / 2 * pow2 (lastBitExponent |q|) := by
        apply mul_le_mul_of_nonneg_right herror hpos.le
    _ = pow2 (lastBitExponent |q|) / 2 := by ring

/-- A rounded number is within half a unit in the last place, and that is a small part of it. -/
theorem roundToF64_error {q r : Rat} (h : roundToF64 q = some r) :
    |r - q| ≤ |q| / 9007199254740992 + 1 / 1152921504606846976 := by
  by_cases hq : q = 0
  · subst hq
    cases h
    norm_num
  · rw [roundToF64_eq hq] at h
    split_ifs at h with hover hneg
    all_goals
      cases h
    all_goals
      have herror := mantissa_error q
      have hlast := lastBitExponent_lastBit (abs_pos.2 hq)
      have hunit : pow2 (lastBitExponent |q|) / 2 ≤
          |q| / 9007199254740992 + 1 / 1152921504606846976 := by
        rcases hlast.above with habove | hleast
        · rw [pow2_add, pow2_52] at habove
          have hpos := abs_nonneg q
          linarith
        · have hsmall : pow2 (-1074) ≤ pow2 (-60) := pow2_le (by decide)
          have hvalue : pow2 (-60) = 1 / 1152921504606846976 := by
            rw [pow2_eq]
            norm_num
          have hpos := abs_nonneg q
          rw [hleast]
          have hbound : pow2 (-1074) / 2 ≤ 1 / 1152921504606846976 := by
            have := pow2_pos (-1074)
            linarith
          have hpart : 0 ≤ |q| / 9007199254740992 := by positivity
          linarith
      refine le_trans ?_ (herror.trans hunit)
    · rw [abs_of_neg hneg, ← abs_neg]
      apply le_of_eq
      congr 1
      ring
    · rw [abs_of_nonneg (not_lt.1 hneg)]

/-- A rational below the range of the format is not rounded to an infinity. -/
theorem roundToF64_isSome {q : Rat} (h : |q| ≤ 1152921504606846976) :
    ∃ r, roundToF64 q = some r := by
  by_cases hq : q = 0
  · exact ⟨0, by rw [roundToF64, if_pos hq]⟩
  · rw [roundToF64_eq hq]
    have hless : ¬pow2 1024 ≤ mantissa q * pow2 (lastBitExponent |q|) := by
      have herror := (abs_le.1 (mantissa_error q)).2
      have hlast := lastBitExponent_lastBit (abs_pos.2 hq)
      have hbig : pow2 62 ≤ pow2 1024 := pow2_le (by decide)
      have hvalue : pow2 62 = 4611686018427387904 := by
        rw [pow2_eq]
        norm_num
      have hunit : pow2 (lastBitExponent |q|) ≤ |q| ∨ pow2 (lastBitExponent |q|) ≤ 1 := by
        rcases hlast.above with habove | hleast
        · left
          exact (pow2_le (by omega)).trans habove
        · right
          rw [hleast]
          have hone : pow2 (-1074) ≤ pow2 0 := pow2_le (by decide)
          rwa [show pow2 0 = 1 from by rw [pow2_eq, zpow_zero]] at hone
      rcases hunit with hunit | hunit <;> linarith
    rw [if_neg hless]
    exact ⟨_, rfl⟩

/-! ## Bit fields -/

/-- A mantissa and an exponent as the format writes them down. -/
structure Canonical (m : Nat) (e : Int) : Prop where
  least : -1074 ≤ e
  below : m < 9007199254740992
  above : 4503599627370496 ≤ m ∨ e = -1074

theorem Canonical.lastBit {m : Nat} {e : Int} (h : Canonical m e) : LastBit (m * pow2 e) e where
  least := h.least
  below := by
    rw [add_comm, pow2_add, pow2_53]
    apply mul_lt_mul_of_pos_right _ (pow2_pos e)
    exact_mod_cast h.below
  above := h.above.imp_left fun habove => by
    rw [add_comm, pow2_add, pow2_52]
    apply mul_le_mul_of_nonneg_right _ (pow2_pos e).le
    exact_mod_cast habove

/-- Every rounded magnitude has a canonical form. -/
theorem exists_canonical {q : Rat} (hq : q ≠ 0) :
    ∃ m e, Canonical m e ∧ mantissa q * pow2 (lastBitExponent |q|) = m * pow2 e := by
  have hlast := lastBitExponent_lastBit (abs_pos.2 hq)
  have hpos := pow2_pos (lastBitExponent |q|)
  have hle : mantissa q ≤ 9007199254740992 := by
    apply roundHalfEven_le (div_nonneg (abs_nonneg q) hpos.le)
    rw [div_le_iff₀ hpos]
    have hbelow := hlast.below.le
    rw [add_comm, pow2_add, pow2_53] at hbelow
    exact_mod_cast hbelow
  have habove : 4503599627370496 ≤ mantissa q ∨ lastBitExponent |q| = -1074 := by
    refine hlast.above.imp_left fun habove => ?_
    apply le_roundHalfEven
    rw [le_div_iff₀ hpos]
    rw [add_comm, pow2_add, pow2_52] at habove
    exact_mod_cast habove
  rcases hle.lt_or_eq with hlt | hfull
  · exact ⟨_, _, ⟨hlast.least, hlt, habove⟩, rfl⟩
  · -- Rounded up to the next power of two.
    refine ⟨4503599627370496, lastBitExponent |q| + 1,
      ⟨by have := hlast.least; omega, by decide, Or.inl le_rfl⟩, ?_⟩
    rw [hfull, pow2_add, show pow2 1 = 2 from by rw [pow2_eq, zpow_one]]
    push_cast
    ring

namespace F64

/-- The value of the bit fields of a canonical number. -/
theorem toRat?_fields {m : Nat} {e : Int} (h : Canonical m e) (hrange : m * pow2 e < pow2 1024)
    (negative : Bool) :
    toRat? (if m < 4503599627370496 then finite negative 0 (Fin.ofNat 4503599627370496 m)
      else finite negative (Fin.ofNat 2047 (e + 1075).toNat)
        (Fin.ofNat 4503599627370496 (m - 4503599627370496))) =
      some (if negative then -(m * pow2 e) else m * pow2 e) := by
  by_cases hsmall : m < 4503599627370496
  · rw [if_pos hsmall]
    obtain rfl : e = -1074 := h.above.resolve_left (by omega)
    have hm : (Fin.ofNat 4503599627370496 m).val = m := Nat.mod_eq_of_lt hsmall
    simp only [toRat?, hm]
    rfl
  · rw [if_neg hsmall]
    have hbelow := h.below
    have hleast := h.least
    have htop : e < 972 := by
      have hle : pow2 52 * pow2 e ≤ m * pow2 e := by
        apply mul_le_mul_of_nonneg_right _ (pow2_pos e).le
        rw [pow2_52]
        exact_mod_cast not_lt.1 hsmall
      rw [← pow2_add] at hle
      have := pow2_lt_iff.1 (hle.trans_lt hrange)
      omega
    have hexponent : (Fin.ofNat 2047 (e + 1075).toNat).val = (e + 1075).toNat :=
      Nat.mod_eq_of_lt (by omega)
    have hfraction : (Fin.ofNat 4503599627370496 (m - 4503599627370496)).val =
        m - 4503599627370496 := Nat.mod_eq_of_lt (by omega)
    have hne : (e + 1075).toNat ≠ 0 := by omega
    have hsum : 4503599627370496 + (m - 4503599627370496) = m := by omega
    have hback : (((e + 1075).toNat : Int)) - 1075 = e := by omega
    simp only [toRat?, hexponent, hfraction, hne, if_false, hsum, hback]

theorem mantissa_floor (m : Nat) (e : Int) : ((m * pow2 e) / pow2 e).floor.toNat = m := by
  rw [mul_div_cancel_right₀ _ (pow2_pos e).ne']
  have hfloor : (m : Rat).floor = m := by
    exact_mod_cast Rat.floor_intCast (m : Int)
  rw [hfloor, Int.toNat_natCast]

/-- The bit fields of a rational stand for the rounded rational. -/
theorem toRat?_ofRat (q : Rat) : (ofRat q).toRat? = roundToF64 q := by
  by_cases hq : q = 0
  · subst hq
    decide +kernel
  · obtain ⟨m, e, hcanonical, hvalue⟩ := exists_canonical hq
    rw [ofRat, roundToF64_eq hq, hvalue]
    by_cases hover : pow2 1024 ≤ m * pow2 e
    · rw [if_pos hover]
      rfl
    · rw [if_neg hover]
      dsimp only
      have hnonneg : 0 ≤ (m : Rat) * pow2 e := mul_nonneg (Nat.cast_nonneg m) (pow2_pos e).le
      have habs : |if q < 0 then -((m : Rat) * pow2 e) else m * pow2 e| = m * pow2 e := by
        split_ifs
        · rw [abs_neg, abs_of_nonneg hnonneg]
        · rw [abs_of_nonneg hnonneg]
      rw [habs]
      rcases Nat.eq_zero_or_pos m with rfl | hpos
      · -- Rounded down to nothing.
        have hzero : ((0 : Nat) : Rat) * pow2 e = 0 := by rw [Nat.cast_zero, zero_mul]
        rw [hzero, zero_div]
        have hfloor : (0 : Rat).floor.toNat = 0 := by decide
        rw [hfloor, if_pos (by decide)]
        by_cases hneg : q < 0 <;> simp [toRat?, hneg]
      · have hlast : lastBitExponent ((m : Rat) * pow2 e) = e :=
          (lastBitExponent_lastBit (mul_pos (by exact_mod_cast hpos) (pow2_pos e))).unique
            hcanonical.lastBit
        rw [hlast, mantissa_floor, toRat?_fields hcanonical (not_le.1 hover)]
        by_cases hneg : q < 0 <;> simp [hneg]

/-- A whole number of at most 53 bits is not rounded. -/
theorem toRat?_ofRat_natCast {n : Nat} (h : n < 9007199254740992) :
    (ofRat (n : Rat)).toRat? = some (n : Rat) := by
  rw [toRat?_ofRat]
  rcases Nat.eq_zero_or_pos n with rfl | hn
  · rfl
  have hpos : (0 : Rat) < n := by exact_mod_cast hn
  have hbelow : (n : Rat) < pow2 53 := by
    rw [pow2_53]
    exact_mod_cast h
  have hle : lastBitExponent (n : Rat) ≤ 0 := by
    rcases (lastBitExponent_lastBit hpos).above with habove | hleast
    · have hlead := pow2_lt_iff.1 (habove.trans_lt hbelow)
      omega
    · omega
  -- Its last bit stands for one or less, so the number has no bits below the last one.
  obtain ⟨k, hk⟩ : ∃ k : Nat, lastBitExponent (n : Rat) = -(k : Int) :=
    ⟨(lastBitExponent (n : Rat)).natAbs, by omega⟩
  have hunit : pow2 (-(k : Int)) * (2 : Rat) ^ k = 1 := by
    rw [pow2_eq, zpow_neg, zpow_natCast]
    exact inv_mul_cancel₀ (by positivity)
  have hwhole : (n : Rat) / pow2 (-(k : Int)) = ((n * 2 ^ k : Nat) : Rat) := by
    rw [div_eq_iff (pow2_pos _).ne']
    push_cast
    rw [mul_assoc, mul_comm ((2 : Rat) ^ k), hunit, mul_one]
  have hmantissa : (mantissa (n : Rat) : Rat) * pow2 (lastBitExponent |(n : Rat)|) = n := by
    rw [mantissa, abs_of_pos hpos, hk, hwhole, roundHalfEven_nat, ← hwhole,
      div_mul_cancel₀ _ (pow2_pos _).ne']
  rw [roundToF64_eq hpos.ne', hmantissa, if_neg (not_le.2 (hbelow.trans_le (pow2_le (by decide)))),
    if_neg (not_lt.2 hpos.le)]

end F64

end Lib
end VerifiableExchange
