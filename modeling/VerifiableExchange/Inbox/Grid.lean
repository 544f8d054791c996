import VerifiableExchange.Lib.Float64Error
import VerifiableExchange.Wire.RoundTrip

/-!
# Grid — whole units and the numbers that name them

A number on the grid is far from the edges of binary64, and the number made of whole units names
those units again.
-/

namespace VerifiableExchange
namespace Inbox

open Lib Wire

theorem roundHalfAway_error (q : Rat) : |(roundHalfAway q : Rat) - q| ≤ 1 / 2 := by
  rw [roundHalfAway]
  split_ifs
  · have hle := Rat.floor_le (q + 1 / 2)
    have hlt : q + 1 / 2 < (q + 1 / 2).floor + 1 := by exact_mod_cast Rat.lt_floor_add_one (q + 1 / 2)
    rw [abs_le]
    constructor <;> linarith
  · have hle := Rat.floor_le (-q + 1 / 2)
    have hlt : -q + 1 / 2 < (-q + 1 / 2).floor + 1 := by
      exact_mod_cast Rat.lt_floor_add_one (-q + 1 / 2)
    rw [Int.cast_neg, abs_le]
    constructor <;> linarith

/-- The one whole number near a rational is what it is rounded to. -/
theorem roundHalfAway_eq {q : Rat} {n : Int} (h : |q - n| < 1 / 2) : roundHalfAway q = n := by
  have herror := roundHalfAway_error q
  have hnear : |((roundHalfAway q - n : Int) : Rat)| < 1 := by
    rw [abs_lt] at h ⊢
    rw [abs_le] at herror
    push_cast
    constructor <;> linarith
  have hint : |roundHalfAway q - n| < 1 := by exact_mod_cast hnear
  rw [Int.abs_lt_one_iff] at hint
  omega

variable {value : F64} {scale : Nat} {units : Int}

/-- What a number on the grid is near to. -/
theorem toGrid_eq_some (h : toGrid value scale = some units) :
    ∃ q scaled, value.toRat? = some q ∧ roundToF64 (q * scale) = some scaled ∧
      |scaled - units| ≤ gridTolerance := by
  unfold toGrid at h
  cases hscaled : value.scaled scale with
  | none => simp [hscaled] at h
  | some scaled =>
      simp only [hscaled] at h
      split_ifs at h with hfar hrange
      cases h
      obtain ⟨q, hq, hround⟩ := Option.bind_eq_some_iff.1 hscaled
      refine ⟨q, scaled, hq, hround, ?_⟩
      have hclamp : clampI64 (roundHalfAway scaled) = roundHalfAway scaled := by
        unfold clampI64 i64Min i64Max maxGridUnits at *
        omega
      rw [hclamp]
      exact not_lt.1 hfar

theorem gridTolerance_lt : gridTolerance < 1 / 2 := by norm_num [gridTolerance]

theorem lt_gridTolerance : (1 : Rat) / 1000001 < gridTolerance := by norm_num [gridTolerance]

theorem cast_units (hunits : 0 < units ∧ units ≤ maxGridUnits) :
    (0 : Rat) < units ∧ (units : Rat) ≤ 1000000000 := by
  refine ⟨by exact_mod_cast hunits.1, ?_⟩
  have h := hunits.2
  rw [maxGridUnits] at h
  exact_mod_cast h

/-- A number on the grid has a text that is read back as a finite number. -/
theorem modest_of_toGrid (hscale : 1 ≤ scale) (h : toGrid value scale = some units) :
    Modest value := by
  obtain ⟨hpos, hmax⟩ := cast_units (toGrid_range h)
  obtain ⟨q, scaled, hq, hround, hnear⟩ := toGrid_eq_some h
  refine ⟨q, hq, ?_⟩
  have herror := roundToF64_error hround
  have hone : (1 : Rat) ≤ scale := by exact_mod_cast hscale
  have hle : |q| ≤ |q * scale| := by
    rw [abs_mul, abs_of_pos (zero_lt_one.trans_le hone)]
    exact le_mul_of_one_le_right (abs_nonneg q) hone
  have htol := gridTolerance_lt
  have hfirst : |q * scale| ≤ |scaled - q * scale| + |scaled| := by
    have := abs_sub_abs_le_abs_sub (q * scale) scaled
    rw [abs_sub_comm] at this
    linarith
  have hsecond : |scaled| ≤ |scaled - units| + units := by
    have := abs_sub_abs_le_abs_sub scaled (units : Rat)
    rw [abs_of_pos hpos] at this
    linarith
  linarith

theorem roundToF64_quotient (hscale : 1 ≤ scale) (hunits : 0 < units ∧ units ≤ maxGridUnits) :
    ∃ r, (F64.quotient units scale).toRat? = some r ∧
      |r - units / scale| ≤ units / scale / 9007199254740992 + 1 / 1152921504606846976 := by
  obtain ⟨hpos, hmax⟩ := cast_units hunits
  have hone : (1 : Rat) ≤ scale := by exact_mod_cast hscale
  have hquot : |(units : Rat) / scale| = units / scale :=
    abs_of_pos (div_pos hpos (zero_lt_one.trans_le hone))
  have hle : (units : Rat) / scale ≤ units := div_le_self hpos.le hone
  obtain ⟨r, hr⟩ := @roundToF64_isSome ((units : Rat) / scale) (by rw [hquot]; linarith)
  have herror := roundToF64_error hr
  rw [hquot] at herror
  exact ⟨r, by rw [F64.quotient, F64.toRat?_ofRat, hr], herror⟩

theorem modest_quotient (hscale : 1 ≤ scale) (hunits : 0 < units ∧ units ≤ maxGridUnits) :
    Modest (F64.quotient units scale) := by
  obtain ⟨r, hr, herror⟩ := roundToF64_quotient hscale hunits
  obtain ⟨hpos, hmax⟩ := cast_units hunits
  have hone : (1 : Rat) ≤ scale := by exact_mod_cast hscale
  have hle : (units : Rat) / scale ≤ units := div_le_self hpos.le hone
  have hquot : 0 < (units : Rat) / scale := div_pos hpos (zero_lt_one.trans_le hone)
  refine ⟨r, hr, ?_⟩
  have := abs_sub_abs_le_abs_sub r ((units : Rat) / scale)
  rw [abs_of_pos hquot] at this
  linarith

/-- The number made of whole units names those units. -/
theorem toGrid_quotient (hscale : 1 ≤ scale) (hsmall : scale ≤ 1000)
    (hunits : 0 < units ∧ units ≤ maxGridUnits) :
    toGrid (F64.quotient units scale) scale = some units := by
  obtain ⟨r, hr, herror⟩ := roundToF64_quotient hscale hunits
  obtain ⟨hpos, hmax⟩ := cast_units hunits
  have hone : (1 : Rat) ≤ scale := by exact_mod_cast hscale
  have hthousand : (scale : Rat) ≤ 1000 := by exact_mod_cast hsmall
  have hscalepos : (0 : Rat) < scale := zero_lt_one.trans_le hone
  -- The product is as near to the units as the quotient was to the number, times the scale.
  have hproduct : |r * scale - units| ≤ units / 9007199254740992 + 1000 / 1152921504606846976 := by
    have hsplit : r * scale - units = (r - units / scale) * scale := by
      rw [sub_mul, div_mul_cancel₀ _ hscalepos.ne']
    rw [hsplit, abs_mul, abs_of_pos hscalepos]
    calc |r - units / scale| * scale
        ≤ (units / scale / 9007199254740992 + 1 / 1152921504606846976) * scale :=
          mul_le_mul_of_nonneg_right herror hscalepos.le
      _ = units / 9007199254740992 + scale / 1152921504606846976 := by
          field_simp
      _ ≤ units / 9007199254740992 + 1000 / 1152921504606846976 := by gcongr
  have hsize : |r * scale| ≤ 2000000000 := by
    have := abs_sub_abs_le_abs_sub (r * scale) (units : Rat)
    rw [abs_of_pos hpos] at this
    linarith
  obtain ⟨scaled, hscaled⟩ := @roundToF64_isSome (r * scale) (by linarith)
  have hrounded := roundToF64_error hscaled
  have hnear : |scaled - units| ≤ 1 / 1000001 := by
    have := abs_sub_le scaled (r * scale) (units : Rat)
    linarith
  have htolerance := lt_gridTolerance
  have hround : roundHalfAway scaled = units :=
    roundHalfAway_eq (lt_of_le_of_lt hnear (by norm_num))
  have hclamp : clampI64 units = units := by
    obtain ⟨hlow, hhigh⟩ := hunits
    unfold clampI64 i64Min i64Max
    rw [maxGridUnits] at hhigh
    omega
  have hvalue : (F64.quotient units scale).scaled scale = some scaled := by
    rw [F64.scaled, hr]
    exact hscaled
  rw [toGrid, hvalue]
  dsimp only
  rw [hround, hclamp, if_neg (not_lt.2 (hnear.trans htolerance.le)), if_pos hunits]

end Inbox
end VerifiableExchange
