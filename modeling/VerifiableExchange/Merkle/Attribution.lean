import VerifiableExchange.Merkle.Compare

/-!
# Attribution — which leaf a served node belongs to

The place of a served node is the log's own choice. The leaf it belongs to is worked out in 128 bits:
a release build masks the shift and wraps, a debug build stops at a shift by the width and at a
subtraction below zero, and neither notices the bits a shift loses. We compare both with the leaf
over the integers.
-/

namespace VerifiableExchange
namespace Merkle

open Lib

/-! ## A debug build -/

/-- What stops a debug build. -/
inductive ArithmeticPanic where
  | shiftOverflow
  | subtractOverflow
  deriving DecidableEq

/-- `lastLeafUnder` in a debug build. The bits a shift loses are not checked. -/
def lastLeafUnderChecked (level index : Nat) : Except ArithmeticPanic Nat :=
  if 128 ≤ level then .error .shiftOverflow
  else
    let filled := (index + 1) <<< level % 2 ^ 128
    if filled = 0 then .error .subtractOverflow else .ok (filled - 1)

def coveredChecked (start stop : Nat) (place : Nat ×ₗ Nat) : Except ArithmeticPanic Bool := do
  let leaf ← lastLeafUnderChecked (ofLex place).1 (ofLex place).2
  return decide (start ≤ leaf ∧ leaf < stop)

/-- `compareNodes` in a debug build. -/
def compareNodesChecked (ours stored : NodeMap) (start stop : Nat) :
    Except ArithmeticPanic (List String) := do
  let altered ← ours.entries.mapM (fun node => do
    let covered ← coveredChecked start stop node.1
    return if covered then faultAt stored node.1 node.2 else none)
  let extra ← stored.entries.mapM (fun node => do
    let covered ← coveredChecked start stop node.1
    return if covered && !ours.contains node.1 then
        some (extraNode (ofLex node.1).1 (ofLex node.1).2)
      else none)
  return altered.reduceOption ++ extra.reduceOption

/-! ## Over the integers -/

/-- The last leaf under a place. -/
def leafOf (place : Nat ×ₗ Nat) : Nat := ((ofLex place).2 + 1) * 2 ^ (ofLex place).1 - 1

/-- The range of leaves holds the last leaf under this place. -/
def Belongs (start stop : Nat) (place : Nat ×ₗ Nat) : Prop :=
  start ≤ leafOf place ∧ leafOf place < stop

instance (start stop : Nat) (place : Nat ×ₗ Nat) : Decidable (Belongs start stop place) :=
  inferInstanceAs (Decidable (_ ∧ _))

/-- The faults of a range, each node attributed to the leaf it belongs to. -/
def faultsOf (ours stored : NodeMap) (start stop : Nat) : List String :=
  ours.entries.filterMap (fun node =>
      if Belongs start stop node.1 then faultAt stored node.1 node.2 else none) ++
    stored.entries.filterMap (fun node =>
      if Belongs start stop node.1 ∧ ours.contains node.1 = false then
        some (extraNode (ofLex node.1).1 (ofLex node.1).2)
      else none)

/-- The leaves under the place end within 128 bits. -/
def Fits (place : Nat ×ₗ Nat) : Prop := ((ofLex place).2 + 1) * 2 ^ (ofLex place).1 < 2 ^ 128

instance (place : Nat ×ₗ Nat) : Decidable (Fits place) := inferInstanceAs (Decidable (_ < _))

/-- The place is attributed as over the integers, in either build and for every range, and the shift
loses no bit. -/
structure Attributed (place : Nat ×ₗ Nat) : Prop where
  released : ∀ start stop, Covered start stop place ↔ Belongs start stop place
  checked : ∀ start stop,
    coveredChecked start stop place = .ok (decide (Belongs start stop place))
  whole : ((ofLex place).2 + 1) <<< ((ofLex place).1 % 128) % 2 ^ 128 =
    ((ofLex place).2 + 1) * 2 ^ (ofLex place).1

/-! ## The places that fit -/

theorem filled_pos (level index : Nat) : 0 < (index + 1) * 2 ^ level :=
  Nat.mul_pos (Nat.succ_pos index) (Nat.two_pow_pos level)

theorem Fits.level_lt {place : Nat ×ₗ Nat} (h : Fits place) : (ofLex place).1 < 128 := by
  by_contra hlevel
  have hpow : 2 ^ 128 ≤ 2 ^ (ofLex place).1 :=
    Nat.pow_le_pow_right (by omega) (not_lt.1 hlevel)
  have hle : 2 ^ (ofLex place).1 ≤ ((ofLex place).2 + 1) * 2 ^ (ofLex place).1 :=
    Nat.le_mul_of_pos_left _ (Nat.succ_pos _)
  exact absurd h (not_lt.2 (hpow.trans hle))

/-- Where the leaves end within 128 bits, the shift is the product. -/
theorem Fits.shift_eq {place : Nat ×ₗ Nat} (h : Fits place) :
    ((ofLex place).2 + 1) <<< (ofLex place).1 % 2 ^ 128 =
      ((ofLex place).2 + 1) * 2 ^ (ofLex place).1 := by
  rw [Nat.shiftLeft_eq]
  exact Nat.mod_eq_of_lt h

theorem Fits.lastLeafUnder_eq {place : Nat ×ₗ Nat} (h : Fits place) :
    lastLeafUnder (ofLex place).1 (ofLex place).2 = leafOf place := by
  have hpos := filled_pos (ofLex place).1 (ofLex place).2
  have hlt := h
  unfold Fits at hlt
  rw [lastLeafUnder, Nat.mod_eq_of_lt h.level_lt, h.shift_eq, leafOf]
  generalize ((ofLex place).2 + 1) * 2 ^ (ofLex place).1 = filled at *
  omega

theorem Fits.lastLeafUnderChecked_eq {place : Nat ×ₗ Nat} (h : Fits place) :
    lastLeafUnderChecked (ofLex place).1 (ofLex place).2 = .ok (leafOf place) := by
  rw [lastLeafUnderChecked, if_neg (not_le.2 h.level_lt), h.shift_eq]
  exact if_neg (filled_pos _ _).ne'

theorem Fits.coveredChecked_eq {place : Nat ×ₗ Nat} (h : Fits place) (start stop : Nat) :
    coveredChecked start stop place = .ok (decide (Belongs start stop place)) := by
  unfold coveredChecked
  rw [h.lastLeafUnderChecked_eq]
  rfl

/-- A place is attributed right exactly where it fits. -/
theorem attributed_iff (place : Nat ×ₗ Nat) : Attributed place ↔ Fits place := by
  constructor
  · intro h
    unfold Fits
    rw [← h.whole]
    exact Nat.mod_lt _ (Nat.two_pow_pos 128)
  · intro h
    refine ⟨fun start stop => ?_, h.coveredChecked_eq, ?_⟩
    · rw [Covered, h.lastLeafUnder_eq]
      rfl
    · rw [Nat.mod_eq_of_lt h.level_lt]
      exact h.shift_eq

/-- A place a range of 64-bit leaves holds fits. -/
theorem Belongs.fits {start stop : Nat} {place : Nat ×ₗ Nat} (h : Belongs start stop place)
    (hstop : stop ≤ u64Max) : Fits place := by
  have hpos := filled_pos (ofLex place).1 (ofLex place).2
  have hlt := h.2
  unfold leafOf at hlt
  unfold u64Max at hstop
  unfold Fits
  generalize ((ofLex place).2 + 1) * 2 ^ (ofLex place).1 = filled at *
  omega

/-! ## What an answer depends on -/

/-- A debug build attributes a place right, though its shift may lose bits, exactly where the shift is
below the width and leaves a bit. -/
theorem checked_right_iff {place : Nat ×ₗ Nat} (hindex : (ofLex place).2 ≤ u64Max) :
    (∀ start stop, stop ≤ u64Max →
        coveredChecked start stop place = .ok (decide (Belongs start stop place))) ↔
      (ofLex place).1 < 128 ∧ ¬2 ^ 128 ∣ ((ofLex place).2 + 1) * 2 ^ (ofLex place).1 := by
  constructor
  · intro h
    have hone := h 0 0 (Nat.zero_le _)
    unfold coveredChecked lastLeafUnderChecked at hone
    constructor
    · by_contra hlevel
      rw [if_pos (not_lt.1 hlevel)] at hone
      cases hone
    · intro hdvd
      rw [Nat.shiftLeft_eq, Nat.mod_eq_zero_of_dvd hdvd] at hone
      split_ifs at hone <;> cases hone
  · rintro ⟨hlevel, hdvd⟩ start stop hstop
    by_cases hfits : Fits place
    · exact hfits.coveredChecked_eq start stop
    · -- What is left of the shift ends past every 64-bit leaf, as the leaves do.
      have hbelongs : ¬Belongs start stop place := fun h => hfits (h.fits hstop)
      have hrest : 2 ^ 64 ≤ ((ofLex place).2 + 1) * 2 ^ (ofLex place).1 % 2 ^ 128 := by
        have hdeep : 64 ≤ (ofLex place).1 := by
          by_contra hshallow
          refine hfits ?_
          have hpow : 2 ^ (ofLex place).1 ≤ 2 ^ 63 := Nat.pow_le_pow_right (by omega) (by omega)
          have hmul : ((ofLex place).2 + 1) * 2 ^ (ofLex place).1 ≤ 2 ^ 64 * 2 ^ 63 :=
            Nat.mul_le_mul (by unfold u64Max at hindex; omega) hpow
          exact hmul.trans_lt (by norm_num)
        have hmultiple : 2 ^ 64 ∣ ((ofLex place).2 + 1) * 2 ^ (ofLex place).1 :=
          (pow_dvd_pow 2 hdeep).mul_left _
        refine Nat.le_of_dvd (Nat.pos_of_ne_zero (fun h => hdvd (Nat.dvd_of_mod_eq_zero h))) ?_
        exact (Nat.dvd_mod_iff (pow_dvd_pow 2 (by omega))).2 hmultiple
      unfold coveredChecked lastLeafUnderChecked
      rw [if_neg (not_le.2 hlevel), Nat.shiftLeft_eq]
      generalize ((ofLex place).2 + 1) * 2 ^ (ofLex place).1 % 2 ^ 128 = rest at *
      unfold u64Max at hstop
      rw [decide_eq_false hbelongs, if_neg (by omega)]
      refine congrArg Except.ok (decide_eq_false ?_)
      omega

/-! ## A whole comparison -/

/-- What one node adds in a debug build, where its place fits. -/
theorem Fits.step_eq {place : Nat ×ₗ Nat} (h : Fits place) (start stop : Nat)
    (fault : Bool → Option String) :
    (do
        let covered ← coveredChecked start stop place
        return fault covered : Except ArithmeticPanic (Option String)) =
      .ok (fault (decide (Belongs start stop place))) := by
  rw [h.coveredChecked_eq]
  rfl

/-- Where every place of either side fits, both builds report the faults of the range. -/
theorem compareNodes_eq_faultsOf {ours stored : NodeMap} (start stop : Nat)
    (hours : ∀ node ∈ ours.entries, Fits node.1) (hstored : ∀ node ∈ stored.entries, Fits node.1) :
    compareNodes ours stored start stop = faultsOf ours stored start stop ∧
      compareNodesChecked ours stored start stop = .ok (faultsOf ours stored start stop) := by
  constructor
  · unfold compareNodes faultsOf
    refine congrArg₂ (· ++ ·) ?_ ?_
    · refine List.filterMap_congr (fun node hnode => if_congr ?_ rfl rfl)
      exact ((attributed_iff node.1).2 (hours node hnode)).released start stop
    · refine List.filterMap_congr (fun node hnode => if_congr ?_ rfl rfl)
      exact and_congr_left' (((attributed_iff node.1).2 (hstored node hnode)).released start stop)
  · unfold compareNodesChecked faultsOf
    rw [mapM_ok_of_forall (fun node hnode => (hours node hnode).step_eq start stop
        (fun covered => if covered then faultAt stored node.1 node.2 else none)),
      mapM_ok_of_forall (fun node hnode => (hstored node hnode).step_eq start stop
        (fun covered => if covered && !ours.contains node.1 then
            some (extraNode (ofLex node.1).1 (ofLex node.1).2)
          else none))]
    simp only [bind, Except.bind, pure, Except.pure, Except.ok.injEq]
    refine congrArg₂ (· ++ ·) ?_ ?_
    · rw [List.reduceOption, List.filterMap_map]
      refine List.filterMap_congr (fun node _ => if_congr ?_ rfl rfl)
      exact decide_eq_true_iff
    · rw [List.reduceOption, List.filterMap_map]
      refine List.filterMap_congr (fun node _ => if_congr ?_ rfl rfl)
      rw [Bool.and_eq_true, decide_eq_true_iff, Bool.not_eq_true']

/-- No place hides an extra node from the range its leaves end in. -/
theorem extraNode_reported {ours stored : NodeMap} {start stop : Nat} {place : Nat ×ₗ Nat}
    {hash : Hash} (hstop : stop ≤ u64Max) (hbelongs : Belongs start stop place)
    (hours : ours.get? place = none) (hstored : stored.get? place = some hash) :
    extraNode (ofLex place).1 (ofLex place).2 ∈ compareNodes ours stored start stop := by
  have hcovered : Covered start stop place :=
    (((attributed_iff place).2 (hbelongs.fits hstop)).released start stop).2 hbelongs
  have hcontains : ours.contains place = false := by
    rw [SortedMap.contains, hours]
    rfl
  refine List.mem_append_right _ (List.mem_filterMap.2 ⟨(place, hash), ?_, ?_⟩)
  · exact SortedMap.mem_entries.2 hstored
  · exact if_pos ⟨hcovered, hcontains⟩

/-- A node is attributed as over the integers exactly where the leaves under it end within 128 bits.
A page of such nodes is compared right by either build, and no place hides an extra node. -/
theorem node_attribution (level index : Nat) (ours stored : NodeMap) (start stop : Nat) :
    (Attributed (toLex (level, index)) ↔ (index + 1) * 2 ^ level < 2 ^ 128) ∧
      (stop ≤ u64Max →
        ((∀ node ∈ ours.entries, Fits node.1) → (∀ node ∈ stored.entries, Fits node.1) →
          compareNodes ours stored start stop = faultsOf ours stored start stop ∧
            compareNodesChecked ours stored start stop =
              .ok (faultsOf ours stored start stop)) ∧
        ∀ place hash, Belongs start stop place → ours.get? place = none →
          stored.get? place = some hash →
          extraNode (ofLex place).1 (ofLex place).2 ∈ compareNodes ours stored start stop) := by
  refine ⟨attributed_iff _, fun hstop => ⟨?_, ?_⟩⟩
  · exact compareNodes_eq_faultsOf start stop
  · intro place hash hbelongs hours hstored
    exact extraNode_reported hstop hbelongs hours hstored

namespace Sample

def nodeHash : Hash := Vector.replicate 32 0

/-- A log that serves one node. -/
def servedAlone (level index : Nat) : NodeMap := SortedMap.empty.insert (toLex (level, index)) nodeHash

end Sample

/-- A node one level up, over the first two leaves, that the entries do not make. -/
theorem node_attribution_sample :
    Attributed (toLex (1, 0)) ∧
      extraNode 1 0 ∈ compareNodes .empty (Sample.servedAlone 1 0) 0 2 := by
  obtain ⟨hattributed, hcompared⟩ := node_attribution 1 0 .empty (Sample.servedAlone 1 0) 0 2
  exact ⟨hattributed.2 (by norm_num),
    (hcompared (by decide)).2 (toLex (1, 0)) Sample.nodeHash (by decide) rfl rfl⟩

/-- A node at level 128 stops a debug build, and a release build counts it to the first leaf. One at
level 127 whose shift leaves no bit stops a debug build too. -/
theorem level_128_misattributed :
    ¬Attributed (toLex (128, 0)) ∧ ¬Belongs 0 1 (toLex (128, 0)) ∧
      compareNodesChecked .empty (Sample.servedAlone 128 0) 0 1 = .error .shiftOverflow ∧
      compareNodes .empty (Sample.servedAlone 128 0) 0 1 = [extraNode 128 0] ∧
      compareNodesChecked .empty (Sample.servedAlone 127 1) 0 1 = .error .subtractOverflow := by
  have hbelongs : ¬Belongs 0 1 (toLex (128, 0)) := by decide
  have hfits : ¬Fits (toLex (128, 0)) := by decide
  exact ⟨fun h => hfits ((attributed_iff _).1 h), hbelongs, by decide +kernel, by decide +kernel,
    by decide +kernel⟩

end Merkle
end VerifiableExchange
