import VerifiableExchange.Matcher.ZeroSum

/-!
# ExactFill — a fill is booked exactly or not at all

`Position.afterFill` widens one product to 128 bits, divides it by the open quantity and takes one
difference unchecked; everything else it computes is checked. We run those three operations on the
machine's own types and compare the result with the totals over the integers.
-/

namespace VerifiableExchange
namespace Matcher

open Lib

/-! ## Operations the source does not check -/

/-- What stops a machine operation that is not checked. -/
inductive Trap where
  | overflow
  | divisionByZero
  deriving DecidableEq

/-- The value fits a signed 128-bit integer. -/
def InI128 (x : Int) : Prop := -2 ^ 127 ≤ x ∧ x < 2 ^ 127

instance (x : Int) : Decidable (InI128 x) := inferInstanceAs (Decidable (_ ∧ _))

def mulI128 (a b : Int) : Except Trap Int :=
  if InI128 (a * b) then .ok (a * b) else .error .overflow

/-- Division truncates toward zero. -/
def divI128 (a b : Int) : Except Trap Int :=
  if b = 0 then .error .divisionByZero
  else if InI128 (a.tdiv b) then .ok (a.tdiv b)
  else .error .overflow

def subI64 (a b : Int) : Except Trap Int :=
  if InI64 (a - b) then .ok (a - b) else .error .overflow

namespace Position

/-! ## One fill on the machine -/

/-- The basis a close takes with it: the product in 128 bits, then the division. -/
def closedBasisMachine (p : Position) (closed : Int) : Except Trap Int := do
  let product ← mulI128 p.costBasisMills closed
  divI128 product (p.netQtyTenths.natAbs : Int)

/-- The realized profit and the basis left after a close. -/
def bookClose (p : Position) (closed closedBasis priceCents : Int) : Option (Int × Int) := do
  let closedProceeds ← checkedMul closed priceCents
  let delta ← p.realizedDelta closedProceeds closedBasis
  let realized ← checkedAdd p.realizedMills delta
  let basis ← checkedSub p.costBasisMills closedBasis
  return (realized, basis)

def closingTotalsMachine (p : Position) (qtyTenths priceCents : Int) :
    Except Trap (Option (Int × Int)) :=
  match toI64 (min qtyTenths (p.netQtyTenths.natAbs : Int)) with
  | none => .ok none
  | some closed => do
      let share ← p.closedBasisMachine closed
      match (toI64 share).bind (fun closedBasis => p.bookClose closed closedBasis priceCents) with
      | none => return none
      | some (realized, basis) =>
          let flipped ← subI64 qtyTenths closed
          return (basisAfterClose basis flipped priceCents).map (fun basis => (basis, realized))

def totalsAfterMachine (p : Position) (signedQty notionalMills qtyTenths priceCents : Int) :
    Except Trap (Option (Int × Int)) :=
  if p.OpeningOrAdding signedQty then .ok (p.openingTotals notionalMills)
  else p.closingTotalsMachine qtyTenths priceCents

/-- The two sums one fill moves, with the fill's own deltas. -/
def movedSums (p : Position) (side : Side) (qtyTenths priceCents : Int) :
    Option (Int × Int × Int × Int) := do
  let notionalMills ← checkedMul qtyTenths priceCents
  let (signedQty, cashDelta) ← fillDeltas side qtyTenths notionalMills
  let net ← checkedAdd p.netQtyTenths signedQty
  let cash ← checkedAdd p.cashMills cashDelta
  return (notionalMills, signedQty, net, cash)

/-- `afterFill` on the machine, where an operation that is not checked may trap. -/
def afterFillMachine (p : Position) (side : Side) (qtyTenths priceCents : Int) :
    Except Trap (Option Position) :=
  match p.movedSums side qtyTenths priceCents with
  | none => .ok none
  | some (notionalMills, signedQty, net, cash) => do
      let totals ← p.totalsAfterMachine signedQty notionalMills qtyTenths priceCents
      return totals.map (fun totals => {
        netQtyTenths := net
        cashMills := cash
        costBasisMills := if net = 0 then 0 else totals.1
        realizedMills := totals.2 })

/-! ## One fill over the integers -/

/-- The quantity a fill on the other side closes. -/
def closedBy (p : Position) (qty : Int) : Int := min qty |p.netQtyTenths|

/-- The closed quantity's part of the basis, in whole mills. -/
def closedShare (p : Position) (qty : Int) : Int :=
  p.costBasisMills * p.closedBy qty / |p.netQtyTenths|

/-- The totals after a fill, whatever their size. A fill on the same side adds its cost. One on the
other side takes the closed part of the basis out and locks its profit in, and past zero the rest
opens at the fill price. -/
def exactFill (p : Position) (side : Side) (qty price : Int) : Position :=
  let moved := signedQty side qty
  if 0 ≤ p.netQtyTenths * moved then
    { netQtyTenths := p.netQtyTenths + moved
      cashMills := p.cashMills - moved * price
      costBasisMills := p.costBasisMills + qty * price
      realizedMills := p.realizedMills }
  else
    { netQtyTenths := p.netQtyTenths + moved
      cashMills := p.cashMills - moved * price
      costBasisMills :=
        if |p.netQtyTenths| < qty then (qty - |p.netQtyTenths|) * price
        else p.costBasisMills - p.closedShare qty
      realizedMills := p.realizedMills +
        p.netQtyTenths.sign * (p.closedBy qty * price - p.closedShare qty) }

instance (p : Position) : Decidable p.InRange :=
  decidable_of_iff (InI64 p.netQtyTenths ∧ InI64 p.cashMills ∧ InI64 p.costBasisMills ∧
      InI64 p.realizedMills)
    ⟨fun h => ⟨h.1, h.2.1, h.2.2.1, h.2.2.2⟩, fun h => ⟨h.net, h.cash, h.basis, h.realized⟩⟩

/-! ## What the engine admits -/

/-- A price or a quantity the grid has. -/
def Admitted (units : Int) : Prop := 0 < units ∧ units ≤ maxGridUnits

instance (units : Int) : Decidable (Admitted units) := inferInstanceAs (Decidable (_ ∧ _))

/-- A position that fills the engine books lead to. -/
inductive Booked : Position → Prop
  | opened : Booked default
  | filled {p p' : Position} {side : Side} {qty price : Int} (hp : Booked p) (hqty : 0 < qty)
      (hprice : 0 < price) (h : p.afterFill side qty price = some p') : Booked p'

theorem Booked.lawful {p : Position} (h : Booked p) : p.Lawful := by
  induction h with
  | opened => exact lawful_default
  | filled _ hqty hprice h ih => exact ih.afterFill hqty hprice h

theorem Booked.inRange {p : Position} (h : Booked p) : p.InRange := by
  induction h with
  | opened => exact inRange_default
  | filled _ _ _ h ih => exact ih.afterFill h

/-! ## The range of what a fill computes on the way -/

variable {p : Position} {side : Side} {qty price : Int}

theorem Admitted.inI64 {units : Int} (h : Admitted units) : InI64 units := by
  obtain ⟨hpos, hmax⟩ := h
  unfold maxGridUnits at hmax
  unfold InI64 i64Min i64Max
  omega

/-- What a quantity up to this one costs at an admitted price. -/
theorem Admitted.cost_range (hqty : Admitted qty) (hprice : Admitted price) {part : Int}
    (hpart : 0 ≤ part) (hle : part ≤ qty) :
    0 ≤ part * price ∧ part * price ≤ 1000000000000000000 := by
  obtain ⟨-, hmaxQty⟩ := hqty
  obtain ⟨hpos, hmaxPrice⟩ := hprice
  refine ⟨mul_nonneg hpart hpos.le, ?_⟩
  calc
    part * price ≤ maxGridUnits * maxGridUnits :=
      mul_le_mul (hle.trans hmaxQty) hmaxPrice hpos.le (by decide)
    _ = 1000000000000000000 := by decide

theorem Admitted.inI64_cost (hqty : Admitted qty) (hprice : Admitted price) {part : Int}
    (hpart : 0 ≤ part) (hle : part ≤ qty) : InI64 (part * price) ∧ InI64 (-(part * price)) := by
  obtain ⟨hlow, hhigh⟩ := hqty.cost_range hprice hpart hle
  unfold InI64 i64Min i64Max
  omega

theorem closedBy_range (hqty : Admitted qty) :
    0 ≤ p.closedBy qty ∧ p.closedBy qty ≤ qty ∧ p.closedBy qty ≤ |p.netQtyTenths| :=
  ⟨le_min hqty.1.le (abs_nonneg _), min_le_left _ _, min_le_right _ _⟩

theorem closedShare_range (hp : p.Lawful) (hnet : p.netQtyTenths ≠ 0) (hqty : Admitted qty) :
    (p.costBasisMills * p.closedBy qty).tdiv |p.netQtyTenths| = p.closedShare qty ∧
      0 ≤ p.closedShare qty ∧ p.closedShare qty ≤ p.costBasisMills := by
  obtain ⟨hlow, -, hle⟩ := @closedBy_range p qty hqty
  have hshare : (p.costBasisMills * p.closedBy qty).tdiv |p.netQtyTenths| = p.closedShare qty :=
    Int.tdiv_eq_ediv_of_nonneg (mul_nonneg hp.basis_nonneg hlow)
  obtain ⟨hnonneg, hbasis⟩ :=
    closedBasis_range hp.basis_nonneg hlow hle (abs_pos.2 hnet)
  rw [hshare] at hnonneg hbasis
  exact ⟨hshare, hnonneg, hbasis⟩

/-! ## The machine computes the totals -/

/-- The product fits 128 bits, and the open quantity it is divided by is not zero. -/
theorem closedBasisMachine_eq (hp : p.Lawful) (hr : p.InRange) (hnet : p.netQtyTenths ≠ 0)
    (hqty : Admitted qty) :
    p.closedBasisMachine (p.closedBy qty) = .ok (p.closedShare qty) := by
  obtain ⟨hlow, hle, -⟩ := @closedBy_range p qty hqty
  obtain ⟨hshare, hnonneg, hbasis⟩ := closedShare_range hp hnet hqty
  have hmax : p.costBasisMills ≤ i64Max := hr.basis.2
  have hproduct : InI128 (p.costBasisMills * p.closedBy qty) := by
    have hbound : p.costBasisMills * p.closedBy qty ≤ i64Max * maxGridUnits :=
      mul_le_mul hmax (hle.trans hqty.2) hlow (by decide)
    refine ⟨le_trans (by norm_num) (mul_nonneg hp.basis_nonneg hlow), hbound.trans_lt ?_⟩
    unfold i64Max maxGridUnits
    norm_num
  have hfits : InI128 (p.closedShare qty) := by
    unfold InI128
    unfold i64Max at hmax
    omega
  rw [closedBasisMachine, mulI128, if_pos hproduct, Int.natCast_natAbs]
  show divI128 _ _ = _
  rw [divI128, if_neg (abs_ne_zero.2 hnet), hshare, if_pos hfits]

/-- A close is refused where the realized profit leaves its range, and for nothing else. -/
theorem bookClose_eq (hp : p.Lawful) (hr : p.InRange) (hnet : p.netQtyTenths ≠ 0)
    (hqty : Admitted qty) (hprice : Admitted price) :
    p.bookClose (p.closedBy qty) (p.closedShare qty) price =
      (toI64 (p.realizedMills +
        p.netQtyTenths.sign * (p.closedBy qty * price - p.closedShare qty))).map
          (fun realized => (realized, p.costBasisMills - p.closedShare qty)) := by
  obtain ⟨hlow, hle, -⟩ := @closedBy_range p qty hqty
  obtain ⟨-, hnonneg, hbasis⟩ := closedShare_range hp hnet hqty
  obtain ⟨hproceeds, hproceedsMax⟩ := hqty.cost_range hprice hlow hle
  have hmax : p.costBasisMills ≤ i64Max := hr.basis.2
  have hcost : checkedMul (p.closedBy qty) price = some (p.closedBy qty * price) :=
    if_pos (hqty.inI64_cost hprice hlow hle).1
  have hdelta : p.realizedDelta (p.closedBy qty * price) (p.closedShare qty) =
      some (p.netQtyTenths.sign * (p.closedBy qty * price - p.closedShare qty)) := by
    unfold realizedDelta
    unfold i64Max at hmax
    rcases lt_or_gt_of_ne hnet with hshort | hlong
    · rw [if_neg (not_lt.2 hshort.le), Int.sign_eq_neg_one_of_neg hshort, neg_one_mul, neg_sub]
      refine if_pos ?_
      unfold InI64 i64Min i64Max
      omega
    · rw [if_pos hlong, Int.sign_eq_one_of_pos hlong, one_mul]
      refine if_pos ?_
      unfold InI64 i64Min i64Max
      omega
  have hleft : checkedSub p.costBasisMills (p.closedShare qty) =
      some (p.costBasisMills - p.closedShare qty) := by
    refine if_pos ?_
    unfold i64Max at hmax
    unfold InI64 i64Min i64Max
    omega
  rw [bookClose, hcost, Option.bind_eq_bind, Option.bind_some, hdelta, Option.bind_some, hleft,
    checkedAdd]
  cases toI64 (p.realizedMills +
    p.netQtyTenths.sign * (p.closedBy qty * price - p.closedShare qty)) <;> rfl

/-- The basis after a close fits, whether a part of the old one is left or the rest opens anew. -/
theorem basisAfterClose_eq (hqty : Admitted qty) (hprice : Admitted price) (basis : Int) :
    basisAfterClose basis (qty - p.closedBy qty) price =
      some (if |p.netQtyTenths| < qty then (qty - |p.netQtyTenths|) * price else basis) := by
  obtain ⟨hlow, hle, -⟩ := @closedBy_range p qty hqty
  unfold basisAfterClose
  by_cases hflip : |p.netQtyTenths| < qty
  · have hclosed : p.closedBy qty = |p.netQtyTenths| := min_eq_right hflip.le
    rw [hclosed] at hlow ⊢
    rw [if_pos (sub_pos.2 hflip), if_pos hflip]
    exact if_pos (hqty.inI64_cost hprice (by omega) (by omega)).1
  · have hclosed : p.closedBy qty = qty := min_eq_left (not_lt.1 hflip)
    rw [hclosed, sub_self, if_neg (lt_irrefl 0), if_neg hflip]

/-- A close traps nowhere, and its totals are those over the integers. -/
theorem closingTotalsMachine_eq (hp : p.Lawful) (hr : p.InRange) (hnet : p.netQtyTenths ≠ 0)
    (hqty : Admitted qty) (hprice : Admitted price) :
    p.closingTotalsMachine qty price = .ok ((toI64 (p.realizedMills +
        p.netQtyTenths.sign * (p.closedBy qty * price - p.closedShare qty))).map
          (fun realized => (if |p.netQtyTenths| < qty then (qty - |p.netQtyTenths|) * price
            else p.costBasisMills - p.closedShare qty, realized))) := by
  obtain ⟨hlow, hle, -⟩ := @closedBy_range p qty hqty
  obtain ⟨-, hnonneg, hbasis⟩ := closedShare_range hp hnet hqty
  have hmax := hqty.2
  have hclosed : toI64 (min qty (p.netQtyTenths.natAbs : Int)) = some (p.closedBy qty) := by
    rw [Int.natCast_natAbs]
    refine if_pos ?_
    unfold maxGridUnits at hmax
    show InI64 (p.closedBy qty)
    unfold InI64 i64Min i64Max
    omega
  have hshare : toI64 (p.closedShare qty) = some (p.closedShare qty) :=
    if_pos ⟨le_trans (by decide) hnonneg, hbasis.trans hr.basis.2⟩
  have hflipped : subI64 qty (p.closedBy qty) = .ok (qty - p.closedBy qty) := by
    refine if_pos ?_
    unfold maxGridUnits at hmax
    unfold InI64 i64Min i64Max
    omega
  have hbook := bookClose_eq hp hr hnet hqty hprice
  simp only [closingTotalsMachine, hclosed, closedBasisMachine_eq hp hr hnet hqty]
  cases hrealized : toI64 (p.realizedMills +
      p.netQtyTenths.sign * (p.closedBy qty * price - p.closedShare qty)) with
  | none =>
      rw [hrealized] at hbook
      simp only [bind, Except.bind, hshare, Option.bind_some, hbook]
      rfl
  | some realized =>
      rw [hrealized] at hbook
      simp only [bind, Except.bind, hshare, Option.bind_some, hbook, Option.map_some, hflipped,
        basisAfterClose_eq hqty hprice]
      rfl

/-- The sums a fill moves: only their new values can leave the range. -/
theorem movedSums_eq (hqty : Admitted qty) (hprice : Admitted price) :
    p.movedSums side qty price =
      if InI64 (p.netQtyTenths + signedQty side qty) ∧
          InI64 (p.cashMills - signedQty side qty * price) then
        some (qty * price, signedQty side qty, p.netQtyTenths + signedQty side qty,
          p.cashMills - signedQty side qty * price)
      else none := by
  obtain ⟨hcost, hnegCost⟩ := hqty.inI64_cost hprice hqty.1.le le_rfl
  have hnotional : checkedMul qty price = some (qty * price) := if_pos hcost
  have hdeltas : fillDeltas side qty (qty * price) =
      some (signedQty side qty, -(signedQty side qty * price)) := by
    cases side with
    | buy =>
        have hneg : checkedNeg (qty * price) = some (-(qty * price)) := if_pos hnegCost
        rw [fillDeltas, hneg]
        rfl
    | sell =>
        have hneg : checkedNeg qty = some (-qty) := by
          refine if_pos ?_
          have hfits := hqty.inI64
          unfold InI64 i64Min i64Max at hfits ⊢
          have hpos := hqty.1
          omega
        rw [fillDeltas, hneg, Option.map_some]
        simp only [signedQty, neg_mul, neg_neg]
  have hcashDelta : p.cashMills + -(signedQty side qty * price) =
      p.cashMills - signedQty side qty * price := (sub_eq_add_neg _ _).symm
  simp only [movedSums, hnotional, hdeltas, Option.bind_eq_bind, Option.bind_some, checkedAdd,
    hcashDelta, toI64]
  by_cases hnet : InI64 (p.netQtyTenths + signedQty side qty)
  · by_cases hcash : InI64 (p.cashMills - signedQty side qty * price)
    · rw [if_pos hnet, if_pos hcash, if_pos ⟨hnet, hcash⟩]
      rfl
    · rw [if_pos hnet, if_neg hcash, if_neg (fun h => hcash h.2)]
      rfl
  · have hneither : ¬(InI64 (p.netQtyTenths + signedQty side qty) ∧
        InI64 (p.cashMills - signedQty side qty * price)) := fun h => hnet h.1
    rw [if_neg hnet, if_neg hneither]
    rfl

/-- A fill takes on quantity exactly where it has the sign of what is open. -/
theorem openingOrAdding_iff {moved : Int} (hmoved : moved ≠ 0) :
    p.OpeningOrAdding moved ↔ 0 ≤ p.netQtyTenths * moved := by
  unfold OpeningOrAdding
  rcases lt_trichotomy p.netQtyTenths 0 with hshort | hflat | hlong
  · rcases lt_or_gt_of_ne hmoved with hneg | hpos
    · simp [hshort.ne, not_lt.2 hshort.le, not_lt.2 hneg.le, (mul_pos_of_neg_of_neg hshort hneg).le]
    · simp [hshort.ne, not_lt.2 hshort.le, hpos, hshort]
  · simp [hflat]
  · rcases lt_or_gt_of_ne hmoved with hneg | hpos
    · simp [hlong.ne', hlong, not_lt.2 hneg.le, hneg]
    · simp [hlong.ne', hlong, hpos, (mul_pos hlong hpos).le]

/-- The part of the totals a fill's branch computes, on the machine and over the integers. -/
theorem totalsAfterMachine_eq (hp : p.Lawful) (hr : p.InRange) (hqty : Admitted qty)
    (hprice : Admitted price) (net : Int) (hnet : net = p.netQtyTenths + signedQty side qty) :
    ∃ totals, p.totalsAfterMachine (signedQty side qty) (qty * price) qty price = .ok totals ∧
      totals.map (fun totals => (if net = 0 then 0 else totals.1, totals.2)) =
        if InI64 (p.exactFill side qty price).costBasisMills ∧
            InI64 (p.exactFill side qty price).realizedMills then
          some ((p.exactFill side qty price).costBasisMills,
            (p.exactFill side qty price).realizedMills)
        else none := by
  have hmoved : signedQty side qty ≠ 0 := by
    have hpos := hqty.1
    cases side <;> simp only [signedQty] <;> omega
  have hbasis := hp.basis_nonneg
  have hmax : p.costBasisMills ≤ i64Max := hr.basis.2
  unfold totalsAfterMachine exactFill
  dsimp only
  by_cases hsame : 0 ≤ p.netQtyTenths * signedQty side qty
  · -- Quantity taken on cannot end flat.
    have hopen : net ≠ 0 := by
      rintro rfl
      have hzero : p.netQtyTenths = -signedQty side qty := by omega
      rw [hzero, neg_mul] at hsame
      have hsquare := mul_self_pos.2 hmoved
      omega
    rw [if_pos ((openingOrAdding_iff hmoved).2 hsame), if_pos hsame]
    refine ⟨_, rfl, ?_⟩
    simp only [openingTotals, checkedAdd, toI64, hr.realized, and_true, if_neg hopen]
    split_ifs <;> rfl
  · rw [if_neg (fun h => hsame ((openingOrAdding_iff hmoved).1 h)), if_neg hsame]
    have hne : p.netQtyTenths ≠ 0 := by
      intro hzero
      rw [hzero, zero_mul] at hsame
      exact hsame le_rfl
    obtain ⟨-, hnonneg, hle⟩ := closedShare_range hp hne hqty
    refine ⟨_, closingTotalsMachine_eq hp hr hne hqty hprice, ?_⟩
    have hfits : InI64 (if |p.netQtyTenths| < qty then (qty - |p.netQtyTenths|) * price
        else p.costBasisMills - p.closedShare qty) := by
      split_ifs with hflip
      · exact (hqty.inI64_cost hprice (by omega) (sub_le_self _ (abs_nonneg _))).1
      · unfold i64Max at hmax
        unfold InI64 i64Min i64Max
        omega
    have hflat : net = 0 → (if |p.netQtyTenths| < qty then (qty - |p.netQtyTenths|) * price
        else p.costBasisMills - p.closedShare qty) = 0 := by
      rintro rfl
      -- A fill that ends flat closes all of it, and with it the whole basis.
      have hall : |p.netQtyTenths| = qty := by
        have hsize : p.netQtyTenths = -signedQty side qty := by omega
        rw [hsize, abs_neg]
        cases side with
        | buy => exact abs_of_pos hqty.1
        | sell => exact (abs_neg _).trans (abs_of_pos hqty.1)
      have hshare : p.closedShare qty = p.costBasisMills := by
        rw [closedShare, closedBy, hall, min_self]
        exact Int.mul_ediv_cancel _ hqty.1.ne'
      rw [if_neg (by omega), hshare, sub_self]
    simp only [hfits, true_and, toI64]
    by_cases hflatNow : net = 0
    · simp only [if_pos hflatNow, hflat hflatNow]
      split_ifs <;> rfl
    · simp only [if_neg hflatNow]
      split_ifs <;> rfl

/-- One fill traps nowhere. It is booked exactly where every total over the integers fits, with those
totals. -/
theorem afterFillMachine_eq (hp : p.Lawful) (hr : p.InRange) (side : Side) (hqty : Admitted qty)
    (hprice : Admitted price) :
    p.afterFillMachine side qty price =
      .ok (if (p.exactFill side qty price).InRange then some (p.exactFill side qty price)
        else none) := by
  obtain ⟨totals, hmachine, htotals⟩ := @totalsAfterMachine_eq _ side _ _ hp hr hqty hprice _ rfl
  have hnet : (p.exactFill side qty price).netQtyTenths = p.netQtyTenths + signedQty side qty := by
    unfold exactFill
    dsimp only
    split <;> rfl
  have hcash : (p.exactFill side qty price).cashMills =
      p.cashMills - signedQty side qty * price := by
    unfold exactFill
    dsimp only
    split <;> rfl
  unfold afterFillMachine
  rw [movedSums_eq hqty hprice, ← hnet, ← hcash]
  rw [← hnet] at htotals
  by_cases hsums : InI64 (p.exactFill side qty price).netQtyTenths ∧
      InI64 (p.exactFill side qty price).cashMills
  · rw [if_pos hsums]
    simp only [hmachine, bind, Except.bind]
    refine congrArg Except.ok ?_
    calc
      _ = (totals.map (fun totals =>
            (if (p.exactFill side qty price).netQtyTenths = 0 then 0 else totals.1, totals.2))).map
              (fun totals : Int × Int => (⟨(p.exactFill side qty price).netQtyTenths,
                (p.exactFill side qty price).cashMills, totals.1, totals.2⟩ : Position)) := by
        rw [Option.map_map]
        rfl
      _ = _ := by
        rw [htotals]
        by_cases hbooked : InI64 (p.exactFill side qty price).costBasisMills ∧
            InI64 (p.exactFill side qty price).realizedMills
        · rw [if_pos hbooked, if_pos ⟨hsums.1, hsums.2, hbooked.1, hbooked.2⟩]
          rfl
        · rw [if_neg hbooked, if_neg (fun h => hbooked ⟨h.basis, h.realized⟩)]
          rfl
  · have hout : ¬(p.exactFill side qty price).InRange := fun h => hsums ⟨h.net, h.cash⟩
    rw [if_neg hsums, if_neg hout]

/-- A close, with the part the machine books named. -/
theorem closingTotals_eq (p : Position) (qty price : Int) :
    p.closingTotals qty price =
      (toI64 (min qty (p.netQtyTenths.natAbs : Int))).bind (fun closed =>
        ((toI64 ((p.costBasisMills * closed).tdiv (p.netQtyTenths.natAbs : Int))).bind
          (fun closedBasis => p.bookClose closed closedBasis price)).bind (fun totals =>
            (basisAfterClose totals.2 (qty - closed) price).map (fun basis => (basis, totals.1)))) := by
  simp only [closingTotals, bookClose, Option.bind_eq_bind, Option.bind_assoc, Option.pure_def,
    Option.bind_some, Option.map_eq_bind, Function.comp_def]

/-- Where nothing traps, a close on the machine is the close. -/
theorem closingTotals_of_machine {next : Option (Int × Int)}
    (h : p.closingTotalsMachine qty price = .ok next) : p.closingTotals qty price = next := by
  unfold closingTotalsMachine at h
  rw [closingTotals_eq]
  cases hclosed : toI64 (min qty (p.netQtyTenths.natAbs : Int)) with
  | none =>
      rw [hclosed] at h
      cases h
      rfl
  | some closed =>
      rw [hclosed] at h
      obtain ⟨share, hshare, h⟩ := bind_eq_ok.1 h
      have hquotient : (p.costBasisMills * closed).tdiv (p.netQtyTenths.natAbs : Int) = share := by
        obtain ⟨product, hproduct, hdiv⟩ := bind_eq_ok.1 hshare
        unfold mulI128 at hproduct
        unfold divI128 at hdiv
        split_ifs at hproduct
        cases hproduct
        split_ifs at hdiv
        cases hdiv
        rfl
      rw [Option.bind_some, hquotient]
      cases hbook : (toI64 share).bind (fun closedBasis => p.bookClose closed closedBasis price) with
      | none =>
          rw [hbook] at h
          cases h
          rfl
      | some totals =>
          rw [hbook] at h
          obtain ⟨flipped, hflipped, h⟩ := bind_eq_ok.1 h
          unfold subI64 at hflipped
          split_ifs at hflipped
          cases hflipped
          cases h
          rfl

/-- One fill, with the sums it moves named. -/
theorem afterFill_eq (p : Position) (side : Side) (qty price : Int) :
    p.afterFill side qty price =
      (p.movedSums side qty price).bind (fun (notional, moved, net, cash) =>
        (p.totalsAfter moved notional qty price).map (fun totals => {
          netQtyTenths := net
          cashMills := cash
          costBasisMills := if net = 0 then 0 else totals.1
          realizedMills := totals.2 })) := by
  simp only [afterFill, movedSums, Option.bind_eq_bind, Option.bind_assoc, Option.pure_def,
    Option.bind_some, Option.map_eq_bind, Function.comp_def]

/-- Where nothing traps, the machine answers what `afterFill` does. -/
theorem afterFill_of_machine {next : Option Position}
    (h : p.afterFillMachine side qty price = .ok next) : p.afterFill side qty price = next := by
  unfold afterFillMachine at h
  rw [afterFill_eq]
  cases hsums : p.movedSums side qty price with
  | none =>
      rw [hsums] at h
      cases h
      rfl
  | some sums =>
      obtain ⟨notional, moved, net, cash⟩ := sums
      rw [hsums] at h
      obtain ⟨totals, htotals, h⟩ := bind_eq_ok.1 h
      cases h
      have hbranch : p.totalsAfter moved notional qty price = totals := by
        unfold totalsAfterMachine at htotals
        unfold totalsAfter
        split_ifs at htotals ⊢
        · cases htotals
          rfl
        · exact closingTotals_of_machine htotals
      rw [Option.bind_some]
      dsimp only
      rw [hbranch]

end Position

/-! ## Every position a run holds -/

theorem keptByFills_booked :
    KeptByFills (fun positions => ∀ key p, positions.get? key = some p → p.Booked) := by
  intro order fill positions next hqty hprice hnext h
  obtain ⟨makerNext, takerNext⟩ := next
  have hheld : ∀ key, (positions.getD key .default).Booked := by
    intro key
    unfold SortedMap.getD
    cases hget : positions.get? key with
    | none => exact .opened
    | some p => exact h key p hget
  obtain ⟨hmaker, htaker⟩ := Position.afterBothFills_eq_some hnext
  have hmakerBooked : makerNext.Booked := .filled (hheld _) hqty hprice hmaker
  have htakerBooked : takerNext.Booked := by
    refine .filled ?_ hqty hprice htaker
    split_ifs
    · exact hmakerBooked
    · exact hheld _
  intro key p hget
  rcases get?_positionsAfter hget with rfl | rfl | hget
  · exact hmakerBooked
  · exact htakerBooked
  · exact h key p hget

namespace MatcherState

/-- Every position of a run is one that booked fills lead to. From any such position, a fill at an
admitted price and quantity traps nowhere: it is booked with the totals over the integers, and it is
refused exactly where one of them leaves its type. -/
theorem fills_are_exact :
    (∀ env s, Reachable env s → ∀ key p, s.positions.get? key = some p → p.Booked) ∧
      ∀ p : Position, p.Booked → ∀ (side : Side) (qty price : Int), Position.Admitted qty →
        Position.Admitted price →
        p.afterFillMachine side qty price = .ok (p.afterFill side qty price) ∧
          (p.afterFill side qty price = none ↔ ¬(p.exactFill side qty price).InRange) ∧
          ∀ next, p.afterFill side qty price = some next → next = p.exactFill side qty price := by
  refine ⟨fun env s hs => hs.positions keptByFills_booked (by simp), ?_⟩
  intro p hp side qty price hqty hprice
  have hmachine := Position.afterFillMachine_eq hp.lawful hp.inRange side hqty hprice
  have hafter := Position.afterFill_of_machine hmachine
  refine ⟨by rw [hmachine, hafter], ?_, ?_⟩
  · rw [hafter]
    simp
  · intro next hnext
    rw [hafter] at hnext
    split_ifs at hnext
    exact (Option.some.inj hnext).symm

/-- Three tenths bought at four cents, one of them sold at five. -/
theorem fills_are_exact_sample :
    (⟨3, -12, 12, 0⟩ : Position).Booked ∧
      (⟨3, -12, 12, 0⟩ : Position).afterFillMachine .sell 1 5 = .ok (some ⟨2, -7, 8, 1⟩) := by
  have hbought : Position.default.afterFill .buy 3 4 = some ⟨3, -12, 12, 0⟩ := by decide
  have hp : (⟨3, -12, 12, 0⟩ : Position).Booked :=
    .filled .opened (by decide) (by decide) hbought
  have hsold : (⟨3, -12, 12, 0⟩ : Position).afterFill .sell 1 5 = some ⟨2, -7, 8, 1⟩ := by decide
  refine ⟨hp, ?_⟩
  rw [(fills_are_exact.2 _ hp .sell 1 5 (by decide) (by decide)).1, hsold]

end MatcherState

end Matcher
end VerifiableExchange
