import VerifiableExchange.Domain

/-!
# Position — one account's holding in one symbol

`Position.afterFill` books one fill with checked 64-bit arithmetic. We also state the accounting
law every position keeps, `Position.Lawful`, and show that one fill keeps it.
-/

namespace VerifiableExchange
namespace Matcher

open Lib

/-- One account's holding in one symbol. -/
structure Position where
  /-- Positive means the account bought more than it sold. -/
  netQtyTenths : Int
  /-- Cash taken in, less cash paid out. -/
  cashMills : Int
  /-- What the open quantity cost to take on, whichever side it is on. -/
  costBasisMills : Int
  /-- Profit already locked in by closing quantity. -/
  realizedMills : Int
  deriving DecidableEq

namespace Position

def default : Position := ⟨0, 0, 0, 0⟩

/-- The cost basis and the realized profit after a fill that takes on quantity. -/
def openingTotals (p : Position) (notionalMills : Int) : Option (Int × Int) := do
  let basis ← checkedAdd p.costBasisMills notionalMills
  return (basis, p.realizedMills)

/-- The profit a closing fill books: proceeds less cost for a long position, the reverse for a
short one. -/
def realizedDelta (p : Position) (closedProceeds closedBasis : Int) : Option Int :=
  if 0 < p.netQtyTenths then checkedSub closedProceeds closedBasis
  else checkedSub closedBasis closedProceeds

/-- The basis after a close: what is left of the old one, or that of the quantity past zero. -/
def basisAfterClose (basis flipped priceCents : Int) : Option Int :=
  if 0 < flipped then checkedMul flipped priceCents else some basis

/-- The cost basis and the realized profit after a fill that closes quantity, and turns the
position to the other side with any quantity beyond that. -/
def closingTotals (p : Position) (qtyTenths priceCents : Int) : Option (Int × Int) := do
  let openAbs := (p.netQtyTenths.natAbs : Int)
  let closed ← toI64 (min qtyTenths openAbs)
  let closedBasis ← toI64 ((p.costBasisMills * closed).tdiv openAbs)
  let closedProceeds ← checkedMul closed priceCents
  let delta ← p.realizedDelta closedProceeds closedBasis
  let realized ← checkedAdd p.realizedMills delta
  let basis ← checkedSub p.costBasisMills closedBasis
  let basis ← basisAfterClose basis (qtyTenths - closed) priceCents
  return (basis, realized)

/-- Whether a fill of this signed quantity takes on quantity rather than closing any. -/
def OpeningOrAdding (p : Position) (signedQty : Int) : Prop :=
  p.netQtyTenths = 0 ∨ (decide (0 < p.netQtyTenths) = decide (0 < signedQty))

instance (p : Position) (signedQty : Int) : Decidable (p.OpeningOrAdding signedQty) :=
  inferInstanceAs (Decidable (_ ∨ _))

def totalsAfter (p : Position) (signedQty notionalMills qtyTenths priceCents : Int) :
    Option (Int × Int) :=
  if p.OpeningOrAdding signedQty then p.openingTotals notionalMills
  else p.closingTotals qtyTenths priceCents

/-- The signed quantity and the cash one fill moves. -/
def fillDeltas (side : Side) (qtyTenths notionalMills : Int) : Option (Int × Int) :=
  match side with
  | .buy => (checkedNeg notionalMills).map (fun cash => (qtyTenths, cash))
  | .sell => (checkedNeg qtyTenths).map (fun qty => (qty, notionalMills))

/-- What this position becomes after one fill; `none` when any total would leave its range. -/
def afterFill (p : Position) (side : Side) (qtyTenths priceCents : Int) : Option Position := do
  let notionalMills ← checkedMul qtyTenths priceCents
  let (signedQty, cashDelta) ← fillDeltas side qtyTenths notionalMills
  let net ← checkedAdd p.netQtyTenths signedQty
  let cash ← checkedAdd p.cashMills cashDelta
  let (basis, realized) ← p.totalsAfter signedQty notionalMills qtyTenths priceCents
  return {
    netQtyTenths := net
    cashMills := cash
    costBasisMills := if net = 0 then 0 else basis
    realizedMills := realized }

/-- Booked exactly as the two legs of a fill are: the maker first, then the taker, where an
account that is both takes the second fill on the result of the first. -/
def afterBothFills (maker taker : Position) (same : Bool) (takerSide : Side)
    (qtyTenths priceCents : Int) : Option (Position × Position) := do
  let makerNext ← maker.afterFill takerSide.opposite qtyTenths priceCents
  let takerNext ← (if same then makerNext else taker).afterFill takerSide qtyTenths priceCents
  return (makerNext, takerNext)

/-- The profit the open quantity would book if it closed at a price, before the 64-bit edge. -/
def openProfit (p : Position) (atCents : Int) : Int :=
  p.netQtyTenths * atCents - (if 0 ≤ p.netQtyTenths then p.costBasisMills else -p.costBasisMills)

def unrealizedMills (p : Position) (atCents : Int) : Int := clampI64 (p.openProfit atCents)

/-! ## The accounting law -/

/-- The cost basis with the sign of the open quantity. -/
def signedBasis (p : Position) : Int := p.netQtyTenths.sign * p.costBasisMills

/-- The law every position keeps. -/
structure Lawful (p : Position) : Prop where
  basis_nonneg : 0 ≤ p.costBasisMills
  basis_of_flat : p.netQtyTenths = 0 → p.costBasisMills = 0
  realized_eq : p.realizedMills = p.cashMills + p.signedBasis

theorem lawful_default : Lawful default where
  basis_nonneg := by simp [default]
  basis_of_flat := by simp [default]
  realized_eq := by simp [default, signedBasis]

/-- At any mark, the whole profit of a lawful position is its cash and the value of what is open. -/
theorem Lawful.profit_eq {p : Position} (h : p.Lawful) (atCents : Int) :
    p.realizedMills + p.openProfit atCents = p.cashMills + p.netQtyTenths * atCents := by
  have hr := h.realized_eq
  unfold signedBasis at hr
  unfold openProfit
  rcases lt_trichotomy p.netQtyTenths 0 with hneg | hzero | hpos
  · rw [Int.sign_eq_neg_one_of_neg hneg] at hr
    rw [if_neg (not_le.2 hneg), hr]
    ring
  · have hbasis := h.basis_of_flat hzero
    simp [hr, hzero, hbasis]
  · rw [Int.sign_eq_one_of_pos hpos] at hr
    rw [if_pos hpos.le, hr]
    ring

/-- The signed quantity of a fill of this side. -/
def signedQty (side : Side) (qtyTenths : Int) : Int :=
  match side with
  | .buy => qtyTenths
  | .sell => -qtyTenths

@[simp] theorem signedQty_opposite (side : Side) (qty : Int) :
    signedQty side.opposite qty = -signedQty side qty := by
  cases side <;> simp [signedQty, Side.opposite]

theorem fillDeltas_eq {side : Side} {qty notional dq dc : Int}
    (h : fillDeltas side qty notional = some (dq, dc)) :
    dq = signedQty side qty ∧ dc = -signedQty side notional := by
  cases side with
  | buy =>
      simp only [fillDeltas, Option.map_eq_some_iff, checkedNeg_eq_some] at h
      obtain ⟨a, ⟨_, rfl⟩, hpair⟩ := h
      cases hpair
      simp [signedQty]
  | sell =>
      simp only [fillDeltas, Option.map_eq_some_iff, checkedNeg_eq_some] at h
      obtain ⟨a, ⟨_, rfl⟩, hpair⟩ := h
      cases hpair
      simp [signedQty]

/-- What a booked fill did: the two sums moved by the fill, and the basis and the realized profit
came from the opening or the closing branch. -/
theorem afterFill_eq_some {p p' : Position} {side : Side} {qty price : Int}
    (h : p.afterFill side qty price = some p') :
    p'.netQtyTenths = p.netQtyTenths + signedQty side qty ∧
      p'.cashMills = p.cashMills - signedQty side (qty * price) ∧
      ∃ basis,
        p'.costBasisMills = (if p'.netQtyTenths = 0 then 0 else basis) ∧
        p.totalsAfter (signedQty side qty) (qty * price) qty price =
          some (basis, p'.realizedMills) := by
  simp only [afterFill, Option.bind_eq_bind, Option.bind_eq_some_iff, checkedMul_eq_some,
    checkedAdd_eq_some, Option.pure_def, Option.some.injEq, Prod.exists] at h
  obtain ⟨notional, ⟨_, rfl⟩, dq, dc, hdeltas, net, ⟨_, rfl⟩, cash, ⟨_, rfl⟩,
    basis, realized, hbranch, rfl⟩ := h
  obtain ⟨rfl, rfl⟩ := fillDeltas_eq hdeltas
  exact ⟨rfl, by ring, basis, rfl, hbranch⟩

theorem openingTotals_eq_some {p : Position} {notional basis realized : Int}
    (h : p.openingTotals notional = some (basis, realized)) :
    basis = p.costBasisMills + notional ∧ realized = p.realizedMills := by
  simp only [openingTotals, Option.bind_eq_bind, Option.bind_eq_some_iff, checkedAdd_eq_some,
    Option.pure_def, Option.some.injEq, Prod.mk.injEq] at h
  obtain ⟨b, ⟨_, rfl⟩, rfl, rfl⟩ := h
  exact ⟨rfl, rfl⟩

/-- What the closing branch computed. -/
theorem closingTotals_eq_some {p : Position} {qty price basis realized : Int}
    (h : p.closingTotals qty price = some (basis, realized)) :
    let openAbs := (p.netQtyTenths.natAbs : Int)
    let closed := min qty openAbs
    let closedBasis := (p.costBasisMills * closed).tdiv openAbs
    realized = p.realizedMills +
        (if 0 < p.netQtyTenths then closed * price - closedBasis
          else closedBasis - closed * price) ∧
      basis = (if 0 < qty - closed then (qty - closed) * price
        else p.costBasisMills - closedBasis) := by
  simp only [closingTotals, Option.bind_eq_bind, Option.bind_eq_some_iff, toI64_eq_some,
    checkedMul_eq_some, checkedAdd_eq_some, checkedSub_eq_some, Option.pure_def,
    Option.some.injEq, Prod.mk.injEq] at h
  obtain ⟨closed, ⟨_, rfl⟩, closedBasis, ⟨_, rfl⟩, proceeds, ⟨_, rfl⟩, delta, hdelta,
    real, ⟨_, rfl⟩, basis', ⟨_, rfl⟩, basis'', hflip, rfl, rfl⟩ := h
  unfold realizedDelta at hdelta
  unfold basisAfterClose at hflip
  refine ⟨?_, ?_⟩
  · split_ifs at hdelta ⊢ with hlong
    · rw [(checkedSub_eq_some.1 hdelta).2]
    · rw [(checkedSub_eq_some.1 hdelta).2]
  · split_ifs at hflip ⊢ with hpos
    · exact (checkedMul_eq_some.1 hflip).2.symm
    · cases hflip
      rfl

/-- The pro-rata share of a nonnegative basis lies between nothing and the whole of it. -/
theorem closedBasis_range {basis closed openAbs : Int} (hbasis : 0 ≤ basis) (hclosed : 0 ≤ closed)
    (hle : closed ≤ openAbs) (hopen : 0 < openAbs) :
    0 ≤ (basis * closed).tdiv openAbs ∧ (basis * closed).tdiv openAbs ≤ basis := by
  rw [Int.tdiv_eq_ediv_of_nonneg (mul_nonneg hbasis hclosed)]
  refine ⟨Int.ediv_nonneg (mul_nonneg hbasis hclosed) hopen.le, ?_⟩
  have hmul : basis * closed ≤ basis * openAbs := mul_le_mul_of_nonneg_left hle hbasis
  calc basis * closed / openAbs
      ≤ basis * openAbs / openAbs := Int.ediv_le_ediv hopen hmul
    _ = basis := Int.mul_ediv_cancel _ (ne_of_gt hopen)

/-- A full close books the whole basis. -/
theorem closedBasis_full {basis openAbs : Int} (hopen : 0 < openAbs) :
    (basis * openAbs).tdiv openAbs = basis :=
  Int.mul_tdiv_cancel _ (ne_of_gt hopen)

theorem Lawful.of_opening {p p' : Position} {s notional : Int} (hp : p.Lawful)
    (hopen : p.OpeningOrAdding s) (hs : s ≠ 0) (hn : 0 < notional)
    (hnet : p'.netQtyTenths = p.netQtyTenths + s)
    (hcash : p'.cashMills = p.cashMills - s.sign * notional)
    (hbasis : p'.costBasisMills =
      if p'.netQtyTenths = 0 then 0 else p.costBasisMills + notional)
    (hrealized : p'.realizedMills = p.realizedMills) : p'.Lawful := by
  have hb := hp.basis_nonneg
  have hr := hp.realized_eq
  -- The open quantity keeps the sign of the fill, so it is not flat afterwards.
  have hsign : p'.netQtyTenths.sign = s.sign ∧ p'.netQtyTenths ≠ 0 := by
    rw [hnet]
    rcases hopen with hzero | hsame
    · simp [hzero, hs]
    · rcases lt_or_gt_of_ne hs with hneg | hpos
      · have hle : ¬0 < p.netQtyTenths := by simpa [not_lt.2 hneg.le] using hsame
        rw [Int.sign_eq_neg_one_of_neg hneg, Int.sign_eq_neg_one_of_neg (by omega)]
        exact ⟨rfl, by omega⟩
      · have hlt : 0 < p.netQtyTenths := by simpa [hpos] using hsame
        rw [Int.sign_eq_one_of_pos hpos, Int.sign_eq_one_of_pos (by omega)]
        exact ⟨rfl, by omega⟩
  have hold : p.signedBasis = s.sign * p.costBasisMills := by
    rcases hopen with hzero | hsame
    · simp [signedBasis, hzero, hp.basis_of_flat hzero]
    · rcases lt_or_gt_of_ne hs with hneg | hpos
      · have hle : ¬0 < p.netQtyTenths := by simpa [not_lt.2 hneg.le] using hsame
        rcases lt_or_eq_of_le (not_lt.1 hle) with hlt | heq
        · rw [signedBasis, Int.sign_eq_neg_one_of_neg hneg, Int.sign_eq_neg_one_of_neg hlt]
        · simp [signedBasis, heq, hp.basis_of_flat heq]
      · have hlt : 0 < p.netQtyTenths := by simpa [hpos] using hsame
        rw [signedBasis, Int.sign_eq_one_of_pos hpos, Int.sign_eq_one_of_pos hlt]
  rw [if_neg hsign.2] at hbasis
  refine ⟨by omega, fun h => absurd h hsign.2, ?_⟩
  rw [signedBasis, hsign.1, hbasis, hrealized, hcash, hr, hold]
  ring

theorem Lawful.of_closing {p p' : Position} {s qty price basis : Int} (hp : p.Lawful)
    (hopen : ¬p.OpeningOrAdding s) (hs : s = qty ∨ s = -qty) (hq : 0 < qty) (hprice : 0 < price)
    (hnet : p'.netQtyTenths = p.netQtyTenths + s)
    (hcash : p'.cashMills = p.cashMills - s.sign * (qty * price))
    (hbasis : p'.costBasisMills = if p'.netQtyTenths = 0 then 0 else basis)
    (htotals : p.closingTotals qty price = some (basis, p'.realizedMills)) : p'.Lawful := by
  obtain ⟨hrealized, hnew⟩ := closingTotals_eq_some htotals
  have hb := hp.basis_nonneg
  have hr := hp.realized_eq
  simp only [OpeningOrAdding, not_or] at hopen
  obtain ⟨hne, hdiff⟩ := hopen
  set openAbs := (p.netQtyTenths.natAbs : Int) with hopenAbs
  have hposAbs : 0 < openAbs := by omega
  -- The fill is on the other side of the open quantity.
  have hside : (0 < p.netQtyTenths ∧ s = -qty) ∨ (p.netQtyTenths < 0 ∧ s = qty) := by
    rcases lt_or_gt_of_ne hne with hneg | hpos
    · right
      refine ⟨hneg, ?_⟩
      rcases hs with hs | hs
      · exact hs
      · exact absurd (by simp [not_lt.2 hneg.le, hs, hq.le]) hdiff
    · left
      refine ⟨hpos, ?_⟩
      rcases hs with hs | hs
      · exact absurd (by simp [hpos, hs, hq]) hdiff
      · exact hs
  rcases lt_trichotomy qty openAbs with hpart | hfull | hflip
  · -- Partial close: a share of the basis is booked and the rest stays.
    rw [min_eq_left hpart.le] at hrealized hnew
    obtain ⟨hlow, hhigh⟩ := closedBasis_range hb hq.le hpart.le hposAbs
    set closedBasis := (p.costBasisMills * qty).tdiv openAbs
    rw [if_neg (by omega)] at hnew
    have hnz : p'.netQtyTenths ≠ 0 := by omega
    rw [if_neg hnz] at hbasis
    refine ⟨by omega, fun h => absurd h hnz, ?_⟩
    rcases hside with ⟨hlong, rfl⟩ | ⟨hshort, rfl⟩
    · rw [if_pos hlong] at hrealized
      rw [signedBasis, Int.sign_eq_one_of_pos hlong] at hr
      rw [signedBasis, Int.sign_eq_one_of_pos (by omega : 0 < p'.netQtyTenths), hbasis, hnew,
        hrealized, hcash, hr, Int.sign_eq_neg_one_of_neg (by omega : -qty < 0)]
      ring
    · rw [if_neg (by omega)] at hrealized
      rw [signedBasis, Int.sign_eq_neg_one_of_neg hshort] at hr
      rw [signedBasis, Int.sign_eq_neg_one_of_neg (by omega : p'.netQtyTenths < 0), hbasis, hnew,
        hrealized, hcash, hr, Int.sign_eq_one_of_pos hq]
      ring
  · -- Full close: the whole basis is booked and nothing stays open.
    rw [min_eq_left hfull.le, hfull, closedBasis_full hposAbs] at hrealized
    have hz : p'.netQtyTenths = 0 := by omega
    rw [if_pos hz] at hbasis
    refine ⟨by omega, fun _ => hbasis, ?_⟩
    rw [signedBasis, hz, Int.sign_zero, zero_mul, add_zero, hrealized, hcash, hfull]
    rcases hside with ⟨hlong, rfl⟩ | ⟨hshort, rfl⟩
    · rw [if_pos hlong, Int.sign_eq_neg_one_of_neg (by omega : -qty < 0)]
      rw [signedBasis, Int.sign_eq_one_of_pos hlong] at hr
      rw [hr]
      ring
    · rw [if_neg (by omega), hfull, Int.sign_eq_one_of_pos hposAbs]
      rw [signedBasis, Int.sign_eq_neg_one_of_neg hshort] at hr
      rw [hr]
      ring
  · -- Through zero: the old basis is booked whole and the rest opens at the fill price.
    rw [min_eq_right hflip.le, closedBasis_full hposAbs] at hrealized hnew
    rw [if_pos (by omega)] at hnew
    have hnz : p'.netQtyTenths ≠ 0 := by omega
    rw [if_neg hnz] at hbasis
    have hpos : 0 < (qty - openAbs) * price := mul_pos (by omega) hprice
    refine ⟨by omega, fun h => absurd h hnz, ?_⟩
    rcases hside with ⟨hlong, rfl⟩ | ⟨hshort, rfl⟩
    · rw [if_pos hlong] at hrealized
      rw [signedBasis, Int.sign_eq_one_of_pos hlong] at hr
      rw [signedBasis, Int.sign_eq_neg_one_of_neg (by omega : p'.netQtyTenths < 0), hbasis, hnew,
        hrealized, hcash, hr, Int.sign_eq_neg_one_of_neg (by omega : -qty < 0)]
      ring
    · rw [if_neg (by omega)] at hrealized
      rw [signedBasis, Int.sign_eq_neg_one_of_neg hshort] at hr
      rw [signedBasis, Int.sign_eq_one_of_pos (by omega : 0 < p'.netQtyTenths), hbasis, hnew,
        hrealized, hcash, hr, Int.sign_eq_one_of_pos hq]
      ring

theorem signedQty_mul (side : Side) (qty price : Int) (hq : 0 < qty) :
    signedQty side (qty * price) = (signedQty side qty).sign * (qty * price) := by
  cases side with
  | buy => simp [signedQty, Int.sign_eq_one_of_pos hq]
  | sell => simp [signedQty, Int.sign_eq_one_of_pos hq]

/-- One booked fill keeps the accounting law. -/
theorem Lawful.afterFill {p p' : Position} {side : Side} {qty price : Int} (hp : p.Lawful)
    (hq : 0 < qty) (hprice : 0 < price) (h : p.afterFill side qty price = some p') :
    p'.Lawful := by
  obtain ⟨hnet, hcash, basis, hbasis, htotals⟩ := afterFill_eq_some h
  rw [signedQty_mul side qty price hq] at hcash
  have hs : signedQty side qty = qty ∨ signedQty side qty = -qty := by
    cases side <;> simp [signedQty]
  unfold totalsAfter at htotals
  split_ifs at htotals with hopen
  · obtain ⟨hnew, hrealized⟩ := openingTotals_eq_some htotals
    exact hp.of_opening hopen (by omega) (mul_pos hq hprice) hnet hcash (hnew ▸ hbasis) hrealized
  · exact hp.of_closing hopen hs hq hprice hnet hcash hbasis htotals

/-- Both legs of a fill, as two single fills. -/
theorem afterBothFills_eq_some {maker taker maker' taker' : Position} {same : Bool} {side : Side}
    {qty price : Int} (h : afterBothFills maker taker same side qty price = some (maker', taker')) :
    maker.afterFill side.opposite qty price = some maker' ∧
      (if same then maker' else taker).afterFill side qty price = some taker' := by
  simp only [afterBothFills, Option.bind_eq_bind, Option.bind_eq_some_iff, Option.pure_def,
    Option.some.injEq, Prod.mk.injEq] at h
  obtain ⟨m, hm, t, ht, rfl, rfl⟩ := h
  exact ⟨hm, ht⟩

/-! ## The range of the totals -/

/-- Every total of a position is a 64-bit value. -/
structure InRange (p : Position) : Prop where
  net : InI64 p.netQtyTenths
  cash : InI64 p.cashMills
  basis : InI64 p.costBasisMills
  realized : InI64 p.realizedMills

theorem inI64_zero : InI64 0 := by decide

theorem inRange_default : InRange default := ⟨inI64_zero, inI64_zero, inI64_zero, inI64_zero⟩

theorem inI64_totalsAfter {p : Position} (hp : p.InRange) {s notional qty price : Int}
    {totals : Int × Int} (h : p.totalsAfter s notional qty price = some totals) :
    InI64 totals.1 ∧ InI64 totals.2 := by
  unfold totalsAfter at h
  split_ifs at h
  · simp only [openingTotals, Option.bind_eq_bind, Option.bind_eq_some_iff, Option.pure_def,
      Option.some.injEq] at h
    obtain ⟨basis, hbasis, rfl⟩ := h
    exact ⟨inI64_of_toI64 hbasis, hp.realized⟩
  · simp only [closingTotals, Option.bind_eq_bind, Option.bind_eq_some_iff, Option.pure_def,
      Option.some.injEq] at h
    obtain ⟨_, -, _, -, _, -, _, -, realized, hrealized, basis, hbasis, basis', hflip, rfl⟩ := h
    refine ⟨?_, inI64_of_toI64 hrealized⟩
    unfold basisAfterClose at hflip
    split_ifs at hflip
    · exact inI64_of_toI64 hflip
    · cases hflip
      exact inI64_of_toI64 hbasis

/-- A booked fill leaves every total in its range. -/
theorem InRange.afterFill {p p' : Position} (hp : p.InRange) {side : Side} {qty price : Int}
    (h : p.afterFill side qty price = some p') : p'.InRange := by
  simp only [Position.afterFill, Option.bind_eq_bind, Option.bind_eq_some_iff, Option.pure_def,
    Option.some.injEq, Prod.exists] at h
  obtain ⟨_, -, _, _, -, net, hnet, cash, hcash, basis, realized, htotals, rfl⟩ := h
  obtain ⟨hbasis, hrealized⟩ := inI64_totalsAfter hp htotals
  refine ⟨inI64_of_toI64 hnet, inI64_of_toI64 hcash, ?_, hrealized⟩
  dsimp only
  split_ifs
  · exact inI64_zero
  · exact hbasis

end Position

end Matcher
end VerifiableExchange
