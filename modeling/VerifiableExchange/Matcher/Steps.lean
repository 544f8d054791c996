import VerifiableExchange.Matcher.State

/-!
# Steps — the checks one order passes before it may match

Steps 1 to 4 and 6 of the pipeline, and the position limit. A step reads what it is given and
answers; only the caller changes anything.
-/

namespace VerifiableExchange
namespace Matcher

open Lib

/-- A refusal, under the name it is counted by. -/
structure Rejected where
  kind : String
  deriving DecidableEq

/-- A `New` message with its symbol resolved and its terms as whole numbers. -/
structure IncomingOrder where
  id : OrderId
  timestamp : Nat
  account : AccountId
  symbol : String
  side : Side
  limitCents : Int
  qtyTenths : Int
  orderType : OrderType
  timeInForce : TimeInForce
  postOnly : Bool
  deriving DecidableEq

/-! ## Step 1: resolve the symbol -/

def onSteps (listing : Listing) (limitCents qtyTenths : Int) : Except Rejected Unit := do
  require (limitCents.tmod listing.priceStepCents = 0) ⟨"off_price_step"⟩
  require (qtyTenths.tmod listing.quantityStepTenths = 0) ⟨"off_quantity_step"⟩

/-- The order's price and quantity as whole numbers of the listing's steps. -/
def resolve (registry : SymbolRegistry) (symbol : String) (price quantity : F64) :
    Except Rejected (Int × Int) := do
  let listing ← orFail (registry.listing symbol) ⟨"unlisted_symbol"⟩
  let limitCents ← orFail (toGrid price 100) ⟨"off_grid"⟩
  let qtyTenths ← orFail (toGrid quantity 10) ⟨"off_grid"⟩
  onSteps listing limitCents qtyTenths
  return (limitCents, qtyTenths)

/-! ## Which prices cross -/

/-- Whether a resting price trades with an order of this side and limit. -/
def crosses (side : Side) (priceCents limitCents : Int) : Prop :=
  match side with
  | .buy => priceCents ≤ limitCents
  | .sell => limitCents ≤ priceCents

instance (side : Side) (priceCents limitCents : Int) :
    Decidable (crosses side priceCents limitCents) := by
  unfold crosses
  cases side <;> exact inferInstance

/-- The levels an order of this side can trade with, the best price first. -/
def facing (book : Book) (side : Side) : List (Int × Level) :=
  match side with
  | .buy => book.asks.entries
  | .sell => book.bids.entries.reverse

/-- Of these, the levels priced at the limit or better. -/
def crossing (book : Book) (side : Side) (limitCents : Int) : List (Int × Level) :=
  (facing book side).filter (fun entry => crosses side entry.1 limitCents)

/-- Total quantity resting at prices the order would cross, capped at the largest value. -/
def crossingTenths (book : Option Book) (side : Side) (limitCents : Int) : Int :=
  match book with
  | none => 0
  | some book =>
      ((crossing book side limitCents).flatMap (fun entry => entry.2)).foldl
        (fun sum resting => saturatingAdd sum resting.qtyTenths) 0

/-! ## Step 2: validate the order type -/

def validate (order : IncomingOrder) (book : Option Book) : Except Rejected Unit := do
  require (¬(order.postOnly = true ∧ order.orderType = .market)) ⟨"post_only_market"⟩
  require (¬(order.postOnly = true ∧ order.timeInForce ≠ .goodTillCancel))
    ⟨"post_only_not_resting"⟩
  let available := crossingTenths book order.side order.limitCents
  require (¬(order.postOnly = true ∧ 0 < available)) ⟨"post_only_would_take"⟩
  require (¬(order.timeInForce = .fillOrKill ∧ available < order.qtyTenths))
    ⟨"fill_or_kill_unavailable"⟩

/-! ## Step 3: bound the price -/

/-- How far from the reference price a market order may fill, in basis points. -/
def collarBasisPoints : Int := 200

/-- The reference price plus or minus the band, never wider than the order's own price. -/
def collar (side : Side) (limitCents referenceCents : Int) : Int :=
  let band := max ((referenceCents * collarBasisPoints).tdiv 10000) 1
  match side with
  | .buy => min limitCents (referenceCents + band)
  | .sell => max limitCents (max (referenceCents - band) 1)

/-- The price a market order may fill at, once there is a reference to bound it against. -/
def boundMarket (order : IncomingOrder) (referenceCents : Option Int) : Except Rejected Int := do
  let reference ← orFail referenceCents ⟨"no_reference_price"⟩
  let bounded := collar order.side order.limitCents reference
  require (¬(order.timeInForce = .fillOrKill ∧ bounded ≠ order.limitCents))
    ⟨"fill_or_kill_collared"⟩
  return bounded

def bound (order : IncomingOrder) (referenceCents : Option Int) : Except Rejected Int :=
  match order.orderType with
  | .limit => .ok order.limitCents
  | .market => boundMarket order referenceCents

/-! ## Step 4: self-trade check -/

/-- The first resting order of this account the arriving order would reach. -/
def ownOrderInTheWay (order : IncomingOrder) (book : Book) : Option OrderId :=
  (((crossing book order.side order.limitCents).flatMap (fun entry => entry.2)).find?
    (fun resting => resting.account = order.account)).map RestingOrder.id

def checkSelfTrade (order : IncomingOrder) (book : Book) (rules : RuleSet) :
    Except Rejected Unit :=
  require (rules.atLeast 2 = true → ownOrderInTheWay order book = none) ⟨"self_trade"⟩

/-! ## The position limit -/

/-- The accounts a command would open a position for, and the quantity still to match. -/
structure Opening where
  added : List AccountId
  remaining : Int

namespace ResourceLimits

/-- Counts one account of a fill, when it holds no position in the symbol yet. -/
def countAccount (limits : ResourceLimits) (order : IncomingOrder)
    (positions : SortedMap AccountKey Position) (added : List AccountId) (account : AccountId) :
    Except Rejected (List AccountId) :=
  if positions.contains (Ledger.accountKey account order.symbol) then .ok added
  else
    let added := if account ∈ added then added else account :: added
    if limits.maxPositions < positions.size + added.length then
      .error ⟨"position_capacity"⟩
    else .ok added

/-- Counts both accounts of the next fill. -/
def countMaker (limits : ResourceLimits) (order : IncomingOrder)
    (positions : SortedMap AccountKey Position) (opening : Opening) (maker : RestingOrder) :
    Except Rejected Opening :=
  if opening.remaining = 0 then .ok opening
  else do
    let added ← limits.countAccount order positions opening.added order.account
    let added ← limits.countAccount order positions added maker.account
    return {
      added := added
      remaining := opening.remaining - min opening.remaining maker.qtyTenths }

/-- Whether every position the whole command opens fits the limit. -/
def checkPositions (limits : ResourceLimits) (order : IncomingOrder) (book : Book)
    (positions : SortedMap AccountKey Position) : Except Rejected Unit := do
  let _ ← ((crossing book order.side order.limitCents).flatMap (fun entry => entry.2)).foldlM
    (limits.countMaker order positions) ⟨[], order.qtyTenths⟩
  return ()

end ResourceLimits

/-! ## Step 6: remainder policy -/

inductive Remainder
  | rest
  | cancel
  deriving DecidableEq

def decideRemainder (order : IncomingOrder) : Remainder :=
  match order.orderType, order.timeInForce with
  | .market, _ => .cancel
  | .limit, .goodTillCancel => .rest
  | .limit, .immediateOrCancel => .cancel
  | .limit, .fillOrKill => .cancel

/-! ## What the steps answer -/

theorem onSteps_eq_ok {listing : Listing} {limitCents qtyTenths : Int} {u : Unit} :
    onSteps listing limitCents qtyTenths = .ok u ↔
      limitCents.tmod listing.priceStepCents = 0 ∧
        qtyTenths.tmod listing.quantityStepTenths = 0 := by
  simp [onSteps, bind_eq_ok]

/-- What an order that resolves is known to be. -/
theorem resolve_eq_ok {registry : SymbolRegistry} {symbol : String} {price quantity : F64}
    {terms : Int × Int} (h : resolve registry symbol price quantity = .ok terms) :
    ∃ listing, registry.listing symbol = some listing ∧
      toGrid price 100 = some terms.1 ∧ toGrid quantity 10 = some terms.2 ∧
      terms.1.tmod listing.priceStepCents = 0 ∧ terms.2.tmod listing.quantityStepTenths = 0 := by
  simp only [resolve, bind_eq_ok, orFail_eq_ok, onSteps_eq_ok] at h
  obtain ⟨listing, hlisting, limitCents, hlimit, qtyTenths, hqty, _, hsteps, h⟩ := h
  cases h
  exact ⟨listing, hlisting, hlimit, hqty, hsteps⟩

/-- The collar only tightens a price. -/
theorem crosses_of_crosses_collar {side : Side} {price limitCents reference : Int}
    (h : crosses side price (collar side limitCents reference)) :
    crosses side price limitCents := by
  cases side with
  | buy => exact le_trans h (min_le_left _ _)
  | sell => exact le_trans (le_max_left _ _) h

theorem bound_of_limit {order : IncomingOrder} {referenceCents : Option Int} {limitCents : Int}
    (htype : order.orderType = .limit) (h : bound order referenceCents = .ok limitCents) :
    limitCents = order.limitCents := by
  rw [bound, htype] at h
  cases h
  rfl

theorem decideRemainder_eq_rest {order : IncomingOrder} (h : decideRemainder order = .rest) :
    order.orderType = .limit ∧ order.timeInForce = .goodTillCancel := by
  unfold decideRemainder at h
  split at h <;> simp_all

end Matcher
end VerifiableExchange
