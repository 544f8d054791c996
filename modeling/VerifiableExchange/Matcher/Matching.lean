import VerifiableExchange.Matcher.Steps

/-!
# Matching — step 5, and the funds it moves

Price-time priority. A fill-or-kill order is planned and staged whole before its first effect;
every other order fills one resting order at a time. `commitFill` is the bookkeeping both share.
-/

namespace VerifiableExchange
namespace Matcher

open Lib

/-- One planned fill, in matching order. -/
structure PlannedFill where
  makerOrder : OrderId
  makerAccount : AccountId
  priceCents : Int
  qtyTenths : Int
  deriving DecidableEq

/-- The parts of the engine one match writes to. -/
structure BookAndTrades where
  book : Book
  ledger : Ledger
  openOrders : SortedMap OrderId OrderRef
  positions : SortedMap AccountKey Position
  aggregates : SortedMap String SymbolAgg
  trades : List TradeRow
  tradesTotal : Nat
  pending : Option (List Change)
  deriving DecidableEq

/-- A fill-or-kill order with every fill and every position after it. -/
structure FokPlan where
  fills : List PlannedFill
  positionsAfter : List (Position × Position)

/-- How a match ended. -/
inductive Matched
  | crossed (remainingTenths : Int)
  | overflowed (remainingTenths : Int)
  deriving DecidableEq

/-! ## Committing one fill -/

/-- The rest of a level once its front order gave up a quantity. -/
def levelAfter (maker : RestingOrder) (makerLeft : Int) (rest : Level) : Level :=
  if makerLeft = 0 then rest else { maker with qtyTenths := makerLeft } :: rest

/-- The front order of a level, which must be the planned maker. -/
def plannedMaker (levels : Levels) (fill : PlannedFill) : Except Fault (RestingOrder × Level) :=
  match levels.get? fill.priceCents with
  | none => .error (.panicked "validated maker level exists")
  | some [] => .error (.panicked "validated maker exists")
  | some (maker :: rest) =>
      if maker.id = fill.makerOrder ∧ maker.account = fill.makerAccount then .ok (maker, rest)
      else .error (.panicked "the book must remain unchanged between staging and commit")

def tradeOf (order : IncomingOrder) (fill : PlannedFill) (tradeId : Nat) : TradeRow where
  tradeId := tradeId
  timestamp := order.timestamp
  symbol := order.symbol
  priceCents := fill.priceCents
  qtyTenths := fill.qtyTenths
  makerOrder := fill.makerOrder
  makerAccount := fill.makerAccount
  takerOrder := order.id
  takerAccount := order.account
  takerSide := order.side

/-- What a fill leaves of its maker, as a change to store. -/
def makerChange (makerOrder : OrderId) (makerLeft : Int) : Change :=
  if makerLeft = 0 then .orderClosed makerOrder else .orderReduced makerOrder makerLeft

def indexAfter (openOrders : SortedMap OrderId OrderRef) (makerOrder : OrderId)
    (makerLeft : Int) : SortedMap OrderId OrderRef :=
  if makerLeft = 0 then openOrders.erase makerOrder else openOrders

/-- Both accounts' positions in the symbol; an account that is both keeps the taker's. -/
def positionsAfter (positions : SortedMap AccountKey Position) (order : IncomingOrder)
    (fill : PlannedFill) (makerNext takerNext : Position) : SortedMap AccountKey Position :=
  let makerKey := Ledger.accountKey fill.makerAccount order.symbol
  let takerKey := Ledger.accountKey order.account order.symbol
  (if fill.makerAccount ≠ order.account then positions.insert makerKey makerNext
    else positions).insert takerKey takerNext

def SymbolAgg.afterFill (agg : SymbolAgg) (fill : PlannedFill) : SymbolAgg where
  lastTradeCents := fill.priceCents
  volumeTenths := saturatingAdd agg.volumeTenths fill.qtyTenths
  tradeCount := saturatingAddU64 agg.tradeCount 1

/-- Commits a fill whose arithmetic has already passed validation. -/
def commitFill (order : IncomingOrder) (fill : PlannedFill) (makerNext takerNext : Position)
    (tradeId : Nat) (into : BookAndTrades) : Except Fault BookAndTrades := do
  let side := order.side.opposite
  let levels := into.book.levels side
  let (maker, rest) ← plannedMaker levels fill
  let makerLeft ← expect
    (orFail ((checkedSub maker.qtyTenths fill.qtyTenths).filter (fun left => 0 ≤ left)) ())
    "validated fill fits the maker"
  let trade := tradeOf order fill tradeId
  return {
    book := into.book.setLevels side
      (Levels.put levels fill.priceCents (levelAfter maker makerLeft rest))
    ledger := into.ledger
    openOrders := indexAfter into.openOrders fill.makerOrder makerLeft
    positions := positionsAfter into.positions order fill makerNext takerNext
    aggregates := into.aggregates.insert order.symbol
      ((into.aggregates.getD order.symbol .default).afterFill fill)
    trades := pushCapped tradeWindow into.trades trade
    tradesTotal := saturatingAddU64 into.tradesTotal 1
    pending := record (record into.pending (.traded trade)) (makerChange fill.makerOrder makerLeft) }

/-! ## Fill by fill -/

/-- The order at the front of the best level, when its price crosses. -/
def nextFill (order : IncomingOrder) (book : Book) (remaining : Int) : Option PlannedFill :=
  match (facing book order.side).head? with
  | none => none
  | some (price, level) =>
      if crosses order.side price order.limitCents then
        level.head?.map (fun maker => {
          makerOrder := maker.id
          makerAccount := maker.account
          priceCents := price
          qtyTenths := min remaining maker.qtyTenths })
      else none

/-- Both positions after the next fill; `none` when a total would leave its range. -/
def positionsOf (order : IncomingOrder) (fill : PlannedFill)
    (positions : SortedMap AccountKey Position) : Option (Position × Position) :=
  Position.afterBothFills
    (positions.getD (Ledger.accountKey fill.makerAccount order.symbol) .default)
    (positions.getD (Ledger.accountKey order.account order.symbol) .default)
    (fill.makerAccount = order.account) order.side fill.qtyTenths fill.priceCents

/-- Settles one fill and commits it. -/
def settleAndCommit (order : IncomingOrder) (fill : PlannedFill) (next : Position × Position)
    (tradeId : Nat) (into : BookAndTrades) : Except Fault BookAndTrades := do
  let ledger ← expect
    (into.ledger.settleFill fill.makerOrder order.id fill.priceCents fill.qtyTenths)
    "complete funded command preflight accepted each actual fill"
  commitFill order fill next.1 next.2 tradeId { into with ledger := ledger }

/-- The loop of a non-fill-or-kill order. Every round either ends the loop or takes an order off
the other side, so one more round than that side has orders is enough. -/
def executeLoop (order : IncomingOrder) : Nat → Int → BookAndTrades →
    Except Fault (Matched × BookAndTrades)
  | 0, remaining, into => .ok (.crossed remaining, into)
  | fuel + 1, remaining, into =>
      if remaining ≤ 0 then .ok (.crossed remaining, into)
      else
        match nextFill order into.book remaining with
        | none => .ok (.crossed remaining, into)
        | some fill =>
            match positionsOf order fill into.positions, checkedAddU64 into.tradesTotal 1 with
            | some next, some tradeId =>
                match settleAndCommit order fill next tradeId into with
                | .error fault => .error fault
                | .ok into => executeLoop order fuel (remaining - fill.qtyTenths) into
            | _, _ => .ok (.overflowed remaining, into)

/-- How many orders an order of this side faces. -/
def restingCount (book : Book) (side : Side) : Nat :=
  ((facing book side).map (fun entry => entry.2.length)).sum

def execute (order : IncomingOrder) (into : BookAndTrades) :
    Except Fault (Matched × BookAndTrades) :=
  executeLoop order (restingCount into.book order.side + 1) order.qtyTenths into

/-! ## Fill or kill -/

/-- The fills one level gives, and the quantity still to match after it. -/
def planLevel (price : Int) : Int → Level → List PlannedFill × Int
  | remaining, [] => ([], remaining)
  | remaining, maker :: rest =>
      if remaining = 0 then ([], 0)
      else
        let fill : PlannedFill := {
          makerOrder := maker.id
          makerAccount := maker.account
          priceCents := price
          qtyTenths := min remaining maker.qtyTenths }
        let left := remaining - fill.qtyTenths
        if 0 < left then
          let tail := planLevel price left rest
          (fill :: tail.1, tail.2)
        else ([fill], left)

def planLevels (order : IncomingOrder) : Int → List (Int × Level) → List PlannedFill
  | _, [] => []
  | remaining, (price, level) :: rest =>
      if ¬crosses order.side price order.limitCents ∨ remaining = 0 then []
      else
        let here := planLevel price remaining level
        if 0 < here.2 then here.1 ++ planLevels order here.2 rest else here.1

/-- Plans the same price-time walk as execution, without changing anything. -/
def planFills (order : IncomingOrder) (book : Book) : List PlannedFill :=
  planLevels order order.qtyTenths (facing book order.side)

/-- An account's position after the fills staged so far. -/
def stagedPosition (positions : SortedMap AccountKey Position) (symbol : String)
    (staged : SortedMap AccountId Position) (account : AccountId) : Position :=
  (staged.get? account).getD (positions.getD (Ledger.accountKey account symbol) .default)

/-- Every position transition of a plan, from the first fill to the last. -/
def stagePositions (order : IncomingOrder) (positions : SortedMap AccountKey Position) :
    SortedMap AccountId Position → List PlannedFill → Option (List (Position × Position))
  | _, [] => some []
  | staged, fill :: rest => do
      let next ← Position.afterBothFills
        (stagedPosition positions order.symbol staged fill.makerAccount)
        (stagedPosition positions order.symbol staged order.account)
        (fill.makerAccount = order.account) order.side fill.qtyTenths fill.priceCents
      let tail ← stagePositions order positions
        ((staged.insert fill.makerAccount next.1).insert order.account next.2) rest
      return next :: tail

/-- Validates every cumulative position transition before any execution effect. -/
def stageFok (order : IncomingOrder) (book : Book) (positions : SortedMap AccountKey Position)
    (tradesTotal : Nat) : Except Rejected FokPlan := do
  let fills := planFills order book
  require ((fills.map PlannedFill.qtyTenths).sum = order.qtyTenths)
    ⟨"fill_or_kill_unavailable"⟩
  let _ ← orFail (checkedAddU64 tradesTotal fills.length) ⟨"position_overflow"⟩
  let after ← orFail (stagePositions order positions .empty fills) ⟨"position_overflow"⟩
  return { fills := fills, positionsAfter := after }

/-- Commits planned fills in order. -/
def commitPlanned (order : IncomingOrder) :
    List (PlannedFill × (Position × Position)) → BookAndTrades → Except Fault BookAndTrades
  | [], into => .ok into
  | (fill, next) :: rest, into =>
      match checkedAddU64 into.tradesTotal 1 with
      | none => .error (.panicked "staged trade ID fits")
      | some tradeId =>
          match commitFill order fill next.1 next.2 tradeId into with
          | .error fault => .error fault
          | .ok into => commitPlanned order rest into

/-- Consumes the exact validated fills; no second matching walk. -/
def executeFok (order : IncomingOrder) (plan : FokPlan) (into : BookAndTrades) :
    Except Fault (Matched × BookAndTrades) := do
  let into ← commitPlanned order (plan.fills.zip plan.positionsAfter) into
  return (.crossed 0, into)

/-! ## Funds -/

/-- Reserves and settles the same fills on a private ledger. -/
def stageFokLedger (order : IncomingOrder) (plan : FokPlan) (ledger : Ledger) :
    Except Rejected Ledger := do
  let reserved ← orFail (ledger.reserve order.id order.account order.symbol order.side
    order.limitCents order.qtyTenths).toOption ⟨"insufficient_funds"⟩
  orFail (plan.fills.foldlM
    (fun (staged : Ledger) fill =>
      staged.settleFill fill.makerOrder order.id fill.priceCents fill.qtyTenths)
    reserved).toOption ⟨"funds_overflow"⟩

/-- A funded command run on copies. -/
structure Preflight where
  staged : Ledger
  projected : SortedMap AccountKey Position
  remaining : Int
  nextTrade : Nat

/-- One account's leg of a fill, on the projected positions. -/
def projectLeg (order : IncomingOrder) (positions : SortedMap AccountKey Position)
    (projected : SortedMap AccountKey Position) (account : AccountId) (side : Side)
    (fill price : Int) : Except Rejected (SortedMap AccountKey Position) := do
  let key := Ledger.accountKey account order.symbol
  let before := (projected.get? key).getD (positions.getD key .default)
  let after ← orFail (before.afterFill side fill price) ⟨"position_overflow"⟩
  return projected.insert key after

def preflightFill (order : IncomingOrder) (positions : SortedMap AccountKey Position)
    (price : Int) (p : Preflight) (maker : RestingOrder) : Except Rejected Preflight := do
  let nextTrade ← orFail (checkedAddU64 p.nextTrade 1) ⟨"position_overflow"⟩
  let fill := min p.remaining maker.qtyTenths
  let projected ← projectLeg order positions p.projected maker.account order.side.opposite
    fill price
  let projected ← projectLeg order positions projected order.account order.side fill price
  let staged ← orFail (p.staged.settleFill maker.id order.id price fill).toOption
    ⟨"funds_overflow"⟩
  return {
    staged := staged
    projected := projected
    remaining := p.remaining - fill
    nextTrade := nextTrade }

def preflightLevel (order : IncomingOrder) (positions : SortedMap AccountKey Position)
    (price : Int) : Preflight → Level → Except Rejected Preflight
  | p, [] => .ok p
  | p, maker :: rest =>
      match preflightFill order positions price p maker with
      | .error why => .error why
      | .ok p => if p.remaining = 0 then .ok p else preflightLevel order positions price p rest

def preflightLevels (order : IncomingOrder) (positions : SortedMap AccountKey Position) :
    Preflight → List (Int × Level) → Except Rejected Preflight
  | p, [] => .ok p
  | p, (price, level) :: rest =>
      if p.remaining = 0 ∨ ¬crosses order.side price order.limitCents then .ok p
      else
        match preflightLevel order positions price p level with
        | .error why => .error why
        | .ok p => preflightLevels order positions p rest

/-- Whether a funded command can run to its end. -/
def preflight (order : IncomingOrder) (into : BookAndTrades) : Except Rejected Unit :=
  if !into.ledger.isFunded then .ok ()
  else do
    let reserved ← orFail (into.ledger.reserve order.id order.account order.symbol order.side
      order.limitCents order.qtyTenths).toOption ⟨"insufficient_funds"⟩
    let p ← preflightLevels order into.positions
      { staged := reserved
        projected := .empty
        remaining := order.qtyTenths
        nextTrade := into.tradesTotal }
      (facing into.book order.side)
    require (¬(order.timeInForce = .fillOrKill ∧ p.remaining ≠ 0)) ⟨"fok_unfilled"⟩

end Matcher
end VerifiableExchange
