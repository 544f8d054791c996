import VerifiableExchange.Inbox.Grid
import VerifiableExchange.Matcher.CandleHistory
import VerifiableExchange.Poller.Bookkeeping

/-!
# Pnl — the profit of one account over time

A request for a profit series reads the account's own trades below the memory window from the
database, the last prices of its symbols at each sampled trade, and then walks the window.
A request for positions adds up what the engine keeps.
-/

namespace VerifiableExchange
namespace Matcher

open Lib

/-- An amount of profit, as the API shows it. -/
def millsToF64 (mills : Int) : F64 := inUnits mills 1000

/-- The order a hash map gives its entries in, which may be any. -/
structure HashOrder (K V : Type) [LinearOrder K] where
  walk : SortedMap K V → List (K × V)
  perm : ∀ m, (walk m).Perm m.entries

/-- The order of the keys is one. -/
def HashOrder.ofKeys {K V : Type} [LinearOrder K] : HashOrder K V where
  walk := SortedMap.entries
  perm := fun _ => .refl _

/-! ## The trades table -/

/-- The rows of one run, in trade order as the table's key keeps them. -/
abbrev StoredTrades := List TradeRow

namespace StoredTrades

variable (rows : StoredTrades)

def newestTradeId : Nat := (rows.map TradeRow.tradeId).foldl max 0

def tradeTimestamp (tradeId : Nat) : Option Nat :=
  (rows.find? (fun row => row.tradeId = tradeId)).map TradeRow.timestamp

/-- The newest price of a symbol at or before a trade. -/
def lastPriceAt (symbol : String) (tradeId : Nat) : Option Int :=
  (rows.filter (fun row => row.symbol = symbol ∧ row.tradeId ≤ tradeId)).getLast?.map
    TradeRow.priceCents

/-- One page of the trades an account took part in, oldest first. A trade that both reads find is
one row. -/
def accountTradesBetween (account : AccountId) (after through limit : Nat) : List TradeRow :=
  let between := fun row : TradeRow => after < row.tradeId ∧ row.tradeId ≤ through
  let made := (rows.filter (fun row => row.makerAccount = account ∧ between row)).take limit
  let taken := (rows.filter (fun row => row.takerAccount = account ∧ between row)).take limit
  (rows.filter (fun row => row ∈ made ∨ row ∈ taken)).take limit

end StoredTrades

/-! ## The replay of one account -/

/-- One sample, at the time of one trade. -/
structure PnlPoint where
  timestamp : Nat
  realized : F64
  unrealized : F64
  total : F64
  deriving DecidableEq

structure PnlSeries where
  account : AccountId
  points : List PnlPoint
  deriving DecidableEq

/-- Why no series is answered, with what the answer prints. -/
inductive PnlError
  /-- Without a state database, the trades below the window are gone. -/
  | noDatabase
  | noReader
  | missingDurable (runId : Int) (newest windowFrom : Nat)
  | indexStuck (cursor : Nat)
  | missingTrade (runId : Int) (sampleId : Nat)
  | offGridPrice (account : AccountId) (tradeId : Nat)
  | offGridQuantity (account : AccountId) (tradeId : Nat)
  | sampleCount (account : AccountId) (expected built : Nat)
  deriving DecidableEq

/-- One account's position state while its sampled history is rebuilt. -/
structure AccountPnlReplay where
  account : AccountId
  points : List PnlPoint
  positions : SortedMap String Position
  last : SortedMap String Int

namespace AccountPnlReplay

def new (account : AccountId) : AccountPnlReplay := ⟨account, [], .empty, .empty⟩

/-- One side of a fill, where it is this account's. A fill the position cannot take leaves it as
it was. -/
def applyLeg (symbol : String) (priceCents qtyTenths : Int) (replay : AccountPnlReplay)
    (leg : AccountId × Side) : AccountPnlReplay :=
  if leg.1 = replay.account then
    let before := replay.positions.getD symbol .default
    { replay with
      positions := replay.positions.insert symbol
        ((before.afterFill leg.2 qtyTenths priceCents).getD before) }
  else replay

def applyFill (replay : AccountPnlReplay) (symbol : String) (priceCents qtyTenths : Int)
    (makerAccount takerAccount : AccountId) (takerSide : Side) : AccountPnlReplay :=
  [(makerAccount, takerSide.opposite), (takerAccount, takerSide)].foldl
    (applyLeg symbol priceCents qtyTenths) replay

def applyRow (replay : AccountPnlReplay) (row : TradeRow) : AccountPnlReplay :=
  replay.applyFill row.symbol row.priceCents row.qtyTenths row.makerAccount row.takerAccount
    row.takerSide

def setMark (replay : AccountPnlReplay) (symbol : String) (priceCents : Option Int) :
    AccountPnlReplay :=
  match priceCents.filter (0 < ·) with
  | some price => { replay with last := replay.last.insert symbol price }
  | none => { replay with last := replay.last.erase symbol }

/-- A trade of the memory window, whose price and quantity are kept as the API shows them. -/
def applyLiveTrade (replay : AccountPnlReplay) (trade : TradeRow) :
    Except PnlError AccountPnlReplay :=
  match toGrid (centsToF64 trade.priceCents) 100, toGrid (tenthsToF64 trade.qtyTenths) 10 with
  | none, _ => .error (.offGridPrice replay.account trade.tradeId)
  | some _, none => .error (.offGridQuantity replay.account trade.tradeId)
  | some priceCents, some qtyTenths =>
      let marked := { replay with last := replay.last.insert trade.symbol priceCents }
      .ok (marked.applyFill trade.symbol priceCents qtyTenths trade.makerAccount
        trade.takerAccount trade.takerSide)

/-- One position's part of a sample: what is locked in, and what is open at the last price. -/
def addPosition (last : SortedMap String Int) (sums : Int × Int) (holding : String × Position) :
    Int × Int :=
  (saturatingAdd sums.1 holding.2.realizedMills,
    match (last.get? holding.1).filter (0 < ·) with
    | some cents => saturatingAdd sums.2 (holding.2.unrealizedMills cents)
    | none => sums.2)

def sample (order : HashOrder String Position) (replay : AccountPnlReplay) (timestamp : Nat) :
    AccountPnlReplay :=
  let sums := (order.walk replay.positions).foldl (addPosition replay.last) (0, 0)
  { replay with
    points := replay.points ++
      [{ timestamp := timestamp
         realized := millsToF64 sums.1
         unrealized := millsToF64 sums.2
         total := millsToF64 (saturatingAdd sums.1 sums.2) }] }

end AccountPnlReplay

/-! ## A request for a profit series -/

/-- The ids a step apart, up to the newest trade. -/
def sampleIdsFrom (total step : Nat) (hstep : 0 < step) (tradeId : Nat) : List Nat :=
  if tradeId ≤ total then
    tradeId ::
      if tradeId + step ≤ u64Max then sampleIdsFrom total step hstep (tradeId + step) else []
  else []
termination_by total + 1 - tradeId

def pnlSampleIds (total points : Nat) : List Nat :=
  if total = 0 then []
  else
    let count := max 2 (min points 2000)
    let step := max ((total + count - 1) / count) 1
    let ids := sampleIdsFrom total step (by omega) 1
    if ids.getLast? = some total then ids else ids ++ [total]

/-- Applies the account's stored trades above the cursor, up to a trade, page by page. -/
def applyAccountUntil (rows : StoredTrades) (replay : AccountPnlReplay) (cursor through : Nat) :
    Except PnlError (AccountPnlReplay × Nat) :=
  if cursor < through then
    let page := rows.accountTradesBetween replay.account cursor through 1000
    match page.getLast? with
    | none => .ok (replay, cursor)
    | some last =>
        if last.tradeId ≤ cursor then .error (.indexStuck cursor)
        else
          applyAccountUntil rows (page.foldl AccountPnlReplay.applyRow replay) last.tradeId through
  else .ok (replay, cursor)
termination_by through - cursor

def setPnlMarks (rows : StoredTrades) (replay : AccountPnlReplay) (symbols : List String)
    (tradeId : Nat) : AccountPnlReplay :=
  symbols.foldl (fun replay symbol => replay.setMark symbol (rows.lastPriceAt symbol tradeId))
    replay

/-- One sample below the memory window. -/
def sampleStored (order : HashOrder String Position) (runId : Int) (rows : StoredTrades)
    (symbols : List String) (done : AccountPnlReplay × Nat) (sampleId : Nat) :
    Except PnlError (AccountPnlReplay × Nat) := do
  let (replay, cursor) ← applyAccountUntil rows done.1 done.2 sampleId
  let marked := setPnlMarks rows replay symbols sampleId
  match rows.tradeTimestamp sampleId with
  | none => .error (.missingTrade runId sampleId)
  | some timestamp => .ok (marked.sample order timestamp, cursor)

/-- The part below the memory window: a sample at each of these ids, then the rest of it. -/
def replayStored (order : HashOrder String Position) (runId : Int) (rows : StoredTrades)
    (account : AccountId) (symbols : List String) (windowFrom : Nat) (sampleIds : List Nat) :
    Except PnlError AccountPnlReplay := do
  let durableThrough := windowFrom - 1
  if rows.newestTradeId < durableThrough then
    .error (.missingDurable runId rows.newestTradeId windowFrom)
  else do
    let (replay, cursor) ←
      sampleIds.foldlM (sampleStored order runId rows symbols) (.new account, 0)
    let (replay, _) ← applyAccountUntil rows replay cursor durableThrough
    return setPnlMarks rows replay symbols durableThrough

/-- One trade of the memory window, sampled where its id is wanted. -/
def walkLive (order : HashOrder String Position) (wanted : List Nat) (replay : AccountPnlReplay)
    (trade : TradeRow) : Except PnlError AccountPnlReplay := do
  let replay ← replay.applyLiveTrade trade
  return if trade.tradeId ∈ wanted then replay.sample order trade.timestamp else replay

/-- The database of a run: its number, and its trades table where a reader is open. -/
structure RunHistory where
  runId : Option Int
  trades : Option StoredTrades

structure PnlQuery where
  account : AccountId
  points : Option Nat

namespace Totals

/-- The symbols an account has a position in. -/
def symbolsOf (t : Totals) (account : AccountId) : List String :=
  (t.positions.entries.filter (fun e => (ofLex e.1).1 = account)).map (fun e => (ofLex e.1).2)

/-- The id of the oldest trade in memory. -/
def windowFrom (t : Totals) : Nat := (t.trades.head?.map TradeRow.tradeId).getD 1

/-- What a replay starts the memory window from. -/
def replayBelow (order : HashOrder String Position) (t : Totals) (history : RunHistory)
    (account : AccountId) (sampleIds : List Nat) : Except PnlError AccountPnlReplay :=
  if 1 < t.windowFrom then
    match history.runId, history.trades with
    | none, _ => .error .noDatabase
    | some _, none => .error .noReader
    | some runId, some rows =>
        replayStored order runId rows account (t.symbolsOf account) t.windowFrom
          (sampleIds.takeWhile (· < t.windowFrom))
  else .ok (.new account)

def getPnl (order : HashOrder String Position) (t : Totals) (history : RunHistory)
    (params : PnlQuery) : Except PnlError (List PnlSeries) := do
  let account := params.account
  if t.symbolsOf account = [] ∨ t.tradesTotal = 0 then
    return [⟨account, []⟩]
  else do
    let sampleIds := pnlSampleIds t.tradesTotal (params.points.getD 200)
    let replay ← t.replayBelow order history account sampleIds
    let window := t.trades.filter (fun trade => trade.tradeId ≤ t.tradesTotal)
    let replay ← window.foldlM (walkLive order sampleIds) replay
    if replay.points.length ≠ sampleIds.length then
      .error (.sampleCount account sampleIds.length replay.points.length)
    else return [⟨account, replay.points⟩]

end Totals

/-! ## A request for positions -/

structure PositionsQuery where
  /-- Only this account. -/
  account : Option AccountId
  /-- Only the accounts above this one. -/
  since : Option AccountId
  n : Option Nat

/-- One account's totals, over all its symbols. -/
structure AccountView where
  account : AccountId
  realizedPnl : F64
  unrealizedPnl : F64
  totalPnl : F64
  deriving DecidableEq

/-- Takes one account into a page that keeps the lowest `n`. -/
def keepLowest (params : PositionsQuery) (n : Nat) (wanted : SortedMap AccountId Unit)
    (account : AccountId) : SortedMap AccountId Unit :=
  if params.account.any (· ≠ account) ∨ params.since.any (account ≤ ·) then wanted
  else
    let more := wanted.insert account ()
    if n < more.size then
      match more.last? with
      | some highest => more.erase highest.1
      | none => more
    else more

namespace Totals

/-- The last price of a symbol that has traded. -/
def lastTradeCents (t : Totals) (symbol : String) : Option Int :=
  ((t.aggregates.get? symbol).map SymbolAgg.lastTradeCents).filter (0 < ·)

/-- One position's part of its account's totals. -/
def addHolding (t : Totals) (sums : Int × Int) (holding : String × Position) : Int × Int :=
  let unrealized := ((t.lastTradeCents holding.1).map holding.2.unrealizedMills).getD 0
  (saturatingAdd sums.1 holding.2.realizedMills, saturatingAdd sums.2 unrealized)

def addToAccount (t : Totals) (wanted : SortedMap AccountId Unit)
    (accounts : SortedMap AccountId (Int × Int)) (e : AccountKey × Position) :
    SortedMap AccountId (Int × Int) :=
  let (account, symbol) := ofLex e.1
  if wanted.contains account then
    accounts.insert account (t.addHolding (accounts.getD account (0, 0)) (symbol, e.2))
  else accounts

def getPositions (order : HashOrder AccountKey Position) (t : Totals) (params : PositionsQuery) :
    List AccountView :=
  let n := min (params.n.getD 50) 1000
  let wanted := ((order.walk t.positions).map (fun e => (ofLex e.1).1)).foldl
    (keepLowest params n) .empty
  let accounts := (order.walk t.positions).foldl (t.addToAccount wanted) .empty
  accounts.entries.map (fun e =>
    { account := e.1
      realizedPnl := millsToF64 e.2.1
      unrealizedPnl := millsToF64 e.2.2
      totalPnl := millsToF64 (saturatingAdd e.2.1 e.2.2) })

end Totals

end Matcher
end VerifiableExchange
