import VerifiableExchange.Lib.Float64Round
import VerifiableExchange.Matcher.Apply
import VerifiableExchange.Matcher.Root
import VerifiableExchange.Reporting
import VerifiableExchange.Store.Load
import VerifiableExchange.Wire

/-!
# Replay — a history run again against a run's claims

An audit runs the messages it is served through an engine of its own, one at a time, and compares
what the engine holds with what the run claimed and recorded: the state root at every claim's
boundary, the running trade count, and every trade. The claims and the trades come in pages, and
never more of them than the re-execution has reached.
-/

namespace VerifiableExchange
namespace Audit

open Lib Matcher Reporting Store

/-! ## What a run recorded -/

/-- A trade as recorded, cut down to what a re-execution must produce exactly. -/
structure DbTrade where
  tradeId : Nat
  timestamp : Nat
  symbol : String
  priceCents : Int
  qtyTenths : Int
  makerOrder : Nat
  makerAccount : Nat
  takerOrder : Nat
  takerAccount : Nat
  takerSide : String
  deriving DecidableEq

def sideText : Side → String
  | .buy => "Buy"
  | .sell => "Sell"

/-- A trade's price or quantity read back off the floating-point number the engine keeps it as. -/
def shownUnits (units : Int) (scale : Nat) : Int :=
  match F64.scaled (F64.quotient units scale) scale with
  | some value => clampI64 (roundHalfAway value)
  | none => 0

/-- The fields of a recorded trade that the re-execution disagrees with. -/
def tradeDifferences (ours : TradeRow) (theirs : DbTrade) : List String :=
  let note (field recorded replayed : String) (differs : Bool) : List String :=
    if differs then [s!"{field} {recorded} recorded, re-execution {replayed}"] else []
  let price := shownUnits ours.priceCents 100
  let quantity := shownUnits ours.qtyTenths 10
  note "id" (toString theirs.tradeId) (toString ours.tradeId) (ours.tradeId ≠ theirs.tradeId) ++
    note "symbol" theirs.symbol ours.symbol (ours.symbol ≠ theirs.symbol) ++
    note "price" s!"{theirs.priceCents} cents" s!"{price} cents" (price ≠ theirs.priceCents) ++
    note "quantity" s!"{theirs.qtyTenths} tenths" s!"{quantity} tenths"
      (quantity ≠ theirs.qtyTenths) ++
    note "maker order" (toString theirs.makerOrder) (toString ours.makerOrder)
      (ours.makerOrder ≠ theirs.makerOrder) ++
    note "maker account" (toString theirs.makerAccount) (toString ours.makerAccount.val)
      (ours.makerAccount.val ≠ theirs.makerAccount) ++
    note "taker order" (toString theirs.takerOrder) (toString ours.takerOrder)
      (ours.takerOrder ≠ theirs.takerOrder) ++
    note "taker account" (toString theirs.takerAccount) (toString ours.takerAccount.val)
      (ours.takerAccount.val ≠ theirs.takerAccount) ++
    note "taker side" theirs.takerSide (sideText ours.takerSide)
      (sideText ours.takerSide ≠ theirs.takerSide) ++
    note "timestamp" (toString theirs.timestamp) (toString ours.timestamp)
      (ours.timestamp ≠ theirs.timestamp)

/-! ## What the engine is asked -/

/-- The bytes the state root of a version hashes; version 4 ends with the operator key. -/
def rootPreimageOf (s : MatcherState) (version : Nat) : Bytes :=
  if version = 4 then
    field (utf8 "exchange-state-v4") ++ (leU64 s.lastSeen ++
      (counted listingBytes (s.symbols.entries.map (fun e => (e.1, e.2.terms))) ++
      (counted bookBytes (s.books.entries.map
        (fun e => (e.1, sideOrders e.2.bids, sideOrders e.2.asks))) ++
      (counted positionBytes s.positions.entries ++
      (rulesBytes s.rules ++ operatorBytes s.operatorKey)))))
  else s.rootPreimage

def stateRoot (env : Primitives) (s : MatcherState) (version : Nat) : Bytes :=
  env.sha256 (rootPreimageOf s version)

/-- One trade by its id, while the window still holds it. -/
def tradeAt (s : MatcherState) (tradeId : Nat) : Option TradeRow :=
  match s.trades.head? with
  | none => none
  | some first => if first.tradeId ≤ tradeId then s.trades[tradeId - first.tradeId]? else none

/-- Why the engine refused a message. -/
def outOfOrderText (expected got : OrderId) : String :=
  let why := if got < expected then "already consumed" else "the messages between them are missing"
  s!"feed message {got} arrived where {expected} was expected ({why})"

/-! ## The chain -/

/-- The chain over the messages as they go past, kept where the audit compares it. -/
structure ChainFold where
  chain : Bytes
  reached : OrderId
  counted : Nat
  headAt : Option OrderId
  atHead : Option Bytes
  cursor : OrderId
  atCursor : Option Bytes
  anchorsAt : List OrderId
  atAnchors : SortedMap OrderId Bytes

namespace ChainFold

/-- A head, a cursor or an anchor at message 0 stands on the empty chain. -/
def new (headAt : Option OrderId) (cursor : OrderId) (anchorsAt : List OrderId) : ChainFold where
  chain := MatcherState.emptyChain
  reached := 0
  counted := 0
  headAt := headAt
  atHead := if headAt = some 0 then some MatcherState.emptyChain else none
  cursor := cursor
  atCursor := if cursor = 0 then some MatcherState.emptyChain else none
  anchorsAt := anchorsAt
  atAnchors :=
    if anchorsAt.head? = some 0 then SortedMap.empty.insert 0 MatcherState.emptyChain
    else SortedMap.empty

def anchorsEnd (fold : ChainFold) : Option OrderId := fold.anchorsAt.getLast?

/-- Hashes one message's bytes into the chain. Nothing reads inside the message. -/
def feed (env : Primitives) (fold : ChainFold) (msg : ReadMessage) : ChainFold :=
  let chain := env.sha256 (fold.chain ++ msg.bytes)
  { fold with
    chain := chain
    reached := msg.id
    counted := if fold.headAt.any (fun at' => msg.id ≤ at') then fold.counted + 1 else fold.counted
    atHead := if fold.headAt = some msg.id then some chain else fold.atHead
    atCursor := if fold.cursor = msg.id then some chain else fold.atCursor
    atAnchors :=
      if msg.id ∈ fold.anchorsAt then fold.atAnchors.insert msg.id chain else fold.atAnchors }

end ChainFold

/-! ## The re-execution -/

/-- A history run again against a run's claims. -/
structure Replay where
  engine : MatcherState
  rootVersion : Nat
  /-- How far this audit's view reaches, where it had to fix a limit. -/
  horizon : Option OrderId
  /-- Claims whose boundary is not reached yet. -/
  ahead : List ClaimRow
  firstFrom : Option OrderId
  checkedFirstBefore : Bool
  lastNeeded : OrderId
  claimsEnded : Bool
  claimsSeen : Nat
  previous : Option ClaimRow
  roots : Check
  totals : Check
  trades : Check
  continuity : Check
  /-- Recorded trades that are fetched and not compared yet. -/
  pendingTrades : List DbTrade
  recordedTrades : Nat
  lastTradeId : Nat
  comparedTrades : Nat
  replayEnded : Bool
  tradesBound : Option Nat
  tradesEnded : Bool
  messagesReplayed : Nat
  boundariesChecked : Nat
  halted : Bool
  tooOld : Option TooOld
  lastTradesTotal : Option Nat
  anchorsAt : List OrderId
  atAnchors : SortedMap OrderId Bytes

namespace Replay

/-- A re-execution that has read nothing yet. -/
def new (env : Primitives) (engine : MatcherState) (rootVersion : Nat) (horizon : Option OrderId)
    (anchorsAt : List OrderId) : Replay where
  engine := engine
  rootVersion := rootVersion
  horizon := horizon
  ahead := []
  firstFrom := none
  checkedFirstBefore := false
  lastNeeded := 0
  claimsEnded := false
  claimsSeen := 0
  previous := none
  roots := .new "re-executed state roots match the claims"
  totals := .new "claimed trade counts match the re-execution"
  trades := .new "recorded trades match the re-execution"
  continuity := .new "claims form an unbroken chain of roots"
  pendingTrades := []
  recordedTrades := 0
  lastTradeId := 0
  comparedTrades := 0
  replayEnded := false
  tradesBound := none
  tradesEnded := false
  messagesReplayed := 0
  boundariesChecked := 0
  halted := false
  tooOld := none
  lastTradesTotal := none
  anchorsAt := anchorsAt
  atAnchors :=
    if anchorsAt.head? = some 0 then SortedMap.empty.insert 0 (stateRoot env engine rootVersion)
    else SortedMap.empty

/-! ### Claims -/

/-- The `from_msg` to ask the claims source for next. -/
def claimsCursor (r : Replay) : OrderId :=
  ((r.previous.map ClaimRow.fromMsg).or (r.ahead.getLast?.map ClaimRow.fromMsg)).getD 0

/-- Checks that a claim covers a range of ids and continues the claim before it. -/
def continues (r : Replay) (claim : ClaimRow) : Check :=
  let seen := r.claimsSeen + 1
  let check : Check := { r.continuity with checked := r.continuity.checked + 1 }
  let check :=
    if claim.fromMsg = 0 ∨ claim.toMsg < claim.fromMsg then
      check.fail (s!"claim {seen} covers messages {claim.fromMsg}..{claim.toMsg}, which is not " ++
        "a range of feed ids")
    else check
  match r.previous with
  | none => check
  | some previous =>
      let check : Check := { check with checked := check.checked + 1 }
      let check :=
        if claim.rootBefore ≠ previous.rootAfter then
          check.fail (s!"claim at message {claim.fromMsg} starts from a root claim at " ++
            s!"{previous.fromMsg} did not produce")
        else check
      match checkedAddU64 previous.toMsg 1 with
      | some next =>
          if next = claim.fromMsg then check
          else check.fail (s!"claim at message {claim.fromMsg} does not continue from message " ++
            s!"{previous.toMsg}: the next claimed message would be {next}")
      | none => check.fail s!"a claim ends at message {previous.toMsg}, which nothing can follow"

/-- Takes one claim. -/
def pushClaim (r : Replay) (claim : ClaimRow) : Replay :=
  { r with
    claimsSeen := r.claimsSeen + 1
    continuity := r.continues claim
    firstFrom := some (r.firstFrom.getD claim.fromMsg)
    lastNeeded := max r.lastNeeded claim.toMsg
    lastTradesTotal := some claim.tradesTotal
    previous := some claim
    ahead := r.ahead ++ [claim]
    claimsEnded := r.claimsEnded || r.horizon.any (fun at' => at' ≤ claim.toMsg) }

/-- Takes the claims of a page, up to one that reaches the horizon. -/
def pushEach (r : Replay) : List ClaimRow → Replay
  | [] => r
  | claim :: rest =>
      if r.horizon.any (fun at' => at' ≤ claim.toMsg) then r.pushClaim claim
      else (r.pushClaim claim).pushEach rest

/-- Takes one page of claims; an empty one is the end of them. -/
def pushClaims (r : Replay) (page : List ClaimRow) : Replay :=
  if page.isEmpty then { r with claimsEnded := true } else r.pushEach page

def wantsClaims (r : Replay) : Bool := !r.claimsEnded && r.ahead.isEmpty

def wantsMessages (r : Replay) : Bool := !r.halted && (!r.claimsEnded || !r.ahead.isEmpty)

/-! ### Messages -/

/-- Compares the state before the first claim with what that claim says. `none` is a panic. -/
def checkFirst (env : Primitives) (r : Replay) (id : OrderId) : Option Replay :=
  if r.checkedFirstBefore = false ∧ r.firstFrom = some id then
    r.ahead.head?.map fun claim =>
      let root := stateRoot env r.engine r.rootVersion
      let roots : Check := { r.roots with checked := r.roots.checked + 1 }
      { r with
        boundariesChecked := r.boundariesChecked + 1
        checkedFirstBefore := true
        roots :=
          if root = claim.rootBefore then roots
          else roots.fail (s!"state before message {id} hashes to {Logchain.toHex root}, the " ++
            s!"first claim says {Logchain.toHex claim.rootBefore}") }
  else some r

/-- Compares the state with a claim whose boundary it has reached. -/
def checkBoundary (env : Primitives) (r : Replay) (id : OrderId) (claim : ClaimRow) : Replay :=
  let root := stateRoot env r.engine r.rootVersion
  let roots : Check := { r.roots with checked := r.roots.checked + 1 }
  let totals : Check := { r.totals with checked := r.totals.checked + 1 }
  { r with
    boundariesChecked := r.boundariesChecked + 1
    roots :=
      if root = claim.rootAfter then roots
      else roots.fail (s!"after message {id} the state hashes to {Logchain.toHex root}, the " ++
        s!"claim says {Logchain.toHex claim.rootAfter}")
    totals :=
      if r.engine.tradesTotal = claim.tradesTotal then totals
      else totals.fail (s!"the claim for messages {claim.fromMsg}..{claim.toMsg} says " ++
        s!"{claim.tradesTotal} trades had executed by then, the re-execution had " ++
        s!"{r.engine.tradesTotal}") }

/-- Checks every claim boundary the message lands on. -/
def checkBoundaries (env : Primitives) (r : Replay) (id : OrderId) : List ClaimRow → Replay
  | [] => { r with ahead := [] }
  | claim :: rest =>
      if claim.toMsg = id then (r.checkBoundary env id claim).checkBoundaries env id rest
      else { r with ahead := claim :: rest }

/-- Applies one message, and checks every claim boundary it lands on. A panic is an error. -/
def apply (env : Primitives) (r : Replay) (raw : ReadMessage) : Except String Replay :=
  if r.halted ∨ r.lastNeeded < raw.id then .ok r
  else
    match raw.parsed with
    | .error tooOld => .ok { r with tooOld := some tooOld, halted := true }
    | .ok msg =>
        match r.checkFirst env msg.id with
        | none => .error "index out of bounds"
        | some r =>
            match r.engine.apply env msg (some raw.bytes) with
            | .error (.panicked site) => .error site
            | .error (.outOfOrder expected got) =>
                let roots : Check := { r.roots with checked := r.roots.checked + 1 }
                .ok { r with
                  halted := true
                  roots := roots.fail ("the feed's history cannot be re-executed: " ++
                    outOfOrderText expected got ++
                    s!". The claims after message {msg.id} were not checked") }
            | .ok engine =>
                let r : Replay := { r with
                  engine := engine
                  messagesReplayed := r.messagesReplayed + 1
                  atAnchors :=
                    if msg.id ∈ r.anchorsAt then
                      r.atAnchors.insert msg.id (stateRoot env engine r.rootVersion)
                    else r.atAnchors }
                .ok (r.checkBoundaries env msg.id r.ahead)

/-! ### Trades -/

/-- Compares recorded trades with re-executed ones, in order, as far as both go. -/
def compareEach (r : Replay) : List DbTrade → Replay
  | [] => { r with pendingTrades := [] }
  | row :: rest =>
      let next := r.comparedTrades + 1
      let counted : Replay := { r with
        comparedTrades := r.comparedTrades + 1
        recordedTrades := r.recordedTrades + 1 }
      match tradeAt r.engine next with
      | some ours =>
          let diffs := tradeDifferences ours row
          let trades :=
            if diffs.isEmpty then r.trades
            else r.trades.fail (s!"trade {row.tradeId}: " ++ "; ".intercalate diffs)
          { counted with trades := trades }.compareEach rest
      | none =>
          if next ≤ r.engine.tradesTotal then
            { counted with
              trades := r.trades.fail (s!"trade {row.tradeId} could not be compared: the " ++
                s!"re-execution has moved more than {tradeWindow} trades past it")
            }.compareEach rest
          else if r.replayEnded then
            { r with
              recordedTrades := r.recordedTrades + (row :: rest).length
              pendingTrades := [] }
          else { r with pendingTrades := row :: rest }

def compareTrades (r : Replay) : Replay := r.compareEach r.pendingTrades

def wantsTrades (r : Replay) : Bool :=
  !r.tradesEnded && r.pendingTrades.isEmpty && r.comparedTrades < r.engine.tradesTotal

/-- Fixes how far into the trades table this audit reads, where its view has a limit. -/
def setTradesBound (r : Replay) : Replay :=
  if r.horizon.isNone then r
  else
    let bound := r.lastTradesTotal.getD 0
    { r with
      tradesBound := some bound
      tradesEnded := r.tradesEnded || r.pendingTrades.any (fun row => bound < row.tradeId)
      pendingTrades := r.pendingTrades.filter (fun row => row.tradeId ≤ bound) }

/-- A row past the view this audit fixed. -/
def pastBound (r : Replay) (row : DbTrade) : Bool :=
  r.tradesBound.any (fun bound => bound < row.tradeId)

/-- The rows of a page, up to one past the bound. -/
def takeRows (r : Replay) : List DbTrade → Replay
  | [] => r
  | row :: rest =>
      if r.pastBound row then { r with tradesEnded := true }
      else
        { r with
          lastTradeId := max r.lastTradeId row.tradeId
          pendingTrades := r.pendingTrades ++ [row] }.takeRows rest

def pushTrades (r : Replay) (page : List DbTrade) : Replay := (r.takeRows page).compareTrades

/-! ### The end -/

/-- What one re-execution produced. -/
structure Result where
  coverage : Check
  continuity : Check
  roots : Check
  totals : Check
  trades : Check
  messagesReplayed : Nat
  boundariesChecked : Nat
  claimsTo : OrderId
  atAnchors : SortedMap OrderId Bytes

/-- The roots check at the end: the first claim's state was met, and every boundary. -/
def rootsAtEnd (r : Replay) : Check :=
  let roots :=
    match r.firstFrom with
    | some first =>
        if r.checkedFirstBefore then r.roots
        else
          let roots : Check := { r.roots with checked := r.roots.checked + 1 }
          roots.fail (s!"the feed's history has no message {first}, where the first claim " ++
            "starts, so the state that claim starts from was never checked")
    | none => r.roots
  match r.ahead with
  | [] => roots
  | unreached :: _ =>
      let roots : Check := { roots with checked := roots.checked + 1 }
      roots.fail (s!"{r.ahead.length} claim boundaries were never reached in the feed's " ++
        s!"history; the first is the claim for messages {unreached.fromMsg}..{unreached.toMsg}")

/-- The totals check at the end: the last claim's count against the table's. -/
def totalsAtEnd (r : Replay) : Check :=
  match r.lastTradesTotal with
  | none => r.totals
  | some total =>
      let totals : Check := { r.totals with checked := r.totals.checked + 1 }
      if total = r.recordedTrades then totals
      else
        let claimedTo := (r.previous.map ClaimRow.toMsg).getD 0
        totals.fail (s!"the last claim says {total} trades had executed by message {claimedTo}, " ++
          s!"the trades table holds {r.recordedTrades} rows for this run")

def tradesAtEnd (r : Replay) : Check :=
  let trades : Check := { r.trades with checked := max r.engine.tradesTotal r.recordedTrades }
  if r.engine.tradesTotal = r.recordedTrades then trades
  else trades.fail (s!"the run recorded {r.recordedTrades} trades, re-execution produced " ++
    s!"{r.engine.tradesTotal}")

/-- Whether the claims cover what the run committed. -/
def coverage (r : Replay) (cursor : OrderId) : Check :=
  let check : Check :=
    { Check.new "the claims cover everything the run committed" with checked := 1 }
  match r.previous with
  | none =>
      if cursor = 0 then check
      else check.fail (s!"this run committed feed messages up to {cursor} and holds no claims " ++
        "at all: its execution was never committed to and cannot be audited")
  | some last =>
      if last.toMsg = cursor then check
      else if last.toMsg < cursor then
        check.fail (s!"this run's claims stop at message {last.toMsg} but the run committed up " ++
          s!"to message {cursor}: messages {saturatingAddU64 last.toMsg 1}..{cursor} were " ++
          "executed without a claim over them")
      else
        check.fail (s!"this run's claims reach message {last.toMsg}, past the run's own cursor " ++
          s!"at {cursor}: they describe messages the run never committed")

/-- The checks, once every message and every recorded trade has gone past. -/
def finish (r : Replay) (cursor : OrderId) : Result :=
  let r := { r with replayEnded := true }.compareTrades
  { coverage := r.coverage cursor
    continuity := r.continuity
    roots := r.rootsAtEnd
    totals := r.totalsAtEnd
    trades := r.tradesAtEnd
    messagesReplayed := r.messagesReplayed
    boundariesChecked := r.boundariesChecked
    claimsTo := (r.previous.map ClaimRow.toMsg).getD 0
    atAnchors := r.atAnchors }

end Replay

end Audit
end VerifiableExchange
