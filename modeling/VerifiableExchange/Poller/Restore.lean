import VerifiableExchange.Matcher.Limits
import VerifiableExchange.Matcher.Root
import VerifiableExchange.Store.Load

/-!
# Restore — the engine of a run read back

The engine a run resumes as: its policy, its registry, its books and its counters from the
snapshot, and its positions and totals from the trades, one at a time. Where the source ends the
process, the functions here answer with its reason.
-/

namespace VerifiableExchange

open Lib Store

/-! ## The ledger and the limits -/

namespace Ledger

/-- A stored ledger read back. Under the synthetic policy it can hold nothing. -/
def fromSnapshot (snapshot : Ledger) : Except String Ledger :=
  match snapshot.mode with
  | .syntheticLegacy => do
      require (snapshot.config = none ∧ snapshot.balances.isEmpty = true ∧
        snapshot.reservations.isEmpty = true) "synthetic ledger cannot contain funded state"
      return { syntheticLegacy with lastSequence := snapshot.lastSequence }
  | .fundedSimulation => do
      let config ← orFail snapshot.config "funded config missing"
      let opened ← funded config
      let ledger : Ledger := { opened with
        lastSequence := snapshot.lastSequence
        balances := snapshot.balances
        reservations := snapshot.reservations }
      require (∀ e ∈ snapshot.reservations.entries, e.1 ≠ 0 ∧ e.1 ≤ snapshot.lastSequence)
        "reservation is outside applied history"
      ledger.validate
      return ledger

end Ledger

namespace Matcher

/-- The policy a stored execution state names. -/
def ExecutionGenesis.fromExecutionState (execution : ExecutionState) :
    Except String ExecutionGenesis := do
  require (execution.rootVersion = 5) "unsupported execution root version"
  execution.extensions.entries.forM fun e =>
    require (e.1 = ledgerExtension ∨ e.1 = resourceLimitsExtension)
      s!"unsupported execution extension {e.1}"
  let ledger ←
    match execution.extensions.get? ledgerExtension with
    | some (.ledger snapshot) => Ledger.fromSnapshot snapshot
    | some (.resourceLimits _) => .error "invalid ledger snapshot"
    | none => .error "missing ledger-v1 execution snapshot"
  let limits ←
    match execution.extensions.get? resourceLimitsExtension with
    | some (.resourceLimits limits) => do
        require limits.Valid "resource limits must be positive"
        .ok (some limits)
    | some (.ledger _) => .error "resource limits snapshot must contain exactly 28 bytes"
    | none => .ok none
  return ⟨ledger.mode, ledger.config, limits⟩

/-! ## The mid prices -/

/-- What one sample adds to the two sums, held until the next one. -/
def SymbolWindow.closing (clipMs : Nat) (from' next : Sample) (sums : Int × Int) : Int × Int :=
  match from'.2 with
  | none => sums
  | some mid =>
      let held : Int := (next.1 - max from'.1 clipMs : Nat)
      (sums.1 + mid * held, sums.2 + held)

def SymbolWindow.closedSums (clipMs : Nat) : List Sample → Int × Int → Int × Int
  | first :: second :: rest, sums =>
      closedSums clipMs (second :: rest) (closing clipMs first second sums)
  | _, sums => sums

namespace MidWindow

/-- A stored window that no run could have written is refused. -/
def sound (row : MidWindowRow) : Prop :=
  row.samples ≠ [] ∧ row.samples.length ≤ windowMs + 1 ∧
    (row.samples.map Prod.fst).IsChain (· < ·) ∧
    ∀ sample ∈ row.samples, ∀ mid, sample.2 = some mid → 0 < mid

instance (row : MidWindowRow) : Decidable (sound row) := inferInstanceAs (Decidable (_ ∧ _))

def restore (rows : SortedMap String MidWindowRow) : Except StoreError MidWindow := do
  rows.entries.forM fun e =>
    require (sound e.2) (StoreError.corrupt "invalid MidWindow samples")
  return rows.mapValues fun row =>
    let sums := SymbolWindow.closedSums row.clipMs row.samples (0, 0)
    { samples := row.samples, closedWeighted := sums.1, closedWeight := sums.2,
      clipMs := row.clipMs }

end MidWindow

/-! ## The registry, the books and the trades -/

def SymbolRegistry.fromRows (rows : List ListingRow) : SymbolRegistry :=
  SortedMap.ofList (rows.map (fun row =>
    (row.symbol, ⟨row.priceStepCents, row.quantityStepTenths, row.listed, row.listedBy⟩)))

namespace MatcherState

/-- Why a run cannot be resumed. -/
inductive NotResumed
  | policy (reason : String)
  | limits (reason : String)
  | window (error : StoreError)
  | tradesRead (count total : Nat)
  | ledger (reason : String)
  | capacity (reason : String)
  deriving DecidableEq

/-- An empty engine that records every change it must write to disk. -/
def recording : MatcherState := { MatcherState.new with pending := some [] }

/-- A resting order back in its book, behind the orders already there. -/
def replaceOrder (s : MatcherState) (row : OrderRow) : MatcherState :=
  let book := s.books.getD row.symbol .default
  { s with
    books := s.books.insert row.symbol (book.setLevels row.side
      (Levels.pushBack (book.levels row.side) row.priceCents
        ⟨row.orderId, row.account, row.qtyTenths⟩))
    openOrders := s.openOrders.insert row.orderId ⟨row.symbol, row.side, row.priceCents⟩ }

/-- One side of a stored trade. A fill the position cannot take leaves it as it was. -/
def replayFill (row : TradeRow) (positions : SortedMap AccountKey Position)
    (who : AccountId × Side) : SortedMap AccountKey Position :=
  let key := Ledger.accountKey who.1 row.symbol
  let before := positions.getD key .default
  positions.insert key ((before.afterFill who.2 row.qtyTenths row.priceCents).getD before)

/-- One stored trade: the maker's fill, the taker's fill, and the totals of its symbol. -/
def replayTrade (s : MatcherState) (row : TradeRow) : MatcherState :=
  let agg := s.aggregates.getD row.symbol .default
  { s with
    positions := [(row.makerAccount, row.takerSide.opposite), (row.takerAccount, row.takerSide)].foldl
      (replayFill row) s.positions
    aggregates := s.aggregates.insert row.symbol
      { lastTradeCents := row.priceCents
        volumeTenths := saturatingAdd agg.volumeTenths row.qtyTenths
        tradeCount := saturatingAddU64 agg.tradeCount 1 }
    trades := pushCapped tradeWindow s.trades row
    tradesTotal := saturatingAddU64 s.tradesTotal 1 }

/-- The ledger back in place, against the cursor and the orders already there. -/
def restoreLedger (s : MatcherState) (snapshot : Ledger) : Except String MatcherState := do
  require (snapshot.lastSequence = s.lastSeen) "ledger cursor differs from matcher cursor"
  let restored ← Ledger.fromSnapshot snapshot
  restored.validateObligations (restingRows s.books)
  return { s with ledger := restored }

/-- What a snapshot says outright, before its orders and its trades. -/
def restoreCounters (env : Primitives) (snapshot : Snapshot) (limits : Option ResourceLimits)
    (mids : MidWindow) : MatcherState :=
  let counters := snapshot.counters
  { recording with
    executionExtensions := snapshot.executionState.extensions
    resourceLimits := limits
    symbols := SymbolRegistry.fromRows snapshot.listings
    lastSeen := counters.lastSeen
    messagesProcessed := counters.messagesProcessed
    cancelsApplied := counters.cancelsApplied
    cancelsIgnored := counters.cancelsIgnored
    ordersIgnored := counters.ordersIgnored
    ordersIgnoredByKind := counters.ordersIgnoredByKind
    rules := (RuleSet.known counters.ruleVersion).getD .genesis
    operatorKey := counters.operatorKey.filter env.isVerifyingKey
    feedSession := snapshot.feedSession
    feedChain := counters.chain
    feedPubkey := snapshot.feedPubkey
    recentChains := counters.chain.elim [] (fun chain => [(counters.lastSeen, chain)])
    mids := mids }

/-- Only a run that never consumed a message may come without a policy. -/
def checkPolicy (snapshot : Snapshot) : Except NotResumed Unit :=
  match ExecutionGenesis.fromExecutionState snapshot.executionState with
  | .ok _ => .ok ()
  | .error reason =>
      require (snapshot.counters.lastSeen = 0 ∧
        snapshot.executionState.extensions.isEmpty = true) (NotResumed.policy reason)

def restoreLimits (extensions : SortedMap String Extension) :
    Except NotResumed (Option ResourceLimits) :=
  match extensions.get? resourceLimitsExtension with
  | some (.resourceLimits limits) => do
      require limits.Valid (NotResumed.limits "resource limits must be positive")
      return some limits
  | some (.ledger _) =>
      .error (NotResumed.limits "resource limits snapshot must contain exactly 28 bytes")
  | none => .ok none

/-- The stored ledger in place, where the run stored one. -/
def restoreExtensions (s : MatcherState) (extensions : SortedMap String Extension) :
    Except NotResumed MatcherState :=
  match extensions.get? ledgerExtension with
  | some (.ledger ledger) => (s.restoreLedger ledger).mapError NotResumed.ledger
  | some (.resourceLimits _) | none => .ok s

/-- Rebuilds an engine from a run read back out of the database. -/
def restore (env : Primitives) (snapshot : Snapshot) (trades : List TradeRow) :
    Except NotResumed MatcherState := do
  checkPolicy snapshot
  let limits ← restoreLimits snapshot.executionState.extensions
  let mids ← (MidWindow.restore snapshot.executionState.midWindows).mapError NotResumed.window
  let s := snapshot.orders.foldl replaceOrder (restoreCounters env snapshot limits mids)
  let s := trades.foldl replayTrade s
  require (trades.length = snapshot.tradesTotal)
    (NotResumed.tradesRead trades.length snapshot.tradesTotal)
  let s ← { s with recentMessages := snapshot.recent }.restoreExtensions
    snapshot.executionState.extensions
  s.validateResourceCapacity.mapError NotResumed.capacity
  return s

end MatcherState
end Matcher
end VerifiableExchange
