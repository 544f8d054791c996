import VerifiableExchange.Ledger
import VerifiableExchange.Matcher.Position
import VerifiableExchange.Matcher.ReferencePrice

/-!
# State — everything the engine holds

The registry of symbols, the books with the index into them, and the state record one message
moves. A hash map of the source is a sorted map here: no step of the engine iterates one in
hash order.
-/

namespace VerifiableExchange
namespace Matcher

open Lib

/-! ## Listings and rules -/

/-- What the log says about one symbol. -/
structure Listing where
  priceStepCents : Int
  quantityStepTenths : Int
  listed : Bool
  /-- The message that opened this market. -/
  listedBy : OrderId
  deriving DecidableEq

abbrev SymbolRegistry := SortedMap String Listing

namespace SymbolRegistry

/-- The terms a symbol is listed on right now. -/
def listing (r : SymbolRegistry) (symbol : String) : Option Listing :=
  (r.get? symbol).filter (fun l => l.listed)

/-- Lists a symbol; `none` when it is listed already. -/
def list (r : SymbolRegistry) (symbol : String) (l : Listing) : Option SymbolRegistry :=
  if (listing r symbol).isSome then none else some (r.insert symbol l)

/-- Stops a symbol being tradable and keeps its row; `none` when it was not listed. -/
def delist (r : SymbolRegistry) (symbol : String) : Option SymbolRegistry :=
  (listing r symbol).map (fun l => r.insert symbol { l with listed := false })

end SymbolRegistry

/-- The version of the matching rules the log runs under, one this build knows. -/
structure RuleSet where
  version : Nat
  isKnown : 1 ≤ version ∧ version ≤ 2
  deriving DecidableEq

namespace RuleSet

def genesis : RuleSet := ⟨1, by decide⟩

def known (version : Nat) : Option RuleSet :=
  if h : 1 ≤ version ∧ version ≤ 2 then some ⟨version, h⟩ else none

def atLeast (rules : RuleSet) (version : Nat) : Bool := version ≤ rules.version

end RuleSet

structure ResourceLimits where
  maxActiveOrders : Nat
  maxPositions : Nat
  maxSymbols : Nat
  inRange : maxActiveOrders ≤ u64Max ∧ maxPositions ≤ u64Max ∧ maxSymbols ≤ u64Max
  deriving DecidableEq

/-- Every limit is positive, as `ResourceLimits::validate` asks. -/
def ResourceLimits.Valid (limits : ResourceLimits) : Prop :=
  0 < limits.maxActiveOrders ∧ 0 < limits.maxPositions ∧ 0 < limits.maxSymbols

instance (limits : ResourceLimits) : Decidable limits.Valid :=
  inferInstanceAs (Decidable (_ ∧ _))

/-! ## Books -/

/-- An order waiting in a book. Its price is the key of the level that holds it. -/
structure RestingOrder where
  id : OrderId
  account : AccountId
  qtyTenths : Int
  deriving DecidableEq

/-- The orders at one price, the oldest in front. -/
abbrev Level := List RestingOrder

abbrev Levels := SortedMap Int Level

/-- The buy orders and the sell orders for one symbol. -/
structure Book where
  bids : Levels
  asks : Levels
  deriving DecidableEq

namespace Book

def default : Book := ⟨.empty, .empty⟩

/-- The resting orders of one side. -/
def levels (book : Book) : Side → Levels
  | .buy => book.bids
  | .sell => book.asks

def setLevels (book : Book) (side : Side) (levels : Levels) : Book :=
  match side with
  | .buy => { book with bids := levels }
  | .sell => { book with asks := levels }

def isEmpty (book : Book) : Bool := book.bids.isEmpty && book.asks.isEmpty

@[simp] theorem levels_setLevels (book : Book) (side : Side) (l : Levels) :
    (book.setLevels side l).levels side = l := by
  cases side <;> rfl

@[simp] theorem levels_setLevels_of_ne (book : Book) {side other : Side} (h : other ≠ side)
    (l : Levels) : (book.setLevels side l).levels other = book.levels other := by
  cases side <;> cases other <;> first | rfl | exact absurd rfl h

@[simp] theorem levels_default (side : Side) : default.levels side = .empty := by
  cases side <;> rfl

end Book

namespace Levels

/-- Keeps a level under its price, and drops the price once no order waits at it. -/
def put (levels : Levels) (price : Int) (level : Level) : Levels :=
  if level = [] then levels.erase price else levels.insert price level

/-- The level at a price, with one more order at its back. -/
def pushBack (levels : Levels) (price : Int) (order : RestingOrder) : Levels :=
  levels.insert price (levels.getD price [] ++ [order])

theorem get?_put (levels : Levels) (price q : Int) (level : Level) :
    (put levels price level).get? q =
      if q = price then (if level = [] then none else some level) else levels.get? q := by
  unfold put
  split_ifs with hempty hq hq
  · simp [hq]
  · simp [hq]
  · simp [hq]
  · simp [hq]

end Levels

/-- Where an open order waits. -/
structure OrderRef where
  symbol : String
  side : Side
  priceCents : Int
  deriving DecidableEq

abbrev Books := SortedMap String Book

/-! ## Trades, listings and changes, as stored -/

structure TradeRow where
  tradeId : Nat
  timestamp : Nat
  symbol : String
  priceCents : Int
  qtyTenths : Int
  makerOrder : OrderId
  makerAccount : AccountId
  takerOrder : OrderId
  takerAccount : AccountId
  takerSide : Side
  deriving DecidableEq

structure ListingRow where
  symbol : String
  priceStepCents : Int
  quantityStepTenths : Int
  listed : Bool
  listedBy : OrderId
  deriving DecidableEq

/-- The running totals for one symbol. -/
structure SymbolAgg where
  lastTradeCents : Int
  volumeTenths : Int
  tradeCount : Nat
  deriving DecidableEq

def SymbolAgg.default : SymbolAgg := ⟨0, 0, 0⟩

/-- What one extension of the execution state holds. -/
inductive Extension
  | ledger (ledger : Ledger)
  | resourceLimits (limits : ResourceLimits)
  deriving DecidableEq

/-- The part of the state that is stored whole with every batch. -/
structure ExecutionState where
  rootVersion : Nat
  midWindows : SortedMap String MidWindowRow
  extensions : SortedMap String Extension
  deriving DecidableEq

/-- One change to write to disk. -/
inductive Change
  | executionState (execution : ExecutionState)
  | orderRested (row : OrderRow)
  | orderReduced (orderId : OrderId) (qtyTenths : Int)
  | orderClosed (orderId : OrderId)
  | traded (row : TradeRow)
  | consumed (message : OrderMessage)
  | symbolListed (row : ListingRow)
  | symbolDelisted (symbol : String)
  deriving DecidableEq

/-! ## The engine -/

/-- How many of the newest trades stay in memory. -/
def tradeWindow : Nat := 10000

def recentMessagesCap : Nat := 200

def recentChainsCap : Nat := 4096

/-- A bounded queue with one more entry at its back. -/
def pushCapped {α : Type*} (cap : Nat) (queue : List α) (a : α) : List α :=
  (if cap ≤ queue.length then queue.tail else queue) ++ [a]

structure MatcherState where
  executionExtensions : SortedMap String Extension
  resourceLimits : Option ResourceLimits
  symbols : SymbolRegistry
  books : Books
  openOrders : SortedMap OrderId OrderRef
  trades : List TradeRow
  tradesTotal : Nat
  aggregates : SortedMap String SymbolAgg
  positions : SortedMap AccountKey Position
  ledger : Ledger
  recentMessages : List OrderMessage
  lastSeen : OrderId
  messagesProcessed : Nat
  cancelsApplied : Nat
  cancelsIgnored : Nat
  cancelsRejected : Nat
  ordersIgnored : Nat
  kindsNotActedOn : Nat
  ordersIgnoredByKind : SortedMap String Nat
  rules : RuleSet
  operatorKey : Option Bytes
  listingsIgnored : Nat
  ordersDelisted : Nat
  pending : Option (List Change)
  feedSession : Option String
  feedChain : Option Bytes
  feedPubkey : Option String
  recentChains : List (OrderId × Bytes)
  mids : MidWindow
  deriving DecidableEq

/-- Why the engine did not get past a message. -/
inductive Fault
  /-- The message is not the next one of this history; nothing changed. -/
  | outOfOrder (expected got : OrderId)
  /-- An `expect` of the source did not hold. -/
  | panicked (site : String)
  deriving DecidableEq

/-- A value the source takes out with `expect`. -/
def expect {ε α : Type} (value : Except ε α) (site : String) : Except Fault α :=
  match value with
  | .ok a => .ok a
  | .error _ => .error (.panicked site)

@[simp] theorem expect_eq_ok {ε α : Type} {value : Except ε α} {site : String} {a : α} :
    expect value site = .ok a ↔ value = .ok a := by
  cases value <;> simp [expect]

/-- A record of one change, when the engine writes its state to disk at all. -/
def record (pending : Option (List Change)) (change : Change) : Option (List Change) :=
  pending.map (fun changes => changes ++ [change])

namespace MatcherState

/-- A hash chain over no messages. -/
def emptyChain : Bytes := List.replicate 32 0

/-- An empty engine, without funded balances. -/
def new : MatcherState where
  executionExtensions := .empty
  resourceLimits := none
  symbols := .empty
  books := .empty
  openOrders := .empty
  trades := []
  tradesTotal := 0
  aggregates := .empty
  positions := .empty
  ledger := .syntheticLegacy
  recentMessages := []
  lastSeen := 0
  messagesProcessed := 0
  cancelsApplied := 0
  cancelsIgnored := 0
  cancelsRejected := 0
  ordersIgnored := 0
  kindsNotActedOn := 0
  ordersIgnoredByKind := .empty
  rules := .genesis
  operatorKey := none
  listingsIgnored := 0
  ordersDelisted := 0
  pending := none
  feedSession := none
  feedChain := some emptyChain
  feedPubkey := none
  recentChains := []
  mids := .empty

/-- The one message id this engine accepts next. -/
def nextExpectedId (s : MatcherState) : OrderId := saturatingAddU64 s.lastSeen 1

def bestBidCents (s : MatcherState) (symbol : String) : Option Int :=
  (s.books.get? symbol).bind (fun book => book.bids.last?.map Prod.fst)

def bestAskCents (s : MatcherState) (symbol : String) : Option Int :=
  (s.books.get? symbol).bind (fun book => book.asks.first?.map Prod.fst)

end MatcherState

/-- The execution policy a run starts under. -/
structure ExecutionGenesis where
  ledgerMode : LedgerMode
  funding : Option FundingConfig
  resourceLimits : Option ResourceLimits
  deriving DecidableEq

namespace ExecutionGenesis

/-- The ledger this policy opens with. -/
def openingLedger (genesis : ExecutionGenesis) : Except String Ledger :=
  match genesis.ledgerMode, genesis.funding with
  | .syntheticLegacy, none => .ok Ledger.syntheticLegacy
  | .fundedSimulation, some config => Ledger.funded config
  | _, _ => .error "execution mode and genesis funding disagree"

/-- The limits this policy opens with, once they are checked. -/
def openingLimits (genesis : ExecutionGenesis) : Except String (Option ResourceLimits) := do
  require (∀ limits ∈ genesis.resourceLimits, limits.Valid) "resource limits must be positive"
  return genesis.resourceLimits

/-- An empty engine under this policy. An engine that records keeps every change it must write to
disk. -/
def opening (genesis : ExecutionGenesis) (session pubkey : Option String) (recording : Bool) :
    Except String MatcherState := do
  let ledger ← genesis.openingLedger
  let limits ← genesis.openingLimits
  return { MatcherState.new with
    ledger := ledger
    resourceLimits := limits
    feedSession := session
    feedPubkey := pubkey
    pending := if recording then some [] else none }

/-- An empty engine that replays the log a session names. -/
def replaying (genesis : ExecutionGenesis) (session : String) : Except String MatcherState :=
  genesis.opening (if session = "" then none else some session) none false

/-- The synthetic policy without limits, which `MatcherState::replaying` runs under. -/
def synthetic : ExecutionGenesis := ⟨.syntheticLegacy, none, none⟩

theorem opening_eq_ok {genesis : ExecutionGenesis} {session pubkey : Option String}
    {recording : Bool} {s : MatcherState} (h : genesis.opening session pubkey recording = .ok s) :
    ∃ ledger, genesis.openingLedger = .ok ledger ∧
      (∀ limits, genesis.resourceLimits = some limits → limits.Valid) ∧
      s = { MatcherState.new with
        ledger := ledger
        resourceLimits := genesis.resourceLimits
        feedSession := session
        feedPubkey := pubkey
        pending := if recording then some [] else none } := by
  simp only [opening, openingLimits, bind_eq_ok, require_eq_ok] at h
  obtain ⟨ledger, hledger, limits, ⟨_, hvalid, hlimits⟩, h⟩ := h
  cases hlimits
  cases h
  exact ⟨ledger, hledger, fun l hl => hvalid l (by simpa using hl), rfl⟩

end ExecutionGenesis

end Matcher
end VerifiableExchange
