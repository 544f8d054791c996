import VerifiableExchange.Matcher.Matching

/-!
# Apply — one message against the whole engine

`apply` runs the next message of the log. A refused order changes nothing but counters; a message
out of order changes nothing at all.
-/

namespace VerifiableExchange
namespace Matcher
namespace MatcherState

open Lib

/-! ## Pieces every kind shares -/

def ignoreOrder (s : MatcherState) (why : Rejected) : MatcherState :=
  { s with
    ordersIgnored := saturatingAddU64 s.ordersIgnored 1
    ordersIgnoredByKind := s.ordersIgnoredByKind.insert why.kind
      (match s.ordersIgnoredByKind.get? why.kind with
        | some counted => saturatingAddU64 counted 1
        | none => 1) }

/-- Drops a symbol's book once no order waits on either side of it. -/
def pruneBook (s : MatcherState) (symbol : String) : MatcherState :=
  { s with
    books := if (s.books.get? symbol).any Book.isEmpty then s.books.erase symbol else s.books }

/-- Records what a symbol's middle price became, after a message has finished with its book. -/
def observeMid (s : MatcherState) (symbol : String) (atMs : Nat) : MatcherState :=
  { s with
    mids := s.mids.observe symbol atMs
      ((s.bestBidCents symbol).bind (fun bid =>
        (s.bestAskCents symbol).map (fun ask => (bid + ask).tdiv 2))) }

/-- The parts a match of this symbol writes to, with a book created where there was none. -/
def bookAndTrades (s : MatcherState) (symbol : String) : BookAndTrades where
  book := s.books.getD symbol .default
  ledger := s.ledger
  openOrders := s.openOrders
  positions := s.positions
  aggregates := s.aggregates
  trades := s.trades
  tradesTotal := s.tradesTotal
  pending := s.pending

/-- The engine with those parts written back. -/
def withBookAndTrades (s : MatcherState) (symbol : String) (into : BookAndTrades) : MatcherState :=
  { s with
    books := s.books.insert symbol into.book
    ledger := into.ledger
    openOrders := into.openOrders
    positions := into.positions
    aggregates := into.aggregates
    trades := into.trades
    tradesTotal := into.tradesTotal
    pending := into.pending }

/-! ## New orders -/

def incomingOf (m : NewMessage) (terms : Int × Int) : IncomingOrder where
  id := m.id
  timestamp := m.timestamp
  account := m.account
  symbol := m.symbol
  side := m.side
  limitCents := terms.1
  qtyTenths := terms.2
  orderType := m.terms.orderType
  timeInForce := m.terms.timeInForce
  postOnly := m.terms.postOnly

/-- The capacity check between the first two steps. -/
def checkCapacity (s : MatcherState) : Except Rejected Unit :=
  require (∀ limits ∈ s.resourceLimits, s.openOrders.size < limits.maxActiveOrders)
    ⟨"active_order_capacity"⟩

/-- The checks that run before a book is created for the symbol. -/
def admitOrder (s : MatcherState) (m : NewMessage) : Except Rejected IncomingOrder := do
  let terms ← resolve s.symbols m.symbol m.price m.quantity
  s.checkCapacity
  let order := incomingOf m terms
  validate order (s.books.get? m.symbol)
  return order

/-- Steps 3 and 4 and the position limit: the order with the price it may fill at. -/
def effectiveOrder (s : MatcherState) (order : IncomingOrder) (book : Book) :
    Except Rejected IncomingOrder := do
  let limitCents ← bound order (s.mids.referenceCents order.symbol order.timestamp)
  let order := { order with limitCents := limitCents }
  checkSelfTrade order book s.rules
  match s.resourceLimits with
  | none => .ok order
  | some limits => do
      limits.checkPositions order book s.positions
      return order

/-- Plans a fill-or-kill order and its ledger whole, and checks any other order's funds. -/
def stage (order : IncomingOrder) (into : BookAndTrades) :
    Except Rejected (Option (FokPlan × Ledger)) :=
  match order.timeInForce with
  | .fillOrKill => do
      let plan ← stageFok order into.book into.positions into.tradesTotal
      let ledger ← stageFokLedger order plan into.ledger
      return some (plan, ledger)
  | _ => do
      preflight order into
      return none

/-- Step 5: commits the staged plan, or reserves and matches fill by fill. -/
def runMatch (order : IncomingOrder) (staged : Option (FokPlan × Ledger)) (into : BookAndTrades) :
    Except Fault (Matched × BookAndTrades) :=
  match staged with
  | some (plan, ledger) => executeFok order plan { into with ledger := ledger }
  | none => do
      let ledger ← expect (into.ledger.reserve order.id order.account order.symbol order.side
        order.limitCents order.qtyTenths) "complete funded plan accepted reservation"
      execute order { into with ledger := ledger }

/-- The remainder waits in the book. -/
def rest (order : IncomingOrder) (remaining : Int) (into : BookAndTrades) : BookAndTrades :=
  { into with
    book := into.book.setLevels order.side
      (Levels.pushBack (into.book.levels order.side) order.limitCents
        { id := order.id, account := order.account, qtyTenths := remaining })
    openOrders := into.openOrders.insert order.id
      { symbol := order.symbol, side := order.side, priceCents := order.limitCents }
    pending := record into.pending (.orderRested {
      orderId := order.id
      account := order.account
      symbol := order.symbol
      side := order.side
      priceCents := order.limitCents
      qtyTenths := remaining }) }

/-- Gives back what an order still holds aside. -/
def releaseFunds (ledger : Ledger) (id : OrderId) (site : String) : Except Fault Ledger := do
  let (ledger, _) ← expect (ledger.release id) site
  return ledger

/-- Step 6: what becomes of the quantity that did not fill. -/
def finishRemainder (order : IncomingOrder) (remaining : Int) (into : BookAndTrades) :
    Except Fault BookAndTrades :=
  if remaining ≤ 0 then .ok into
  else
    match decideRemainder order with
    | .rest => .ok (rest order remaining into)
    | .cancel => do
        let ledger ← releaseFunds into.ledger order.id "release checked remainder"
        return { into with ledger := ledger }

/-- The engine after a match, with its overflow counted or its remainder placed. -/
def finishMatch (s : MatcherState) (order : IncomingOrder) :
    Matched × BookAndTrades → Except Fault MatcherState
  | (.overflowed _, into) => do
      let ledger ← releaseFunds into.ledger order.id "release checked order obligation"
      return (((s.withBookAndTrades order.symbol { into with ledger := ledger }).ignoreOrder
        ⟨"position_overflow"⟩).pruneBook order.symbol).observeMid order.symbol order.timestamp
  | (.crossed remaining, into) => do
      let into ← finishRemainder order remaining into
      return ((s.withBookAndTrades order.symbol into).pruneBook order.symbol).observeMid
        order.symbol order.timestamp

/-- Everything decided about an order on its book before its first effect. -/
def prepare (s : MatcherState) (order : IncomingOrder) (into : BookAndTrades) :
    Except Rejected (IncomingOrder × Option (FokPlan × Ledger)) := do
  let order ← s.effectiveOrder order into.book
  let staged ← stage order into
  return (order, staged)

/-- Runs an admitted order against the symbol's book. -/
def matchOrder (s : MatcherState) (order : IncomingOrder) : Except Fault MatcherState :=
  let into := s.bookAndTrades order.symbol
  match s.prepare order into with
  | .error why =>
      .ok (((s.withBookAndTrades order.symbol into).pruneBook order.symbol).ignoreOrder why)
  | .ok (order, staged) =>
      match runMatch order staged into with
      | .error fault => .error fault
      | .ok matched => s.finishMatch order matched

/-- Runs one `New` message through the six matching steps, in order. -/
def applyNew (s : MatcherState) (m : NewMessage) : Except Fault MatcherState :=
  match s.admitOrder m with
  | .error why => .ok (s.ignoreOrder why)
  | .ok order => s.matchOrder order

/-! ## Operator messages -/

def ignoreListing (s : MatcherState) : MatcherState :=
  { s with listingsIgnored := saturatingAddU64 s.listingsIgnored 1 }

/-- Whether the key this log named signed this operator message; the first one names the key. -/
def operatorSigned (env : Primitives) (s : MatcherState) (message : OrderMessage) :
    MatcherState × Bool :=
  let session := s.feedSession.getD ""
  match s.operatorKey with
  | some key =>
      if Operator.verify env message session key then (s, true) else (s.ignoreListing, false)
  | none =>
      match Operator.namedKey env message with
      | none => (s.ignoreListing, false)
      | some key =>
          if Operator.verify env message session key then
            ({ s with operatorKey := some key }, true)
          else (s.ignoreListing, false)

/-- The listing a `ListSymbol` message asks for, where it may be opened. -/
def listingOf (s : MatcherState) (m : ListSymbolMessage) : Option Listing :=
  if ¬Operator.validSymbol m.symbol then none
  else if ∃ limits ∈ s.resourceLimits,
      s.symbols.contains m.symbol = false ∧ limits.maxSymbols ≤ s.symbols.size then none
  else
    match toGrid m.priceStep 100, toGrid m.quantityStep 10 with
    | some priceStepCents, some quantityStepTenths => some {
        priceStepCents := priceStepCents
        quantityStepTenths := quantityStepTenths
        listed := true
        listedBy := m.id }
    | _, _ => none

/-- Adds a symbol to the registry, on the steps the message names. -/
def applyListSymbol (s : MatcherState) (m : ListSymbolMessage) : MatcherState :=
  match s.listingOf m with
  | none => s.ignoreListing
  | some listing =>
      match SymbolRegistry.list s.symbols m.symbol listing with
      | none => s.ignoreListing
      | some symbols =>
          { s with
            symbols := symbols
            pending := record s.pending (.symbolListed {
              symbol := m.symbol
              priceStepCents := listing.priceStepCents
              quantityStepTenths := listing.quantityStepTenths
              listed := true
              listedBy := m.id }) }

/-- Takes one order of a delisted book out of the ledger and the index. -/
def closeResting (s : MatcherState) (resting : RestingOrder) : Except Fault MatcherState := do
  let ledger ← releaseFunds s.ledger resting.id "release checked delisted obligation"
  return { s with
    ledger := ledger
    openOrders := s.openOrders.erase resting.id
    pending := record s.pending (.orderClosed resting.id) }

/-- Every order of a book, the bids first. -/
def restingOrders (book : Book) : List RestingOrder :=
  (book.bids.entries ++ book.asks.entries).flatMap (fun entry => entry.2)

/-- Takes the whole book of a symbol away. -/
def clearBook (s : MatcherState) (symbol : String) : Except Fault MatcherState :=
  match s.books.get? symbol with
  | none => .ok s
  | some book => do
      let orders := restingOrders book
      let cleared ← orders.foldlM closeResting { s with books := s.books.erase symbol }
      return { cleared with
        ordersDelisted := saturatingAddU64 cleared.ordersDelisted orders.length }

/-- Stops a symbol being tradable, and takes every waiting order out of its book. -/
def applyDelistSymbol (s : MatcherState) (m : DelistSymbolMessage) : Except Fault MatcherState :=
  match SymbolRegistry.delist s.symbols m.symbol with
  | none => .ok s.ignoreListing
  | some symbols => do
      let cleared ← clearBook { s with symbols := symbols } m.symbol
      let observed := cleared.observeMid m.symbol m.timestamp
      return { observed with pending := record observed.pending (.symbolDelisted m.symbol) }

/-- The rule set the messages after this one run under. -/
def applyEngineRule (s : MatcherState) (m : EngineRuleMessage) : MatcherState :=
  match RuleSet.known m.version with
  | some rules => { s with rules := rules }
  | none => { s with kindsNotActedOn := saturatingAddU64 s.kindsNotActedOn 1 }

/-! ## Cancels -/

/-- The account that owns an open order, with where the order waits. -/
def ownerOf (s : MatcherState) (target : OrderId) : Option (OrderRef × AccountId) := do
  let ref ← s.openOrders.get? target
  let book ← s.books.get? ref.symbol
  let level ← (book.levels ref.side).get? ref.priceCents
  let resting ← level.find? (fun resting => resting.id = target)
  return (ref, resting.account)

/-- The book of a cancelled order without it. -/
def withoutOrder (book : Book) (ref : OrderRef) (target : OrderId) : Book :=
  match (book.levels ref.side).get? ref.priceCents with
  | none => book
  | some level =>
      book.setLevels ref.side (Levels.put (book.levels ref.side) ref.priceCents
        (level.filter (fun resting => resting.id ≠ target)))

/-- Removes an order its own account cancelled. -/
def removeCancelled (s : MatcherState) (ref : OrderRef) (target : OrderId) (timestamp : Nat) :
    Except Fault MatcherState := do
  let ledger ← releaseFunds s.ledger target "release checked cancelled obligation"
  let book ← expect (orFail (s.books.get? ref.symbol) ())
    "open order index points at an existing book"
  let removed := ({ s with
    ledger := ledger
    openOrders := s.openOrders.erase target
    books := s.books.insert ref.symbol (withoutOrder book ref target) }.pruneBook
      ref.symbol).observeMid ref.symbol timestamp
  return { removed with
    cancelsApplied := saturatingAddU64 removed.cancelsApplied 1
    pending := record removed.pending (.orderClosed target) }

/-- Removes the target order, when it is open and the account that asks owns it. -/
def applyCancel (s : MatcherState) (m : CancelMessage) : Except Fault MatcherState :=
  match s.ownerOf m.targetId with
  | none => .ok { s with
      openOrders := s.openOrders.erase m.targetId
      cancelsIgnored := saturatingAddU64 s.cancelsIgnored 1 }
  | some (ref, owner) =>
      if owner ≠ m.account then
        .ok { s with cancelsRejected := saturatingAddU64 s.cancelsRejected 1 }
      else s.removeCancelled ref m.targetId m.timestamp

/-! ## One message -/

/-- An operator message that acts only when its signature stands. -/
def whenSigned (env : Primitives) (s : MatcherState) (message : OrderMessage)
    (act : MatcherState → Except Fault MatcherState) : Except Fault MatcherState :=
  match operatorSigned env s message with
  | (s, true) => act s
  | (s, false) => .ok s

/-- What the message itself does, before the engine counts it as consumed. -/
def dispatch (env : Primitives) (s : MatcherState) (message : OrderMessage) :
    Except Fault MatcherState :=
  match message with
  | .new m => s.applyNew m
  | .cancel m => s.applyCancel m
  | .listSymbol m => whenSigned env s message (fun s => .ok (s.applyListSymbol m))
  | .delistSymbol m => whenSigned env s message (fun s => s.applyDelistSymbol m)
  | .engineRule m => whenSigned env s message (fun s => .ok (s.applyEngineRule m))

/-- The chain after one more message, over the bytes that arrived or the ones written here. -/
def extendChain (env : Primitives) (chain : Bytes) (message : OrderMessage)
    (received : Option Bytes) : Bytes :=
  env.sha256 (chain ++ received.getD (env.canonicalBytes message))

/-- Counts one message as consumed. -/
def consume (env : Primitives) (s : MatcherState) (message : OrderMessage)
    (received : Option Bytes) : Except Fault MatcherState := do
  let ledger ← expect (s.ledger.finishSequence message.id)
    "matcher and ledger share the checked sequence"
  let chain := s.feedChain.map (fun chain => extendChain env chain message received)
  return { s with
    ledger := ledger
    lastSeen := message.id
    messagesProcessed := saturatingAddU64 s.messagesProcessed 1
    feedChain := chain
    recentChains :=
      match chain with
      | some chain => pushCapped recentChainsCap s.recentChains (message.id, chain)
      | none => s.recentChains
    recentMessages := pushCapped recentMessagesCap s.recentMessages message
    pending := record s.pending (.consumed message) }

/-- Runs one message; `received` is the bytes the sequencer served for it, when there are any. -/
def apply (env : Primitives) (s : MatcherState) (message : OrderMessage)
    (received : Option Bytes) : Except Fault MatcherState :=
  if message.id ≠ s.nextExpectedId then .error (.outOfOrder s.nextExpectedId message.id)
  else
    match dispatch env s message with
    | .error fault => .error fault
    | .ok s => consume env s message received

end MatcherState
end Matcher
end VerifiableExchange
