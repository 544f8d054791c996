import VerifiableExchange.Feed.Sequencer

/-!
# Generate — the simulated traffic

What the generator publishes and what it remembers of it. The random numbers come as a `Draw`: the
market and the side it draws, the account, the price and the size of a quote and how long the quote
lives. The clock is an input too.
-/

namespace VerifiableExchange
namespace Feed

open Lib Merkle Logchain Inbox

/-- The markets, in the order the generator counts them. -/
def SYMBOLS : List String := ["MERKLE-USDC", "ETH-USDC", "BTC-USDC"]

def MAX_OPEN_ORDERS : Nat := 4000

def CANCELS_IN_A_ROW : Nat := 2

def TAKE_EVERY : Nat := 4

def TAKE_NEEDS_A_SIDE_OF : Nat := 2

/-- `0.85` as a binary64 value. -/
def QUOTING_SHARE : Rat := 7656119366529843 / 9007199254740992

/-- How many of the accounts quote. -/
def quotingAccounts (numAccounts : Nat) : Nat :=
  let quoting := (roundHalfAway ((roundToF64 (numAccounts * QUOTING_SHARE)).getD 0)).toNat
  max 1 (min quoting (max (numAccounts - 1) 1))

instance (priority := 2000) neZero_markets : NeZero 3 := ⟨by decide⟩

/-- What one message draws. -/
structure Draw where
  timestamp : UInt64
  market : Fin 3
  side : Side
  /-- The account of a crossing order, and the account of a quote. -/
  taking : AccountId
  quoting : AccountId
  /-- A quote's price and size, and how long it rests. -/
  priceCents : Int
  qtyTenths : Int
  life : Nat
  deriving DecidableEq

/-! ## The list of open orders -/

/-- The order the generator cancels on this message: the one whose life ended first. At the bound
the earliest deadline is due whether it has come or not. -/
def orderToTakeBack (opened : List OpenOrder) (nowMs : Nat) (atTheBound : Bool) : Option OpenOrder :=
  opened.foldl (fun found order =>
    if atTheBound = false ∧ nowMs < order.expiresAtMs then found
    else
      match found with
      | none => some order
      | some earlier => if order.expiresAtMs < earlier.expiresAtMs then some order else found) none

/-- Takes an order off the list and puts the last one in its place. -/
def swapRemove (opened : List OpenOrder) (order : OpenOrder) : List OpenOrder :=
  match opened.getLast? with
  | none => opened
  | some last => (opened.set (opened.idxOf order) last).dropLast

def atTheLevel (market : Nat) (side : Side) (priceCents : Int) (order : OpenOrder) : Bool :=
  order.market = market && order.side = side && order.priceCents = priceCents

def ordersOn (opened : List OpenOrder) (market : Nat) (side : Side) : Nat :=
  opened.countP fun order => order.market = market && order.side = side

/-- The best price on one side of one market. -/
def bestCents (opened : List OpenOrder) (market : Nat) (side : Side) : Option Int :=
  (opened.filter fun order => order.market = market && order.side = side).foldl
    (fun best order =>
      match best with
      | none => some order.priceCents
      | some price =>
          match side with
          | .buy => some (max price order.priceCents)
          | .sell => some (min price order.priceCents)) none

/-- The oldest of some orders. -/
def oldest (level : List OpenOrder) : Option OpenOrder :=
  level.foldl (fun found order =>
    match found with
    | none => some order
    | some older => if order.id < older.id then some order else found) none

structure Taken where
  priceCents : Int
  qtyTenths : Int
  order : OrderId
  deriving DecidableEq

/-- The level one crossing order takes: the oldest order at the best price of the other side. -/
def theBestLevel (opened : List OpenOrder) (market : Nat) (side : Side) : Option Taken :=
  if ordersOn opened market .buy < TAKE_NEEDS_A_SIDE_OF ∨
      ordersOn opened market .sell < TAKE_NEEDS_A_SIDE_OF then none
  else do
    let priceCents ← bestCents opened market side.opposite
    let order ← oldest (opened.filter (atTheLevel market side.opposite priceCents))
    if ordersOn opened market side.opposite - 1 < TAKE_NEEDS_A_SIDE_OF then none
    else if 0 < order.qtyTenths ∧ order.qtyTenths ≤ maxGridUnits then
      some ⟨priceCents, order.qtyTenths, order.id⟩
    else none

def aLevelToTake (opened : List OpenOrder) (market : Nat) (leaning : Side) : Side × Option Taken :=
  match theBestLevel opened market leaning with
  | some here => (leaning, some here)
  | none =>
      match theBestLevel opened market leaning.opposite with
      | some there => (leaning.opposite, some there)
      | none => (leaning, none)

/-- Whether an order arriving on a side trades with an order resting at a price. -/
def crosses (side : Side) (priceCents restingCents : Int) : Bool :=
  match side with
  | .buy => restingCents ≤ priceCents
  | .sell => priceCents ≤ restingCents

/-- The account's own open order that a quote at this price would trade with. -/
def ownOrderInTheWay (opened : List OpenOrder) (account : AccountId) (market : Nat) (side : Side)
    (priceCents : Int) : Option OpenOrder :=
  opened.find? fun order =>
    order.account = account && order.market = market && order.side ≠ side &&
      crosses side priceCents order.priceCents

/-! ## Numbers of a message -/

/-- A price in cents as the number a message carries. -/
def inPrice (priceCents : Int) : F64 := F64.quotient (max 1 (min priceCents maxGridUnits)) PRICE_SCALE

/-- A quantity in tenths as the number a message carries. -/
def inQuantity (qtyTenths : Int) : F64 :=
  F64.quotient (max 1 (min qtyTenths maxGridUnits)) QUANTITY_SCALE

/-- A value rounded to a whole number of steps, as a signed 64-bit integer. -/
def inSteps (value : F64) (scale : Nat) : Int := roundAsI64 value scale

/-- A price as whole cents, held inside the range the engine can represent. -/
def inCents (price : F64) : Int := max 1 (min (inSteps price PRICE_SCALE) maxGridUnits)

/-! ## One message -/

/-- Cancels one of the generator's own orders. -/
def cancelOf (id : OrderId) (timestamp : Nat) (order : OpenOrder) : OrderMessage :=
  .cancel {
    id := id
    timestamp := timestamp
    account := order.account
    targetId := order.id
    nonce := none }

def takeOf (id : OrderId) (draw : Draw) (side : Side) (taken : Taken) : OrderMessage :=
  .new {
    id := id
    timestamp := draw.timestamp.toNat
    account := draw.taking
    symbol := (SYMBOLS[draw.market.val]?).getD ""
    side := side
    price := inPrice taken.priceCents
    quantity := inQuantity taken.qtyTenths
    nonce := none
    terms := ⟨.limit, .immediateOrCancel, false⟩ }

def quoteOf (id : OrderId) (draw : Draw) (side : Side) : OrderMessage :=
  .new {
    id := id
    timestamp := draw.timestamp.toNat
    account := draw.quoting
    symbol := (SYMBOLS[draw.market.val]?).getD ""
    side := side
    price := inPrice draw.priceCents
    quantity := inQuantity draw.qtyTenths
    nonce := none
    terms := ⟨.limit, .goodTillCancel, false⟩ }

def openedBy (id : OrderId) (draw : Draw) (side : Side) : OpenOrder where
  id := id
  account := draw.quoting
  market := draw.market.val
  side := side
  priceCents := draw.priceCents
  qtyTenths := draw.qtyTenths
  expiresAtMs := saturatingAddU64 draw.timestamp.toNat draw.life

namespace Sequencer

/-- The order goes off the list. -/
def forget (state : Sequencer) (order : OpenOrder) : Sequencer :=
  { state with openOrders := swapRemove state.openOrders order }

/-- The next random message. A cancel of an order whose life has ended comes first, then a crossing
order when one is due, then a quote. -/
def generateMessage (state : Sequencer) (draw : Draw) : OrderMessage × Sequencer :=
  let (id, state) := state.takeId
  let timestamp := draw.timestamp.toNat
  let atTheBound := decide (MAX_OPEN_ORDERS ≤ state.openOrders.length)
  let mayCancel := atTheBound || decide (state.cancelsInARow < CANCELS_IN_A_ROW)
  match (if mayCancel then orderToTakeBack state.openOrders timestamp atTheBound else none) with
  | some order =>
      (cancelOf id timestamp order,
        { state.forget order with cancelsInARow := min (state.cancelsInARow + 1) 4294967295 })
  | none =>
  let state := { state with cancelsInARow := 0 }
  let due := decide (TAKE_EVERY ≤ (state.sinceCrossing + 1) % 4294967296) &&
    decide (quotingAccounts state.numAccounts < state.numAccounts)
  -- The markets take turns at the crossing orders, and a quote draws its market.
  let market := if due then state.crossings % 3 else draw.market.val
  let draw := { draw with market := Fin.ofNat 3 market }
  let (side, take) :=
    if due then aLevelToTake state.openOrders market draw.side else (draw.side, none)
  match take with
  | some taken =>
      (takeOf id draw side taken,
        { state with
          crossings := (state.crossings + 1) % 18446744073709551616
          sinceCrossing := 0
          openOrders := state.openOrders.filter fun held => held.id ≠ taken.order })
  | none =>
  let state := { state with sinceCrossing := min (state.sinceCrossing + 1) 4294967295 }
  match ownOrderInTheWay state.openOrders draw.quoting market side draw.priceCents with
  | some order => (cancelOf id timestamp order, state.forget order)
  | none =>
      (quoteOf id draw side,
        { state with openOrders := state.openOrders ++ [openedBy id draw side] })

/-- A burst, message by message. -/
def generateMessages (state : Sequencer) : List Draw → List OrderMessage × Sequencer
  | [] => ([], state)
  | draw :: rest =>
      let (msg, state) := state.generateMessage draw
      let (msgs, state) := generateMessages state rest
      (msg :: msgs, state)

/-- What one tick generates, and whether it was published. -/
def generate (sha256 : Bytes → Hash) (serde : Wire.Serde) (state : Sequencer) (draws : List Draw)
    (commits : Bool) : Except (Fault Empty) (Sequencer × Except SubmitError Unit) :=
  if state.logIsOpen = false then
    .ok (state, .error (.opening (min state.feed.lastId OPENING_MESSAGES)))
  else
    match state.feed.checkRetentionGrowth draws.length 0 0 with
    | .error detail => .ok (state, .error (.retention detail))
    | .ok () => do
        let (burst, state) := state.generateMessages draws
        let (state, outcome) ←
          sequence sha256 serde state (burst.map fun msg => (none, msg)) commits
        return (state, outcome.mapError .notPublished)

end Sequencer

/-! ## A restart reads the list back -/

/-- Takes orders off a level, oldest first, until the quantity is used up. -/
def takenAt (wanted : Int) : List OpenOrder → List OrderId
  | [] => []
  | held :: rest => if wanted ≤ 0 then [] else held.id :: takenAt (wanted - held.qtyTenths) rest

/-- Replays one stored message into the list of orders the generator holds open. -/
def replayIntoTheOpenOrders (opened : List OpenOrder) : OrderMessage → List OpenOrder
  | .new m =>
      match SYMBOLS.findIdx? (· = m.symbol) with
      | none => opened
      | some market =>
          let priceCents := inCents m.price
          if m.terms.orderType ≠ .limit ∨ m.terms.timeInForce ≠ .goodTillCancel then
            let level := (opened.filter (atTheLevel market m.side.opposite priceCents)).insertionSort
              fun a b => a.id ≤ b.id
            let taken := takenAt (inSteps m.quantity QUANTITY_SCALE) level
            opened.filter fun held => held.id ∉ taken
          else if MAX_OPEN_ORDERS ≤ opened.length then opened
          else
            opened ++ [{
              id := m.id
              account := m.account
              market := market
              side := m.side
              priceCents := priceCents
              qtyTenths := max 1 (min (inSteps m.quantity QUANTITY_SCALE) maxGridUnits)
              expiresAtMs := 0 }]
  | .cancel m => opened.filter fun held => held.id ≠ m.targetId
  | _ => opened

end Feed
end VerifiableExchange
