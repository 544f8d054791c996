import VerifiableExchange.Reporting
import VerifiableExchange.Verify.Listings
import VerifiableExchange.Verify.MidHistory

/-!
# NamedOrders — the orders the trade record has not finished with

An entry opens at the message that published the order and closes when the last row that names the
order has been checked. What a listing message does to a walk is written here too: a delist closes
the orders of its market here, in the book and in the mid prices.
-/

namespace VerifiableExchange

open Lib Reporting

namespace Verify

/-- The largest 32-bit count. -/
def u32Max : Nat := 4294967295

/-- One order the trade record names. -/
structure NamedOrder where
  order : Option FeedOrder
  /-- How many rows of the trade record still name this id, on either side. -/
  owed : Nat
  filled : Int
  anyFill : Bool
  /-- The first cancel that could have taken effect on this order. -/
  cancelledBy : Option OrderId
  /-- The message that closed the whole market of this order. -/
  delistedBy : Option OrderId
  refused : Bool
  deriving DecidableEq

abbrev NamedOrders := SortedMap OrderId NamedOrder

/-- Whether a cancel could have removed an order placed by `owner`. -/
def cancelTakesEffect (owner : Option AccountId) (id : OrderId) (account : AccountId)
    (targetId : OrderId) : Bool :=
  targetId < id && owner = some account

/-- The one check an order answers as its entry closes. -/
def close (id : OrderId) (entry : NamedOrder) (overfill : Check) : Check :=
  if !entry.anyFill then overfill
  else
    let overfill := { overfill with checked := overfill.checked + 1 }
    match entry.order with
    | none => overfill
    | some order =>
        if order.qtyTenths < entry.filled then
          overfill.fail
            s!"order {id} offered {order.qtyTenths} tenths but was filled {entry.filled}"
        else overfill

namespace NamedOrders

def newEntry : NamedOrder := ⟨none, 0, 0, false, none, none, false⟩

/-- Notes that one more row of the trade record names this id. -/
def wanted (named : NamedOrders) (id : OrderId) : NamedOrders :=
  let entry := named.getD id newEntry
  named.insert id { entry with owed := min (entry.owed + 1) u32Max }

/-- Changes the entry of one id, where there is one. -/
def update (named : NamedOrders) (id : OrderId) (change : NamedOrder → NamedOrder) : NamedOrders :=
  match named.get? id with
  | some entry => named.insert id (change entry)
  | none => named

/-- Records what the sequencer published as `id`. The first order that carries an id is kept. -/
def published (named : NamedOrders) (id : OrderId) (message : OrderMessage)
    (listings : Listings) : NamedOrders :=
  named.update id (fun entry =>
    if entry.order.isNone then { entry with order := FeedOrder.published message listings }
    else entry)

/-- The order the sequencer published as `id`. -/
def orderOf (named : NamedOrders) (id : OrderId) : Option FeedOrder :=
  (SortedMap.get? named id).bind NamedOrder.order

/-- Whether this walk has reached the message that published `id`. -/
def reached (named : NamedOrders) (id : OrderId) : Bool := named.contains id

/-- Records the first cancel that could have taken effect on `targetId`. -/
def cancelled (named : NamedOrders) (targetId cancelId : OrderId) (account : AccountId) :
    NamedOrders :=
  named.update targetId (fun entry =>
    if cancelTakesEffect (entry.order.map FeedOrder.account) cancelId account targetId then
      { entry with cancelledBy := entry.cancelledBy.or (some cancelId) }
    else entry)

/-- Records that the self-trade rule refused this order when it arrived. -/
def refusedOn (named : NamedOrders) (id : OrderId) : NamedOrders :=
  named.update id (fun entry => { entry with refused := true })

/-- The two messages that could have taken an order out of the book before a trade named it. -/
def closed (named : NamedOrders) (id : OrderId) : Option OrderId × Option OrderId :=
  match SortedMap.get? named id with
  | some entry => (entry.cancelledBy, entry.delistedBy)
  | none => (none, none)

/-- Adds one row's quantity to an order's filled total. -/
def filled (named : NamedOrders) (id : OrderId) (qtyTenths : Int) : NamedOrders :=
  named.update id (fun entry =>
    { entry with filled := saturatingAdd entry.filled qtyTenths, anyFill := true })

/-- Records that a delist closed every order held for `symbol`. -/
def delistedOn (named : NamedOrders) (symbol : String) (closedBy : OrderId) : NamedOrders :=
  SortedMap.mapValues named (fun entry =>
    if entry.order.any (fun order => order.symbol = symbol) then
      { entry with delistedBy := entry.delistedBy.or (some closedBy) }
    else entry)

/-- Takes one row off an order's count, and closes the entry once no row names the order. -/
def doneWith (named : NamedOrders) (id : OrderId) (overfill : Check) : NamedOrders × Check :=
  match SortedMap.get? named id with
  | none => (named, overfill)
  | some entry =>
      let entry := { entry with owed := entry.owed - 1 }
      if entry.owed = 0 then (named.erase id, close id entry overfill)
      else (named.insert id entry, overfill)

/-- Closes every entry still open, in id order. -/
def finish (named : NamedOrders) (overfill : Check) : Check :=
  named.entries.foldl (fun overfill entry => close entry.1 entry.2 overfill) overfill

end NamedOrders

/-! ## A listing message on a walk -/

namespace ReplayBook

/-- The mid price this book shows, rounded down. -/
def midCents (book : ReplayBook) (symbol : String) : Option Int := do
  let bids ← book.levels symbol .buy
  let (bestBid, _) ← bids.last?
  let asks ← book.levels symbol .sell
  let (bestAsk, _) ← asks.first?
  return (bestBid + bestAsk).tdiv 2

end ReplayBook

/-- What a listing message moves on the walk that holds a book. -/
structure Markets where
  openSymbols : Listings
  book : ReplayBook
  mids : MidHistory
  named : NamedOrders

/-- The open symbols after an operator message that acts. -/
def Listings.after (listings : Listings) : OrderMessage → Listings
  | .listSymbol m => listings.list m.symbol m.priceStep m.quantityStep
  | .delistSymbol m => (listings.delist m.symbol).1
  | .new _ | .cancel _ | .engineRule _ => listings

/-- What the replay walk does with a listing message. -/
def replayed (markets : Markets) (message : OrderMessage) : Markets :=
  let opened := { markets with openSymbols := markets.openSymbols.after message }
  match message with
  | .delistSymbol m =>
      if (markets.openSymbols.delist m.symbol).2 then
        let book := markets.book.closeSymbol m.symbol
        { opened with
          named := markets.named.delistedOn m.symbol m.id
          book := book
          mids := markets.mids.showed m.symbol m.timestamp (book.midCents m.symbol) }
      else opened
  | .listSymbol _ | .new _ | .cancel _ | .engineRule _ => opened

end Verify
end VerifiableExchange
