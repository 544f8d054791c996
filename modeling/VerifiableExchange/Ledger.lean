import Mathlib.Data.Prod.Lex
import Mathlib.Data.List.Sort
import Mathlib.Data.String.Basic
import VerifiableExchange.Operator
import VerifiableExchange.Lib.Result
import VerifiableExchange.Lib.SortedMap

/-!
# Ledger — the funded spot simulation

Every asset uses thousandths of one asset. Base quantity tenths convert by multiplying by 100;
quote cash is price cents times quantity tenths. A synthetic ledger checks nothing and holds
nothing.
-/

namespace VerifiableExchange

open Lib

inductive LedgerMode
  | syntheticLegacy
  | fundedSimulation
  deriving DecidableEq

structure MarketAssets where
  symbol : String
  baseAsset : String
  quoteAsset : String
  deriving DecidableEq

structure Funding where
  account : AccountId
  asset : String
  units : Int
  inRange : InI64 units
  deriving DecidableEq

structure FundingConfig where
  markets : List MarketAssets
  funding : List Funding
  feeUnits : Int
  deriving DecidableEq

structure Balance where
  available : Int
  reserved : Int
  deriving DecidableEq

def Balance.default : Balance := ⟨0, 0⟩

structure Reservation where
  orderId : OrderId
  account : AccountId
  symbol : String
  side : Side
  limitCents : Int
  remainingTenths : Int
  asset : String
  units : Int
  deriving DecidableEq

/-- An account first, and a name where two keys share an account. -/
abbrev AccountKey := AccountId ×ₗ String

structure Ledger where
  mode : LedgerMode
  config : Option FundingConfig
  lastSequence : OrderId
  balances : SortedMap AccountKey Balance
  reservations : SortedMap OrderId Reservation
  deriving DecidableEq

/-- A resting order, as stored. -/
structure OrderRow where
  orderId : OrderId
  account : AccountId
  symbol : String
  side : Side
  priceCents : Int
  qtyTenths : Int
  deriving DecidableEq

/-! ## Amounts -/

def checkBalance (balance : Balance) : Except String Unit :=
  require (0 ≤ balance.available ∧ 0 ≤ balance.reserved ∧
      InI64 (balance.available + balance.reserved))
    "negative or overflowing asset balance"

/-- What an order costs at most: its price times its quantity, or the base quantity it sells. -/
def reserveAmount (side : Side) (priceCents qtyTenths : Int) : Int :=
  match side with
  | .buy => priceCents * qtyTenths
  | .sell => qtyTenths * 100

def reserveUnits (side : Side) (priceCents qtyTenths : Int) : Except String Int := do
  require (0 < priceCents ∧ 0 < qtyTenths) "nonpositive reservation terms"
  orFail (toI64 (reserveAmount side priceCents qtyTenths)) "reservation amount overflow"

namespace Reservation

/-- What the reservation still requires for a quantity. -/
def unitsFor (before : Reservation) (remaining : Int) : Except String Int :=
  if remaining = 0 then .ok 0 else reserveUnits before.side before.limitCents remaining

def afterFill (before : Reservation) (qtyTenths : Int) : Except String Reservation := do
  let remaining ← orFail ((checkedSub before.remainingTenths qtyTenths).filter (fun q => 0 ≤ q))
    "reservation fill underflow"
  let units ← before.unitsFor remaining
  return { before with remainingTenths := remaining, units := units }

end Reservation

/-! ## Genesis -/

def assetChar (c : Char) : Bool :=
  ('A' ≤ c && c ≤ 'Z') || ('0' ≤ c && c ≤ '9') || c = '_'

def validAsset (asset : String) : Bool :=
  !asset.toList.isEmpty && Operator.byteLength asset ≤ 32 && asset.toList.all assetChar

/-- Whether the funded simulation accepts this configuration. -/
def validateConfig (config : FundingConfig) : Except String Unit := do
  require (config.feeUnits = 0 ∧ config.markets ≠ [])
    "funded simulation requires markets and explicit zero fees"
  require
    ((config.markets.map MarketAssets.symbol).Nodup ∧
      ∀ market ∈ config.markets,
        Operator.validSymbol market.symbol = true ∧ validAsset market.baseAsset = true ∧
          validAsset market.quoteAsset = true ∧ market.baseAsset ≠ market.quoteAsset)
    "invalid or duplicate market asset mapping"
  require
    ((config.funding.map (fun grant => (grant.account, grant.asset))).Nodup ∧
      ∀ grant ∈ config.funding,
        0 < grant.units ∧
          ∃ market ∈ config.markets,
            market.baseAsset = grant.asset ∨ market.quoteAsset = grant.asset)
    "invalid or duplicate genesis funding"

namespace Ledger

def syntheticLegacy : Ledger where
  mode := .syntheticLegacy
  config := none
  lastSequence := 0
  balances := .empty
  reservations := .empty

def accountKey (account : AccountId) (name : String) : AccountKey := toLex (account, name)

/-- The configuration with its markets and grants in the order the ledger keeps them. -/
def sortedConfig (config : FundingConfig) : FundingConfig :=
  { config with
    markets := config.markets.insertionSort (fun a b => a.symbol ≤ b.symbol)
    funding := config.funding.insertionSort
      (fun a b => accountKey a.account a.asset ≤ accountKey b.account b.asset) }

def funded (config : FundingConfig) : Except String Ledger := do
  let config := sortedConfig config
  validateConfig config
  return {
    mode := .fundedSimulation
    config := some config
    lastSequence := 0
    balances := .ofList (config.funding.map (fun grant =>
      (accountKey grant.account grant.asset, { available := grant.units, reserved := 0 })))
    reservations := .empty }

def isFunded (l : Ledger) : Bool := l.mode = .fundedSimulation

def balance (l : Ledger) (account : AccountId) (asset : String) : Balance :=
  l.balances.getD (accountKey account asset) .default

def market (l : Ledger) (symbol : String) : Except String MarketAssets :=
  orFail (l.config.bind (fun config => config.markets.find? (fun m => m.symbol = symbol)))
    s!"no funded asset mapping for {symbol}"

/-- The sequence the ledger works on: the one after the last it finished. -/
def nextSequence (l : Ledger) : Except String OrderId :=
  orFail (checkedAddU64 l.lastSequence 1) "sequence exhausted"

/-! ## The operations -/

/-- The asset an order of this side sets aside. -/
def reservedAsset (market : MarketAssets) : Side → String
  | .buy => market.quoteAsset
  | .sell => market.baseAsset

/-- Sets the order's worst cost aside before its first effect. -/
def reserve (l : Ledger) (orderId : OrderId) (account : AccountId) (symbol : String)
    (side : Side) (limitCents qtyTenths : Int) : Except String Ledger :=
  if !l.isFunded then .ok l
  else do
    let expected ← l.nextSequence
    require (orderId = expected ∧ l.reservations.get? orderId = none)
      "order reservation would replay an applied sequence"
    -- The order is fresh: the sequence names it and no reservation has its id.
    let market ← l.market symbol
    let asset := reservedAsset market side
    let units ← reserveUnits side limitCents qtyTenths
    let key := accountKey account asset
    let before := l.balances.getD key .default
    let available ← orFail ((checkedSub before.available units).filter (fun a => 0 ≤ a))
      s!"insufficient available {asset} for account {account}"
    let reserved ← orFail (checkedAdd before.reserved units) "reserve overflow"
    let next : Balance := { available, reserved }
    checkBalance next
    return { l with
      balances := l.balances.insert key next
      reservations := l.reservations.insert orderId
        { orderId, account, symbol, side, limitCents,
          remainingTenths := qtyTenths, asset, units } }

def addDelta (deltas : SortedMap AccountKey (Int × Int)) (account : AccountId) (asset : String)
    (available reserved : Int) : SortedMap AccountKey (Int × Int) :=
  let key := accountKey account asset
  let entry := deltas.getD key (0, 0)
  deltas.insert key (entry.1 + available, entry.2 + reserved)

def buyerOf (maker taker : Reservation) : Reservation :=
  if maker.side = .buy then maker else taker

def sellerOf (maker taker : Reservation) : Reservation :=
  if maker.side = .buy then taker else maker

/-- What one fill moves: the buyer's cash with its price improvement, and the seller's base. -/
def fillDeltas (market : MarketAssets) (buyer seller : Reservation)
    (base cash buyerReserved improvement : Int) : SortedMap AccountKey (Int × Int) :=
  let deltas := addDelta .empty buyer.account market.quoteAsset improvement (-buyerReserved)
  let deltas := addDelta deltas seller.account market.quoteAsset cash 0
  let deltas := addDelta deltas seller.account market.baseAsset 0 (-base)
  addDelta deltas buyer.account market.baseAsset base 0

/-- One balance after its share of a fill. -/
def shifted (l : Ledger) (key : AccountKey) (delta : Int × Int) :
    Except String (AccountKey × Balance) := do
  let before := l.balances.getD key .default
  let available ← orFail (toI64 (before.available + delta.1)) "available fill overflow"
  let reserved ← orFail (toI64 (before.reserved + delta.2)) "reserved fill overflow"
  let next : Balance := { available, reserved }
  checkBalance next
  return (key, next)

/-- Drops a reservation a fill used up, and keeps any other with what it still requires. -/
def putReservation (reservations : SortedMap OrderId Reservation) (next : Reservation) :
    SortedMap OrderId Reservation :=
  if next.remainingTenths = 0 then reservations.erase next.orderId
  else reservations.insert next.orderId next

/-- Moves both assets of one fill, for the maker's and the taker's reservation together. -/
def settleFill (l : Ledger) (makerOrder takerOrder : OrderId) (priceCents qtyTenths : Int) :
    Except String Ledger :=
  if !l.isFunded then .ok l
  else do
    let expected ← l.nextSequence
    require (takerOrder = expected) "fill taker is outside the current sequence"
    require (makerOrder ≠ takerOrder ∧ 0 < priceCents ∧ 0 < qtyTenths) "invalid fill"
    let maker ← orFail (l.reservations.get? makerOrder) "maker reservation missing"
    let taker ← orFail (l.reservations.get? takerOrder) "taker reservation missing"
    require (maker.symbol = taker.symbol ∧ maker.side ≠ taker.side)
      "fill reservations disagree on market or side"
    let market ← l.market maker.symbol
    let buyer := buyerOf maker taker
    let seller := sellerOf maker taker
    require (priceCents ≤ buyer.limitCents ∧ seller.limitCents ≤ priceCents ∧
        qtyTenths ≤ buyer.remainingTenths ∧ qtyTenths ≤ seller.remainingTenths)
      "fill exceeds reserved terms"
    -- What moves: the base, the cash at the fill price, and what the buyer set aside too much.
    let base ← orFail (checkedMul qtyTenths 100) "base fill overflow"
    let cash ← orFail (checkedMul priceCents qtyTenths) "quote fill overflow"
    let buyerReserved ← orFail (checkedMul buyer.limitCents qtyTenths) "buy reserve overflow"
    let improvement ← orFail (checkedSub buyerReserved cash) "price improvement overflow"
    let deltas := fillDeltas market buyer seller base cash buyerReserved improvement
    let nextBalances ← deltas.entries.mapM (fun e => l.shifted e.1 e.2)
    let makerNext ← maker.afterFill qtyTenths
    let takerNext ← taker.afterFill qtyTenths
    return { l with
      balances := nextBalances.foldl (fun balances e => balances.insert e.1 e.2) l.balances
      reservations := putReservation (putReservation l.reservations makerNext) takerNext }

/-- Returns what an order still holds aside. A repeated release changes nothing. -/
def release (l : Ledger) (orderId : OrderId) : Except String (Ledger × Bool) :=
  match l.reservations.get? orderId with
  | none => .ok (l, false)
  | some reservation => do
      let key := accountKey reservation.account reservation.asset
      let before ← orFail (l.balances.get? key) "reserved balance missing"
      let available ← orFail (checkedAdd before.available reservation.units) "release overflow"
      let reserved ← orFail (checkedSub before.reserved reservation.units) "release underflow"
      let next : Balance := { available, reserved }
      checkBalance next
      return ({ l with
        balances := l.balances.insert key next
        reservations := l.reservations.erase orderId }, true)

/-- Advances the sequence for every consumed message, rejected orders included. -/
def finishSequence (l : Ledger) (sequence : OrderId) : Except String Ledger := do
  let expected ← l.nextSequence
  require (sequence = expected) "ledger sequence out of order"
  return { l with lastSequence := sequence }

/-! ## Validity -/

/-- Adds one reservation to the obligations of its account, after checking its terms. -/
def addObligation (l : Ledger) (obligations : SortedMap AccountKey Int)
    (reservation : Reservation) : Except String (SortedMap AccountKey Int) := do
  let market ← l.market reservation.symbol
  require (reservation.asset = reservedAsset market reservation.side)
    "reservation terms or units disagree"
  let units ← reserveUnits reservation.side reservation.limitCents reservation.remainingTenths
  require (reservation.units = units) "reservation terms or units disagree"
  let key := accountKey reservation.account reservation.asset
  let total ← orFail (checkedAdd (obligations.getD key 0) reservation.units)
    "obligations overflow"
  return obligations.insert key total

/-- Takes one balance's obligation off the list, after checking that the two agree. -/
def matchObligation (obligations : SortedMap AccountKey Int) (entry : AccountKey × Balance) :
    Except String (SortedMap AccountKey Int) := do
  require (entry.2.reserved = obligations.getD entry.1 0)
    "reserved balance differs from active obligations"
  return obligations.erase entry.1

/-- Whether the configuration has a market in this asset. -/
def configured (config : FundingConfig) (asset : String) : Bool :=
  config.markets.any (fun m => m.baseAsset = asset || m.quoteAsset = asset)

def validBalance (config : FundingConfig) (e : AccountKey × Balance) : Except String Unit := do
  checkBalance e.2
  require (configured config (ofLex e.1).2 = true) "balance names an unconfigured asset"

/-- Nonnegative balances, exact backing of all reserves, and conservation of each asset against
the genesis funding. -/
def validate (l : Ledger) : Except String Unit :=
  if !l.isFunded then .ok ()
  else do
    let config ← orFail l.config "funded config missing"
    let expected : SortedMap String Int :=
      .accumulate (config.funding.map (fun grant => (grant.asset, grant.units)))
    l.balances.entries.forM (validBalance config)
    let actual : SortedMap String Int :=
      .accumulate (l.balances.entries.map (fun e =>
        ((ofLex e.1).2, e.2.available + e.2.reserved)))
    require (expected.filter (fun _ total => total ≠ 0) = actual.filter (fun _ total => total ≠ 0))
      "asset total differs from explicit funding"
    let obligations ← l.reservations.entries.foldlM
      (fun obligations e => l.addObligation obligations e.2) .empty
    let left ← l.balances.entries.foldlM matchObligation obligations
    require (left.isEmpty = true) "obligation has no balance"

/-- Whether one resting order has exactly its own reservation. -/
def matchesReservation (l : Ledger) (row : OrderRow) : Except String Unit := do
  let reservation ← orFail (l.reservations.get? row.orderId) "open order lacks reservation"
  require (row.account = reservation.account ∧ row.symbol = reservation.symbol ∧
      row.side = reservation.side ∧ row.priceCents = reservation.limitCents ∧
      row.qtyTenths = reservation.remainingTenths)
    "open order differs from reserved obligation"

/-- Whether the reservations are exactly those of the resting orders. -/
def matchesRows (l : Ledger) (rows : List OrderRow) : Except String Unit :=
  if !l.isFunded then .ok ()
  else do
    require (rows.length = l.reservations.size) "open orders and reservations differ"
    require ((rows.map OrderRow.orderId).Nodup) "duplicate open order"
    rows.forM l.matchesReservation

/-- The ledger is valid and its reservations are exactly the resting orders. -/
def validateObligations (l : Ledger) (rows : List OrderRow) : Except String Unit := do
  l.validate
  l.matchesRows rows

end Ledger

end VerifiableExchange
