import VerifiableExchange.Lib.Json
import VerifiableExchange.Matcher.State

/-!
# Root — the bytes behind the state root

`rootPreimage` is what version 5 of the state root hashes. Every part carries its length, its count
or a fixed width, and the ledger and the price windows go in as JSON.
-/

namespace VerifiableExchange

open Lib

/-! ## The ledger as JSON -/

def LedgerMode.text : LedgerMode → String
  | .syntheticLegacy => "synthetic_legacy"
  | .fundedSimulation => "funded_simulation"

def Side.text : Side → String
  | .buy => "Buy"
  | .sell => "Sell"

def MarketAssets.toJson (m : MarketAssets) : Json :=
  .record [("symbol", .text m.symbol), ("base_asset", .text m.baseAsset),
    ("quote_asset", .text m.quoteAsset)]

def Funding.toJson (f : Funding) : Json :=
  .record [("account", .num f.account.val), ("asset", .text f.asset), ("units", .num f.units)]

def FundingConfig.toJson (c : FundingConfig) : Json :=
  .record [("markets", .arr (c.markets.map MarketAssets.toJson)),
    ("funding", .arr (c.funding.map Funding.toJson)), ("fee_units", .num c.feeUnits)]

/-- One row of the balances: the account, the asset and the balance. -/
def balanceJson (e : AccountKey × Balance) : Json :=
  .record [("account", .num (ofLex e.1).1.val), ("asset", .text (ofLex e.1).2),
    ("balance", .record [("available", .num e.2.available), ("reserved", .num e.2.reserved)])]

def Reservation.toJson (r : Reservation) : Json :=
  .record [("order_id", .num r.orderId), ("account", .num r.account.val), ("symbol", .text r.symbol),
    ("side", .text r.side.text), ("limit_cents", .num r.limitCents),
    ("remaining_tenths", .num r.remainingTenths), ("asset", .text r.asset), ("units", .num r.units)]

namespace Ledger

/-- The snapshot of a ledger, with its version and its scale. -/
def toJson (l : Ledger) : Json :=
  .record [("version", .num 1), ("mode", .text l.mode.text), ("asset_scale", .num 1000),
    ("config", .ofOption FundingConfig.toJson l.config), ("last_sequence", .num l.lastSequence),
    ("balances", .arr (l.balances.entries.map balanceJson)),
    ("reservations", .arr (l.reservations.entries.map (fun e => e.2.toJson)))]

def canonicalBytes (l : Ledger) : Bytes := l.toJson.print

end Ledger

namespace Matcher

/-! ## The execution state as JSON -/

def ResourceLimits.snapshotBytes (limits : ResourceLimits) : Bytes :=
  leU32 1 ++ leU64 limits.maxActiveOrders ++ leU64 limits.maxPositions ++ leU64 limits.maxSymbols

def Extension.bytes : Extension → Bytes
  | .ledger l => l.canonicalBytes
  | .resourceLimits limits => limits.snapshotBytes

def bytesJson (bytes : Bytes) : Json := .arr (bytes.map (fun b => .num b.toNat))

def sampleJson (sample : Sample) : Json := .arr [.num sample.1, .ofOption .num sample.2]

def MidWindowRow.toJson (row : MidWindowRow) : Json :=
  .record [("clip_ms", .num row.clipMs), ("samples", .arr (row.samples.map sampleJson))]

def ExecutionState.toJson (execution : ExecutionState) : Json :=
  .record [("root_version", .num execution.rootVersion),
    ("mid_windows", .record (execution.midWindows.entries.map (fun e => (e.1, e.2.toJson)))),
    ("extensions", .record (execution.extensions.entries.map (fun e => (e.1, bytesJson e.2.bytes))))]

def ledgerExtension : String := "ledger-v1"

def resourceLimitsExtension : String := "resource-limits-v1"

namespace MatcherState

def executionState (s : MatcherState) : ExecutionState where
  rootVersion := 5
  midWindows := s.mids.snapshot
  extensions :=
    let extensions := s.executionExtensions.insert ledgerExtension (.ledger s.ledger)
    match s.resourceLimits with
    | some limits => extensions.insert resourceLimitsExtension (.resourceLimits limits)
    | none => extensions.erase resourceLimitsExtension

end MatcherState

/-! ## The pre-image -/

/-- What a listing says, less the message that opened it. -/
def Listing.terms (l : Listing) : Int × Int × Bool :=
  (l.priceStepCents, l.quantityStepTenths, l.listed)

def listingBytes (e : String × Int × Int × Bool) : Bytes :=
  field (utf8 e.1) ++ (leI64 e.2.1 ++ (leI64 e.2.2.1 ++ [if e.2.2.2 then 1 else 0]))

/-- Every order of one side, level by level and oldest first, with its price. -/
def sideOrders (levels : Levels) : List (Int × RestingOrder) :=
  levels.entries.flatMap (fun level => level.2.map (fun o => (level.1, o)))

def orderBytes (row : Int × RestingOrder) : Bytes :=
  leI64 row.1 ++ (leU64 row.2.id ++ (leU32 row.2.account.val ++ leI64 row.2.qtyTenths))

def sideBytes (tag : UInt8) (orders : List (Int × RestingOrder)) : Bytes :=
  tag :: counted orderBytes orders

def bookBytes (e : String × List (Int × RestingOrder) × List (Int × RestingOrder)) : Bytes :=
  field (utf8 e.1) ++ (sideBytes 0 e.2.1 ++ sideBytes 1 e.2.2)

def positionBytes (e : AccountKey × Position) : Bytes :=
  leU32 (ofLex e.1).1.val ++ (field (utf8 (ofLex e.1).2) ++ (leI64 e.2.netQtyTenths ++
    (leI64 e.2.cashMills ++ (leI64 e.2.costBasisMills ++ leI64 e.2.realizedMills))))

/-- The rule set goes in only when it is not the first one. -/
def rulesBytes (rules : RuleSet) : Bytes :=
  if rules = .genesis then [] else field (utf8 "rules") ++ leU32 rules.version

/-- The operator key goes in only once the log has named one. -/
def operatorBytes : Option Bytes → Bytes
  | none => []
  | some key => field (utf8 "operator") ++ field key

def chainBytes : Option Bytes → Bytes
  | none => []
  | some chain => field chain

namespace MatcherState

/-- The bytes version 5 of the state root hashes. -/
def rootPreimage (s : MatcherState) : Bytes :=
  field (utf8 "exchange-state-v5") ++ (leU64 s.lastSeen ++
    (counted listingBytes (s.symbols.entries.map (fun e => (e.1, e.2.terms))) ++
    (counted bookBytes (s.books.entries.map
      (fun e => (e.1, sideOrders e.2.bids, sideOrders e.2.asks))) ++
    (counted positionBytes s.positions.entries ++
    (rulesBytes s.rules ++ (operatorBytes s.operatorKey ++
    (field (utf8 "execution-state-v5") ++ (field s.executionState.toJson.print ++
    (leU64 s.tradesTotal ++ (field (utf8 (s.feedSession.getD "")) ++
    (field (utf8 (s.feedPubkey.getD "")) ++ chainBytes s.feedChain)))))))))))

end MatcherState

end Matcher
end VerifiableExchange
