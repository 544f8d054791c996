import VerifiableExchange.Store.Tables
import VerifiableExchange.Logchain

/-!
# Load — one run read back

Everything the exchange rebuilds its engine from, and the checks a run has to pass before it is
handed over. Each refusal is worded as the source words it.
-/

namespace VerifiableExchange

open Lib Matcher

/-! ## Claims -/

namespace Logchain

/-- The statement an execution claim signs. -/
def claimStatement (session : String) (fromMsg toMsg : OrderId) (rootBefore rootAfter : Bytes)
    (tradesTotal : Nat) : String :=
  "\n".intercalate ["exchange-claim-v1", session, toString fromMsg, toString toMsg,
    toHex rootBefore, toHex rootAfter, toString tradesTotal]

def verifyClaim (env : Primitives) (key : Bytes) (session : String) (claim : Store.ClaimRow)
    (signature : Bytes) : Bool :=
  env.verifyStrict key (claimStatement session claim.fromMsg claim.toMsg claim.rootBefore
    claim.rootAfter claim.tradesTotal) signature

end Logchain

namespace Store

/-- What one run holds, as the exchange resumes from it. -/
structure Snapshot where
  executionState : ExecutionState
  lastClaim : Option ClaimRow
  matcherPubkey : Option String
  counters : Counters
  orders : List OrderRow
  listings : List ListingRow
  tradesTotal : Nat
  recent : List OrderMessage
  feedUrl : String
  feedSession : Option String
  feedPubkey : Option String
  lastClaimRoot : Option Bytes

/-- Refuses a snapshot that contradicts itself. -/
def check (snapshot : Snapshot) : Except StoreError Unit := do
  snapshot.orders.forM fun order => do
    require (order.orderId ≤ snapshot.counters.lastSeen)
      (StoreError.corrupt (s!"order {order.orderId} is resting but the cursor only reached "
        ++ toString snapshot.counters.lastSeen))
    require (0 < order.qtyTenths ∧ 0 < order.priceCents)
      (StoreError.corrupt (s!"resting order {order.orderId} has price {order.priceCents}"
        ++ s!" and quantity {order.qtyTenths}"))
  require (¬(0 < snapshot.tradesTotal ∧ snapshot.counters.messagesProcessed = 0))
    (StoreError.corrupt "the run has trades but its cursor says it consumed no messages")

namespace Tables

/-- The rows of one run, in the order of their own keys. -/
def rowsOf {K V : Type} [LinearOrder K] (table : SortedMap (RunKey K) V) (runId : Int) :
    List (K × V) :=
  table.entries.filterMap (fun e =>
    if (ofLex e.1).1 = runId then some ((ofLex e.1).2, e.2) else none)

/-- A blob that has to be this long. -/
def fixed (length : Nat) (blob : Option Bytes) (reason : Nat → String) :
    Except StoreError (Option Bytes) :=
  match blob with
  | none => .ok none
  | some bytes =>
      if bytes.length = length then .ok (some bytes) else .error (.corrupt (reason bytes.length))

/-- How many orders the run refused, by reason; the reasons must add up to the total. -/
def loadKinds (t : Tables) (runId : Int) (ordersIgnored : Nat) :
    Except StoreError (SortedMap String Nat) := do
  let rows := rowsOf t.ordersIgnoredKinds runId
  rows.forM fun row => require (0 ≤ row.2)
    (StoreError.corrupt s!"run {runId} says it refused {row.2} orders for '{row.1}'")
  let byKind := SortedMap.ofList (rows.map (fun row => (row.1, asU64 row.2)))
  let split := (byKind.entries.map Prod.snd).sum
  require (split = ordersIgnored)
    (StoreError.corrupt
      s!"run {runId} ignored {ordersIgnored} orders but its reasons add up to {split}")
  return byKind

def loadCounters (t : Tables) (runId : Int) (point : ResumePoint) : Except StoreError Counters := do
  let chain ← fixed 32 point.chainHash (fun n => s!"chain hash has {n} bytes, expected 32")
  let operatorKey ← fixed 32 point.operatorKey
    (fun n => s!"run {runId} records an operator key of {n} bytes, expected 32")
  let byKind ← t.loadKinds runId (asU64 point.ordersIgnored)
  return {
    lastSeen := asU64 point.lastSeen.val
    messagesProcessed := asU64 point.messagesProcessed
    cancelsApplied := asU64 point.cancelsApplied
    cancelsIgnored := asU64 point.cancelsIgnored
    ordersIgnored := asU64 point.ordersIgnored
    ordersIgnoredByKind := byKind
    -- A run recorded before rule sets existed ran under the first one.
    ruleVersion :=
      match point.ruleVersion with
      | some version => if 0 ≤ version ∧ version < 4294967296 then version.toNat else 1
      | none => 1
    operatorKey := operatorKey
    chain := chain }

/-- The open markets of a run, whose steps must be positive. -/
def loadListings (t : Tables) (runId : Int) : Except StoreError (List ListingRow) := do
  let listings := (rowsOf t.listings runId).map Prod.snd
  listings.forM fun row => require (0 < row.priceStepCents ∧ 0 < row.quantityStepTenths)
    (StoreError.corrupt (s!"run {runId} lists '{row.symbol}' on a price step of "
      ++ s!"{row.priceStepCents} and a quantity step of {row.quantityStepTenths}; "
      ++ "a step is a positive count of grid units"))
  return listings

/-- How many trades a run holds; their ids must leave no hole. -/
def loadTrades (t : Tables) (runId : Int) : Except StoreError Nat := do
  let rows := rowsOf t.trades runId
  let highest := (rows.getLast?.map Prod.fst).getD 0
  require (highest = rows.length)
    (StoreError.corrupt (s!"run {runId} holds {rows.length} trades but its highest trade id is "
      ++ s!"{highest}; the log has a hole"))
  let cheapest := ((rows.map (fun row => row.2.priceCents)).min?).getD 1
  let smallest := ((rows.map (fun row => row.2.qtyTenths)).min?).getD 1
  require (0 < cheapest ∧ 0 < smallest)
    (StoreError.corrupt
      s!"run {runId} holds a trade with price {cheapest} and quantity {smallest}")
  return rows.length

/-- The claims of one run, in the order of their first messages. -/
def claimsOf (t : Tables) (runId : Int) : List ClaimRow := (rowsOf t.claims runId).map Prod.snd

/-- The claim that ends last. -/
def latestClaim (t : Tables) (runId : Int) : Option ClaimRow :=
  (t.claimsOf runId).foldl (fun latest claim =>
    if latest.all (fun found => asI64 found.toMsg < asI64 claim.toMsg) then some claim else latest)
    none

theorem mem_of_latest : ∀ {claims : List ClaimRow} {start : Option ClaimRow} {claim : ClaimRow},
    claims.foldl (fun latest claim =>
      if latest.all (fun found => asI64 found.toMsg < asI64 claim.toMsg) then some claim
      else latest) start = some claim → claim ∈ claims ∨ start = some claim
  | [], _, _, h => .inr h
  | first :: rest, start, claim, h => by
      rw [List.foldl_cons] at h
      rcases mem_of_latest h with hrest | hfirst
      · exact .inl (List.mem_cons_of_mem _ hrest)
      · split_ifs at hfirst
        · cases hfirst
          exact .inl List.mem_cons_self
        · exact .inr hfirst

theorem latest_ne_none : ∀ {claims : List ClaimRow} {start : Option ClaimRow},
    start ≠ none ∨ claims ≠ [] →
      claims.foldl (fun latest claim =>
        if latest.all (fun found => asI64 found.toMsg < asI64 claim.toMsg) then some claim
        else latest) start ≠ none
  | [], _, h => h.resolve_right (fun hne => hne rfl)
  | first :: rest, start, _ => by
      rw [List.foldl_cons]
      refine latest_ne_none (.inl ?_)
      split_ifs with hlast
      · exact Option.some_ne_none first
      · rintro rfl
        exact hlast rfl

theorem latestClaim_mem {t : Tables} {runId : Int} {claim : ClaimRow}
    (h : t.latestClaim runId = some claim) : claim ∈ t.claimsOf runId :=
  (mem_of_latest h).resolve_right (Option.some_ne_none claim).symm

theorem latestClaim_ne_none {t : Tables} {runId : Int} (h : t.claimsOf runId ≠ []) :
    t.latestClaim runId ≠ none :=
  latest_ne_none (.inr h)

/-- A stored claim read back. -/
def readClaim (claim : ClaimRow) : Except StoreError ClaimRow := do
  require (0 < asI64 claim.fromMsg ∧ asI64 claim.fromMsg ≤ asI64 claim.toMsg ∧
    0 ≤ asI64 claim.tradesTotal) StoreError.sql
  require (claim.rootBefore.length = 32 ∧ claim.rootAfter.length = 32 ∧
    ∀ signature, claim.signature = some signature → signature.length = 64) StoreError.sql
  return claim

/-- The stored execution state of a run. A run that consumed nothing may have none yet. -/
def loadExecution (point : ResumePoint) (lastSeen : OrderId) : Except StoreError ExecutionState := do
  require (point.rootVersion = 4 ∨ point.rootVersion = 5)
    (StoreError.corrupt s!"unsupported execution root version {point.rootVersion}")
  require (point.rootVersion = 5 ∨ lastSeen = 0)
    (StoreError.corrupt (s!"legacy root v{point.rootVersion} omitted MidWindow; equivalent recovery "
      ++ "is unavailable. Replay into a new run or explicitly reset; historical rows and roots are "
      ++ "preserved"))
  let execution ←
    match point.executionState with
    | some execution => .ok execution
    | none =>
        if lastSeen = 0 then .ok ⟨5, .empty, .empty⟩
        else .error (.corrupt "missing execution state")
  require (execution.rootVersion = 5)
    (StoreError.corrupt "unsupported execution root version")
  return execution

/-- Reads one run back and checks it against itself before handing it over. -/
def load (t : Tables) (runId : Int) : Except StoreError Snapshot := do
  let point ← orFail (t.resumePoint.get? runId)
    (StoreError.corrupt s!"run {runId} has no resume point")
  let counters ← t.loadCounters runId point
  let orders := (rowsOf t.openOrders runId).map Prod.snd
  let listings ← t.loadListings runId
  let tradesTotal ← t.loadTrades runId
  let recent := (rowsOf t.recentMessages runId).map Prod.snd
  let run ← orFail (t.runs.get? runId) StoreError.sql
  let lastClaimRoot ← fixed 32 ((t.latestClaim runId).map ClaimRow.rootAfter)
    (fun n => s!"claim root has {n} bytes, expected 32")
  require (¬(0 < counters.lastSeen ∧ lastClaimRoot = none))
    (StoreError.corrupt (s!"run {runId} consumed {counters.lastSeen} messages but holds no "
      ++ "execution claim to check its state against; the claims table was emptied, or the run "
      ++ "predates it. Resume with nothing vouching for the state is refused: "
      ++ "start a fresh run with --reset-state"))
  let executionState ← loadExecution point counters.lastSeen
  let lastClaim ← (t.latestClaim runId).elim (.ok none) (fun claim => (readClaim claim).map some)
  let snapshot : Snapshot :=
    { executionState, lastClaim, matcherPubkey := run.matcherPubkey, counters, orders, listings,
      tradesTotal, recent, feedUrl := run.feedUrl, feedSession := run.feedSession,
      feedPubkey := run.feedPubkey, lastClaimRoot }
  check snapshot
  return snapshot

end Tables

/-- Checks a snapshot against the key file, and never against a key or a root the database alone
supplies. -/
def authenticateSnapshot (env : Primitives) (snapshot : Snapshot) (trusted : Bytes) :
    Except StoreError Unit :=
  if snapshot.counters.lastSeen = 0 ∧ snapshot.lastClaim = none then .ok ()
  else do
    require (snapshot.matcherPubkey = some (Logchain.toHex trusted))
      (StoreError.corrupt "claim key does not match trusted matcher key")
    let claim ← orFail snapshot.lastClaim (StoreError.corrupt "missing last claim")
    require (claim.fromMsg ≠ 0 ∧ claim.fromMsg ≤ claim.toMsg ∧
        claim.toMsg = snapshot.counters.lastSeen ∧ claim.tradesTotal = snapshot.tradesTotal ∧
        some claim.rootAfter = snapshot.lastClaimRoot)
      (StoreError.corrupt "last claim cursor/trade/root bindings disagree with snapshot")
    let signature ← orFail claim.signature (StoreError.corrupt "unsigned last claim")
    require (Logchain.verifyClaim env trusted (snapshot.feedSession.getD "") claim signature = true)
      (StoreError.corrupt "last claim signature does not verify under trusted key")

end Store
end VerifiableExchange
