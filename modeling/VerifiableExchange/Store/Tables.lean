import VerifiableExchange.Lib.Result
import VerifiableExchange.Matcher.State

/-!
# Tables — the state database and the statements that write it

The tables of schema 13, each under its primary key, and every statement the store runs on them. A
statement outside a transaction is one function of the tables, and so is a whole transaction: what
SQLite rolls back is the value a failing function does not answer. A row's values are kept as the
source holds them before they are written; an id that is part of a key is cast as it is stored.
-/

namespace VerifiableExchange
namespace Store

open Lib Matcher

/-! ## Stored values -/

/-- An unsigned 64-bit value cast to a signed one. -/
def asI64 (value : Nat) : Int :=
  (value + 9223372036854775808) % 18446744073709551616 - 9223372036854775808

/-- A signed 64-bit value cast to an unsigned one. -/
def asU64 (value : Int) : Nat := (value % 18446744073709551616).toNat

theorem inI64_asI64 (value : Nat) : InI64 (asI64 value) := by
  unfold InI64 asI64 i64Min i64Max
  omega

/-- The number of a column that this program reads back as a cursor. -/
abbrev Integer := { value : Int // InI64 value }

def integer (value : Nat) : Integer := ⟨asI64 value, inI64_asI64 value⟩

/-- A cursor that fits is stored as it is. -/
theorem integer_val {value : Nat} (h : (value : Int) ≤ i64Max) : (integer value).val = value := by
  unfold i64Max at h
  simp only [integer, asI64]
  omega

/-- What is not below a stored cursor as an unsigned number, and fits, is not below it. -/
theorem Integer.le_of_asU64_le {cursor : Integer} {value : Nat} (h : asU64 cursor.val ≤ value)
    (hfits : (value : Int) ≤ i64Max) : cursor.val ≤ value := by
  have hcursor := cursor.property
  unfold InI64 i64Min i64Max at hcursor
  unfold asU64 at h
  unfold i64Max at hfits
  omega

/-- What state a run is in. -/
inductive Status
  | isOpen
  | stopped
  | feedRestarted
  | reset
  deriving DecidableEq

/-- A run in this state can be taken up again. -/
def Status.resumable : Status → Bool
  | .isOpen | .stopped => true
  | .feedRestarted | .reset => false

/-- What stops the exchange from trusting its own database. -/
inductive StoreError
  | sql
  | fenced
  | busy (message : String)
  | corrupt (message : String)
  deriving DecidableEq

/-- Every counter the exchange reports, read at one moment. -/
structure Counters where
  lastSeen : OrderId
  messagesProcessed : Nat
  cancelsApplied : Nat
  cancelsIgnored : Nat
  ordersIgnored : Nat
  ordersIgnoredByKind : SortedMap String Nat
  ruleVersion : Nat
  operatorKey : Option Bytes
  chain : Option Bytes
  deriving DecidableEq

def Counters.default : Counters where
  lastSeen := 0
  messagesProcessed := 0
  cancelsApplied := 0
  cancelsIgnored := 0
  ordersIgnored := 0
  ordersIgnoredByKind := .empty
  ruleVersion := 1
  operatorKey := none
  chain := none

/-- One execution claim. -/
structure ClaimRow where
  fromMsg : OrderId
  toMsg : OrderId
  rootBefore : Bytes
  rootAfter : Bytes
  tradesTotal : Nat
  signature : Option Bytes
  deriving DecidableEq

structure RunRow where
  startedAt : Int
  closedAt : Option Int
  heartbeatMs : Int
  status : Status
  feedUrl : String
  ownerPid : Int
  feedSession : Option String
  feedPubkey : Option String
  matcherPubkey : Option String
  epoch : Int
  deriving DecidableEq

structure ResumePoint where
  lastSeen : Integer
  messagesProcessed : Int
  cancelsApplied : Int
  cancelsIgnored : Int
  ordersIgnored : Int
  chainHash : Option Bytes
  ruleVersion : Option Int
  operatorKey : Option Bytes
  rootVersion : Nat
  executionState : Option ExecutionState
  deriving DecidableEq

/-! ## The tables -/

/-- A row of one run: the run, and the row's own key. -/
abbrev RunKey (K : Type) := Int ×ₗ K

/-- The database. `sequence` is the largest run id ever given out. -/
structure Tables where
  runs : SortedMap Int RunRow
  sequence : Int
  resumePoint : SortedMap Int ResumePoint
  openOrders : SortedMap (RunKey Int) OrderRow
  trades : SortedMap (RunKey Int) TradeRow
  recentMessages : SortedMap (RunKey Int) OrderMessage
  listings : SortedMap (RunKey String) ListingRow
  ordersIgnoredKinds : SortedMap (RunKey String) Int
  claims : SortedMap (RunKey Int) ClaimRow
  deriving DecidableEq

/-- A handle on the database, bound to one run. -/
structure Handle where
  runId : Int
  epoch : Int
  deriving DecidableEq

/-- What `claim_open_run` keeps of the row it read. -/
structure SeenRun where
  runId : Int
  heartbeatMs : Int
  ownerPid : Int
  epoch : Int
  deriving DecidableEq

/-- `AND epoch = ? AND status = 'open'`, which every write of an owner names. -/
def Handle.owns (store : Handle) (row : RunRow) : Bool :=
  row.epoch = store.epoch && row.status = .isOpen

namespace Tables

/-! ## Single statements -/

/-- `UPDATE runs SET … WHERE run_id = ? AND …`, and how many rows it changed. -/
def updateRun (t : Tables) (runId : Int) (holds : RunRow → Bool) (set : RunRow → RunRow) :
    Tables × Nat :=
  match t.runs.get? runId with
  | some row =>
      if holds row then ({ t with runs := t.runs.insert runId (set row) }, 1) else (t, 0)
  | none => (t, 0)

/-- An owner's update of its own run row. -/
def updateOwned (t : Tables) (store : Handle) (set : RunRow → RunRow) : Except StoreError Tables :=
  let (after, changed) := t.updateRun store.runId (Handle.owns store) set
  if changed ≠ 1 then .error .fenced else .ok after

def closeRun (t : Tables) (store : Handle) (status : Status) (now : Int) :
    Except StoreError Tables :=
  t.updateOwned store (fun row => { row with status := status, closedAt := some now })

def closeStopped (t : Tables) (store : Handle) (now : Int) : Except StoreError Tables :=
  t.closeRun store .stopped now

def setFeedSession (t : Tables) (store : Handle) (session : String) : Except StoreError Tables :=
  t.updateOwned store (fun row => { row with feedSession := some session })

def setFeedPubkey (t : Tables) (store : Handle) (pubkey : String) : Except StoreError Tables :=
  t.updateOwned store (fun row => { row with feedPubkey := some pubkey })

def setMatcherPubkey (t : Tables) (store : Handle) (pubkey : String) : Except StoreError Tables :=
  t.updateOwned store (fun row => { row with matcherPubkey := some pubkey })

def heartbeat (t : Tables) (store : Handle) (now : Int) : Except StoreError Tables :=
  t.updateOwned store (fun row => { row with heartbeatMs := now })

/-- The conditional update that takes a run over, and whether it changed the row. -/
def takeRun (t : Tables) (seen : SeenRun) (now pid : Int) : Tables × Bool :=
  let (after, claimed) := t.updateRun seen.runId
    (fun row => row.status.resumable && row.heartbeatMs = seen.heartbeatMs
      && row.ownerPid = seen.ownerPid && row.epoch = seen.epoch && row.epoch < i64Max)
    (fun row => { row with
      status := .isOpen
      closedAt := none
      heartbeatMs := now
      ownerPid := pid
      epoch := row.epoch + 1 })
  (after, claimed = 1)

theorem updateOwned_eq_ok {t t' : Tables} {store : Handle} {set : RunRow → RunRow} :
    t.updateOwned store set = .ok t' ↔
      ∃ row, t.runs.get? store.runId = some row ∧ store.owns row = true ∧
        t' = { t with runs := t.runs.insert store.runId (set row) } := by
  unfold updateOwned updateRun
  cases hrow : t.runs.get? store.runId with
  | none => simp
  | some row =>
      cases howns : store.owns row with
      | false => simp [howns]
      | true =>
          simp only [howns, if_true, ne_eq, not_true_eq_false, if_false, Except.ok.injEq]
          constructor
          · rintro rfl
            exact ⟨row, rfl, howns, rfl⟩
          · rintro ⟨_, hsome, -, rfl⟩
            cases hsome
            rfl

/-- A take-over that changed its row found it exactly as it was read. -/
theorem takeRun_true {t t' : Tables} {seen : SeenRun} {now pid : Int}
    (h : t.takeRun seen now pid = (t', true)) :
    ∃ row, t.runs.get? seen.runId = some row ∧ row.status.resumable = true ∧
      row.epoch = seen.epoch ∧
      t' = { t with runs := t.runs.insert seen.runId { row with
        status := .isOpen, closedAt := none, heartbeatMs := now, ownerPid := pid
        epoch := row.epoch + 1 } } := by
  unfold takeRun updateRun at h
  cases hrow : t.runs.get? seen.runId with
  | none => simp [hrow] at h
  | some row =>
      simp only [hrow] at h
      split at h
      · rename_i holds
        simp only [Bool.and_eq_true, decide_eq_true_eq] at holds
        simp only [Prod.mk.injEq] at h
        exact ⟨row, rfl, holds.1.1.1.1, holds.1.2, h.1.symm⟩
      · simp at h

theorem takeRun_false {t t' : Tables} {seen : SeenRun} {now pid : Int}
    (h : t.takeRun seen now pid = (t', false)) : t' = t := by
  unfold takeRun updateRun at h
  cases hrow : t.runs.get? seen.runId with
  | none => simpa [hrow, eq_comm] using h
  | some row =>
      simp only [hrow] at h
      split at h
      · simp at h
      · simpa [eq_comm] using h

/-! ## The transaction of a new run -/

/-- The largest id the table of runs has ever held. -/
def highestRun (t : Tables) : Int :=
  match t.runs.last? with
  | some (runId, _) => max t.sequence runId
  | none => t.sequence

/-- Opens a new run, under an id SQLite has never given out. -/
def startRun (t : Tables) (feedUrl : String) (now pid : Int) : Except StoreError (Tables × Handle) := do
  require (t.highestRun < i64Max) StoreError.sql
  let runId := t.highestRun + 1
  require (t.resumePoint.get? runId = none) StoreError.sql
  let run : RunRow :=
    { startedAt := now, closedAt := none, heartbeatMs := now, status := .isOpen, feedUrl := feedUrl,
      ownerPid := pid, feedSession := none, feedPubkey := none, matcherPubkey := none, epoch := 1 }
  let point : ResumePoint :=
    { lastSeen := integer 0, messagesProcessed := 0, cancelsApplied := 0, cancelsIgnored := 0,
      ordersIgnored := 0, chainHash := some MatcherState.emptyChain, ruleVersion := none,
      operatorKey := none, rootVersion := 5, executionState := none }
  return ({ t with
    runs := t.runs.insert runId run
    sequence := runId
    resumePoint := t.resumePoint.insert runId point }, ⟨runId, 1⟩)

theorem get?_highestRun (t : Tables) {runId : Int} (h : t.highestRun < runId) :
    t.runs.get? runId = none := by
  by_contra hsome
  obtain ⟨row, hrow⟩ := Option.ne_none_iff_exists'.1 hsome
  unfold highestRun at h
  cases hlast : t.runs.last? with
  | none =>
      have hempty : t.runs.entries = [] := by simpa [SortedMap.last?] using hlast
      have hmem := SortedMap.mem_entries.2 hrow
      simp [hempty] at hmem
  | some last =>
      have hle := SortedMap.le_last? hlast hrow
      rw [hlast] at h
      exact absurd (lt_of_le_of_lt (le_max_right _ _) h) (not_lt.2 hle)

/-- A run that starts takes an id no row has. -/
theorem startRun_eq_ok {t t' : Tables} {store : Handle} {feedUrl : String} {now pid : Int}
    (h : t.startRun feedUrl now pid = .ok (t', store)) :
    t.runs.get? store.runId = none ∧ t.resumePoint.get? store.runId = none ∧ store.epoch = 1 ∧
      ∃ run point, run.status = .isOpen ∧ run.epoch = 1 ∧
        t' = { t with
          runs := t.runs.insert store.runId run
          sequence := store.runId
          resumePoint := t.resumePoint.insert store.runId point } := by
  simp only [startRun, bind_eq_ok, require_eq_ok] at h
  obtain ⟨_, _, _, hfree, h⟩ := h
  cases h
  exact ⟨t.get?_highestRun (Int.lt_succ _), hfree, rfl, _, _, rfl, rfl, rfl⟩

/-! ## The transaction of a batch -/

/-- One change, written into the rows of one run. A row that a `CHECK` of the schema refuses ends
the transaction. -/
def writeChange (runId : Int) (t : Tables) : Change → Except StoreError Tables
  | .executionState execution =>
      match t.resumePoint.get? runId with
      | some point =>
          .ok { t with resumePoint := t.resumePoint.insert runId { point with
            rootVersion := execution.rootVersion
            executionState := some execution } }
      | none => .ok t
  | .orderRested row => do
      require (0 < row.priceCents ∧ 0 < row.qtyTenths) StoreError.sql
      return { t with openOrders := t.openOrders.insert (toLex (runId, asI64 row.orderId)) row }
  | .orderReduced orderId qtyTenths =>
      match t.openOrders.get? (toLex (runId, asI64 orderId)) with
      | some row => do
          require (0 < qtyTenths) StoreError.sql
          return { t with openOrders :=
            t.openOrders.insert (toLex (runId, asI64 orderId)) { row with qtyTenths := qtyTenths } }
      | none => .ok t
  | .orderClosed orderId =>
      .ok { t with openOrders := t.openOrders.erase (toLex (runId, asI64 orderId)) }
  | .traded row => do
      require (0 < row.priceCents ∧ 0 < row.qtyTenths) StoreError.sql
      return { t with trades := t.trades.insert (toLex (runId, asI64 row.tradeId)) row }
  | .symbolListed row => do
      require (0 < row.priceStepCents ∧ 0 < row.quantityStepTenths ∧ 0 ≤ asI64 row.listedBy)
        StoreError.sql
      return { t with listings := t.listings.insert (toLex (runId, row.symbol)) row }
  | .symbolDelisted symbol =>
      match t.listings.get? (toLex (runId, symbol)) with
      | some row =>
          .ok { t with listings :=
            t.listings.insert (toLex (runId, symbol)) { row with listed := false } }
      | none => .ok t
  | .consumed message =>
      .ok { t with recentMessages :=
        t.recentMessages.insert (toLex (runId, asI64 message.id)) message }

/-- The ids of the newest messages kept for one run. -/
def newestMessages (t : Tables) (runId : Int) : List Int :=
  ((t.recentMessages.entries.filterMap (fun e =>
    if (ofLex e.1).1 = runId then some (ofLex e.1).2 else none)).reverse).take recentMessagesCap

/-- Drops every recent message of one run past the newest ones. -/
def trimRecent (t : Tables) (runId : Int) : Tables :=
  let newest := t.newestMessages runId
  { t with recentMessages := t.recentMessages.filter (fun key _ =>
      (ofLex key).1 ≠ runId || newest.contains (ofLex key).2) }

/-- The counters of a batch, in the row of the cursor they belong to. -/
def writeResumePoint (t : Tables) (runId : Int) (counters : Counters) : Tables :=
  let before := t.resumePoint.get? runId
  let point : ResumePoint :=
    { lastSeen := integer counters.lastSeen
      messagesProcessed := asI64 counters.messagesProcessed
      cancelsApplied := asI64 counters.cancelsApplied
      cancelsIgnored := asI64 counters.cancelsIgnored
      ordersIgnored := asI64 counters.ordersIgnored
      chainHash := counters.chain
      ruleVersion := some counters.ruleVersion
      operatorKey := counters.operatorKey
      rootVersion := (before.map ResumePoint.rootVersion).getD 4
      executionState := before.bind ResumePoint.executionState }
  { t with resumePoint := t.resumePoint.insert runId point }

/-- The count of one refusal reason. -/
def writeKind (runId : Int) (t : Tables) (kind : String × Nat) : Except StoreError Tables := do
  require (0 ≤ asI64 kind.2) StoreError.sql
  return { t with ordersIgnoredKinds :=
    t.ordersIgnoredKinds.insert (toLex (runId, kind.1)) (asI64 kind.2) }

/-- The claim that covers the batch. A claim without a signature is refused. -/
def writeClaim (t : Tables) (runId : Int) (claim : ClaimRow) : Except StoreError Tables :=
  match claim.signature with
  | none => .error (.corrupt ("the claim for feed messages " ++ toString claim.fromMsg ++ ".."
      ++ toString claim.toMsg ++ " carries no signature; "
      ++ "an unsigned claim is not evidence of anything and is not written"))
  | some _ =>
      .ok { t with claims := t.claims.insert (toLex (runId, asI64 claim.fromMsg)) claim }

/-- `UPDATE runs SET heartbeat_ms = ? WHERE run_id = ?`, at the end of a batch. -/
def beat (t : Tables) (runId now : Int) : Tables :=
  (t.updateRun runId (fun _ => true) (fun row => { row with heartbeatMs := now })).1

/-- Writes one batch of changes, the counters those changes produced, and the claim that covers the
batch, in one transaction. -/
def commit (t : Tables) (store : Handle) (now : Int) (changes : List Change) (counters : Counters)
    (claim : Option ClaimRow) : Except StoreError Tables := do
  require ((t.runs.get? store.runId).any store.owns = true) StoreError.fenced
  let point ← orFail (t.resumePoint.get? store.runId) StoreError.sql
  require (¬(i64Max < counters.lastSeen ∨ counters.lastSeen < asU64 point.lastSeen.val))
    (StoreError.corrupt "commit cursor cannot regress or exceed SQLite integer range")
  let t ← changes.foldlM (writeChange store.runId) t
  let t := t.trimRecent store.runId
  let t := t.writeResumePoint store.runId counters
  let t ← counters.ordersIgnoredByKind.entries.foldlM (writeKind store.runId) t
  let t ← claim.elim (.ok t) (t.writeClaim store.runId)
  return t.beat store.runId now

/-- What a statement of a batch leaves alone before the cursor is written. -/
structure SameCursors (t t' : Tables) : Prop where
  runs : t'.runs = t.runs
  sequence : t'.sequence = t.sequence
  cursor : ∀ run, (t'.resumePoint.get? run).map ResumePoint.lastSeen =
    (t.resumePoint.get? run).map ResumePoint.lastSeen

theorem SameCursors.refl (t : Tables) : SameCursors t t := ⟨rfl, rfl, fun _ => rfl⟩

theorem SameCursors.trans {t u v : Tables} (h : SameCursors t u) (h' : SameCursors u v) :
    SameCursors t v :=
  ⟨h'.runs.trans h.runs, h'.sequence.trans h.sequence,
    fun run => (h'.cursor run).trans (h.cursor run)⟩

theorem writeChange_cursors {t t' : Tables} {runId : Int} {change : Change}
    (h : writeChange runId t change = .ok t') : SameCursors t t' := by
  cases change with
  | executionState execution =>
      simp only [writeChange] at h
      split at h
      · rename_i point hpoint
        cases h
        refine ⟨rfl, rfl, fun run => ?_⟩
        rw [SortedMap.get?_insert]
        split
        · subst run
          simp [hpoint]
        · rfl
      · cases h
        exact .refl _
  | orderRested row | traded row | symbolListed row =>
      simp only [writeChange, bind_eq_ok, require_eq_ok] at h
      obtain ⟨_, _, h⟩ := h
      cases h
      exact ⟨rfl, rfl, fun _ => rfl⟩
  | orderReduced orderId qtyTenths =>
      simp only [writeChange] at h
      split at h
      · simp only [bind_eq_ok, require_eq_ok] at h
        obtain ⟨_, _, h⟩ := h
        cases h
        exact ⟨rfl, rfl, fun _ => rfl⟩
      · cases h
        exact .refl _
  | symbolDelisted symbol =>
      simp only [writeChange] at h
      split at h
      all_goals
        cases h
        exact ⟨rfl, rfl, fun _ => rfl⟩
  | orderClosed orderId | consumed message =>
      cases h
      exact ⟨rfl, rfl, fun _ => rfl⟩

theorem writeKind_cursors {t t' : Tables} {runId : Int} {kind : String × Nat}
    (h : writeKind runId t kind = .ok t') : SameCursors t t' := by
  simp only [writeKind, bind_eq_ok, require_eq_ok] at h
  obtain ⟨_, _, h⟩ := h
  cases h
  exact ⟨rfl, rfl, fun _ => rfl⟩

theorem writeClaim_cursors {t t' : Tables} {runId : Int} {claim : ClaimRow}
    (h : t.writeClaim runId claim = .ok t') : SameCursors t t' := by
  unfold writeClaim at h
  split at h
  · cases h
  · cases h
    exact ⟨rfl, rfl, fun _ => rfl⟩

/-- What holds of every step holds of a whole fold of them. -/
theorem foldlM_cursors {α : Type} {step : Tables → α → Except StoreError Tables}
    (hstep : ∀ t a t', step t a = .ok t' → SameCursors t t') :
    ∀ {l : List α} {t t' : Tables}, l.foldlM step t = .ok t' → SameCursors t t'
  | [], t, t', h => by
      cases h
      exact .refl _
  | a :: l, t, t', h => by
      rw [List.foldlM_cons, bind_eq_ok] at h
      obtain ⟨u, hu, h⟩ := h
      exact (hstep t a u hu).trans (foldlM_cursors hstep h)

/-- What a batch that went in did to the runs and to the cursors. -/
structure Committed (t : Tables) (store : Handle) (now : Int) (counters : Counters) (t' : Tables) :
    Prop where
  owned : ∃ row, t.runs.get? store.runId = some row ∧ store.owns row = true ∧
    t'.runs = t.runs.insert store.runId { row with heartbeatMs := now }
  fits : (counters.lastSeen : Int) ≤ i64Max
  forward : ∃ point, t.resumePoint.get? store.runId = some point ∧
    point.lastSeen.val ≤ counters.lastSeen
  cursor : (t'.resumePoint.get? store.runId).map ResumePoint.lastSeen =
    some (integer counters.lastSeen)
  others : ∀ run, run ≠ store.runId → (t'.resumePoint.get? run).map ResumePoint.lastSeen =
    (t.resumePoint.get? run).map ResumePoint.lastSeen

theorem commit_eq_ok {t t' : Tables} {store : Handle} {now : Int} {changes : List Change}
    {counters : Counters} {claim : Option ClaimRow}
    (h : t.commit store now changes counters claim = .ok t') :
    Committed t store now counters t' := by
  simp only [commit, bind_eq_ok, require_eq_ok, orFail_eq_ok, not_or, not_lt] at h
  obtain ⟨_, howned, point, hpoint, _, ⟨hfits, hforward⟩, u, hu, v, hv, w, hw, h⟩ := h
  cases h
  have htu := foldlM_cursors (fun _ _ _ => writeChange_cursors) hu
  have huv := foldlM_cursors (fun _ _ _ => writeKind_cursors) hv
  have hvw : SameCursors v w := by
    cases claim with
    | none =>
        cases hw
        exact .refl _
    | some claim => exact writeClaim_cursors hw
  obtain ⟨row, hrow, howns⟩ := (Option.any_eq_true _ _).1 howned
  have hruns : w.runs = t.runs := hvw.runs.trans (huv.runs.trans htu.runs)
  have hbeat : w.beat store.runId now =
      { w with runs := t.runs.insert store.runId { row with heartbeatMs := now } } := by
    simp [beat, updateRun, hruns, hrow]
  have hcursor (run : Int) : ((w.beat store.runId now).resumePoint.get? run).map
      ResumePoint.lastSeen = if run = store.runId then some (integer counters.lastSeen) else
        (t.resumePoint.get? run).map ResumePoint.lastSeen := by
    rw [hbeat]
    refine (hvw.cursor run).trans ((huv.cursor run).trans ?_)
    simp only [writeResumePoint, SortedMap.get?_insert]
    split
    · rfl
    · exact htu.cursor run
  refine ⟨⟨row, hrow, howns, by rw [hbeat]⟩, hfits,
    ⟨point, hpoint, Integer.le_of_asU64_le hforward hfits⟩, ?_, fun run hne => ?_⟩
  · rw [hcursor, if_pos rfl]
  · rw [hcursor, if_neg hne]

end Tables
end Store
end VerifiableExchange
