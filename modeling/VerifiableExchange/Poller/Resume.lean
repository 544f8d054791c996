import VerifiableExchange.Poller.Chain

/-!
# Resume — the poller and the chain of its run

What ties a poller to the claims of the run it writes: the cursor and the root of its next claim
are where the last claim ended. A run read back is tied to its claims again, because it is resumed
only where the last claim vouches for it.
-/

namespace VerifiableExchange

namespace Matcher
namespace MatcherState

open Lib Store

/-! ## What a restored engine is -/

theorem restore_eq_ok {env : Primitives} {snapshot : Snapshot} {trades : List TradeRow}
    {s : MatcherState} (h : restore env snapshot trades = .ok s) :
    ∃ limits mids ledger, MidWindow.restore snapshot.executionState.midWindows = .ok mids ∧
      s = { trades.foldl replayTrade
          (snapshot.orders.foldl replaceOrder (restoreCounters env snapshot limits mids)) with
        recentMessages := snapshot.recent
        ledger := ledger } := by
  simp only [restore, bind_eq_ok, mapError_eq_ok] at h
  obtain ⟨_, -, limits, -, mids, hmids, _, -, restored, hrestored, _, -, h⟩ := h
  cases h
  unfold restoreExtensions at hrestored
  split at hrestored
  · simp only [mapError_eq_ok, restoreLedger, bind_eq_ok] at hrestored
    obtain ⟨_, -, ledger, -, _, -, hrestored⟩ := hrestored
    cases hrestored
    exact ⟨limits, mids, ledger, hmids, rfl⟩
  · cases hrestored
    exact ⟨limits, mids, _, hmids, rfl⟩
  · cases hrestored
    exact ⟨limits, mids, _, hmids, rfl⟩

/-- What the orders and the trades of a snapshot leave alone. -/
theorem restored_fields (env : Primitives) (snapshot : Snapshot) (limits : Option ResourceLimits)
    (mids : MidWindow) (orders : List OrderRow) (trades : List TradeRow) :
    (trades.foldl replayTrade (orders.foldl replaceOrder
        (restoreCounters env snapshot limits mids))).lastSeen = snapshot.counters.lastSeen ∧
      (trades.foldl replayTrade (orders.foldl replaceOrder
        (restoreCounters env snapshot limits mids))).pending = some [] ∧
      (trades.foldl replayTrade (orders.foldl replaceOrder
        (restoreCounters env snapshot limits mids))).feedPubkey = snapshot.feedPubkey := by
  induction trades using List.reverseRecOn with
  | nil =>
      induction orders using List.reverseRecOn with
      | nil => exact ⟨rfl, rfl, rfl⟩
      | append_singleton orders row ih =>
          rw [List.foldl_append]
          exact ih
  | append_singleton trades row ih =>
      rw [List.foldl_append]
      exact ih

end MatcherState
end Matcher

namespace Poller

open Lib Matcher Store

/-! ## An engine that consumed nothing -/

/-- The engine stands before its first message: only its policy, its session and its key are its
own. -/
structure AtGenesis (s : MatcherState) : Prop where
  lastSeen : s.lastSeen = 0
  symbols : s.symbols = .empty
  books : s.books = .empty
  positions : s.positions = .empty
  rules : s.rules = .genesis
  operatorKey : s.operatorKey = none
  mids : s.mids = .empty
  tradesTotal : s.tradesTotal = 0
  feedChain : s.feedChain = some MatcherState.emptyChain

namespace AtGenesis

variable {env : Primitives} {s t : MatcherState}

theorem root (h : AtGenesis s) : stateRoot env s = genesisRoot env s := by
  unfold genesisRoot stateRoot MatcherState.rootPreimage MatcherState.executionState
  rw [h.lastSeen, h.symbols, h.books, h.positions, h.rules, h.operatorKey, h.mids, h.tradesTotal,
    h.feedChain]
  rfl

theorem midWindows (h : AtGenesis s) : s.executionState.midWindows = .empty := by
  unfold MatcherState.executionState
  rw [h.mids]
  rfl

theorem of_restore {snapshot : Snapshot} (h : MatcherState.restore env snapshot [] = .ok s)
    (hseen : snapshot.counters.lastSeen = 0) (horders : snapshot.orders = [])
    (hlistings : snapshot.listings = [])
    (hchain : snapshot.counters.chain = some MatcherState.emptyChain)
    (hkey : snapshot.counters.operatorKey = none) (hrules : snapshot.counters.ruleVersion = 1)
    (hwindows : snapshot.executionState.midWindows = .empty) : AtGenesis s := by
  obtain ⟨limits, mids, ledger, hmids, rfl⟩ := MatcherState.restore_eq_ok h
  have hempty : mids = .empty := by
    rw [hwindows] at hmids
    exact (Except.ok.inj hmids).symm
  rw [horders]
  exact {
    lastSeen := hseen
    symbols := by
      change SymbolRegistry.fromRows snapshot.listings = .empty
      rw [hlistings]
      rfl
    books := rfl
    positions := rfl
    rules := by
      change (RuleSet.known snapshot.counters.ruleVersion).getD .genesis = .genesis
      rw [hrules]
      rfl
    operatorKey := by
      change snapshot.counters.operatorKey.filter env.isVerifyingKey = none
      rw [hkey]
      rfl
    mids := hempty
    tradesTotal := rfl
    feedChain := hchain }

end AtGenesis

/-! ## The engine and its claims -/

/-- A key the engine fixed is on disk. -/
def Recorded (tables : Tables) (run : Int) (s : MatcherState) : Prop :=
  s.feedPubkey.isSome = true →
    ∀ row, tables.runs.get? run = some row → row.feedPubkey.isSome = true

theorem Recorded.of_kept {tables tables' : Tables} {run : Int} {s : MatcherState}
    (h : Recorded tables run s) (hkept : KeptRun tables tables' run) : Recorded tables' run s := by
  intro hsome row' hrow'
  obtain ⟨row, hrow, hkey⟩ := hkept.opened row' hrow'
  exact hkey (h hsome row hrow)

/-- The engine stands where the claims of its run end. -/
structure Tied (env : Primitives) (tables : Tables) (run : Int) (s : MatcherState) : Prop where
  cursor : claimedUpTo (tables.claimsOf run) = s.lastSeen
  last : ∀ claim, (tables.claimsOf run).getLast? = some claim → claim.rootAfter = stateRoot env s
  genesis : s.lastSeen = 0 → AtGenesis s
  pinned : 0 < s.lastSeen → s.feedPubkey.isSome = true
  recorded : Recorded tables run s

namespace Tied

variable {env : Primitives} {disk : Disk} {tables : Tables} {run : Int} {s t : MatcherState}

theorem of_kept (h : Tied env disk.tables run s) (hkept : KeptRun disk.tables tables run) :
    Tied env tables run s where
  cursor := by rw [hkept.rows.claimsOf, h.cursor]
  last := by
    rw [hkept.rows.claimsOf]
    exact h.last
  genesis := h.genesis
  pinned := h.pinned
  recorded := h.recorded.of_kept hkept

/-- A run without claims is tied to every engine that consumed nothing. -/
theorem of_genesis (hclaims : tables.claimsOf run = []) (hgenesis : AtGenesis s)
    (hrecorded : Recorded tables run s) : Tied env tables run s where
  cursor := by
    rw [hclaims, hgenesis.lastSeen]
    rfl
  last claim hlast := by
    rw [hclaims] at hlast
    cases hlast
  genesis _ := hgenesis
  pinned hpos := by
    rw [hgenesis.lastSeen] at hpos
    exact absurd hpos (lt_irrefl 0)
  recorded := hrecorded

/-- Where the cursor stands at nothing, nothing is claimed. -/
theorem claims_eq_nil (h : Tied env disk.tables run s) (hsound : RunSound env disk run)
    (hzero : s.lastSeen = 0) : disk.tables.claimsOf run = [] := by
  by_contra hne
  have hpos := hsound.chain.claimedUpTo_pos hne
  rw [h.cursor, hzero] at hpos
  exact lt_irrefl 0 hpos

end Tied

/-- A cursor that was stored reads back as it was. -/
theorem asU64_natCast {cursor : Integer} {value : Nat} (h : cursor.val = value) :
    asU64 cursor.val = value := by
  have hcursor := cursor.property
  unfold InI64 i64Min i64Max at hcursor
  unfold asU64
  omega

/-- The engine of a run read back stands where the claims of the run end. -/
theorem tied_of_load {env : Primitives} {disk : Disk} {run : Int} {snapshot : Snapshot}
    {trusted : Bytes} {restored s : MatcherState} (hsound : RunSound env disk run)
    (hload : disk.tables.load run = .ok snapshot)
    (hauth : authenticateSnapshot env snapshot trusted = .ok ())
    (hrestore : MatcherState.restore env snapshot
      ((Tables.rowsOf disk.tables.trades run).map Prod.snd) = .ok restored)
    (hs : ∃ ledger, s = { restored with ledger := ledger })
    (hroot : ∀ root, snapshot.lastClaimRoot = some root → root = stateRoot env s) :
    Tied env disk.tables run s ∧ s.pending = some [] := by
  obtain ⟨point, row, hloaded⟩ := Tables.load_eq_ok hload
  obtain ⟨hseen, hchain, hkey, hrules⟩ := Tables.loadCounters_eq_ok hloaded.counters
  have hcursor : snapshot.counters.lastSeen = claimedUpTo (disk.tables.claimsOf run) := by
    rw [hseen]
    exact asU64_natCast (hsound.cursor point hloaded.hasPoint)
  obtain ⟨ledger, rfl⟩ := hs
  have hfields : restored.lastSeen = snapshot.counters.lastSeen ∧ restored.pending = some [] ∧
      restored.feedPubkey = snapshot.feedPubkey := by
    obtain ⟨limits, mids, _, -, rfl⟩ := MatcherState.restore_eq_ok hrestore
    exact MatcherState.restored_fields env snapshot limits mids _ _
  obtain ⟨hlastSeen, hpending, hpubkey⟩ := hfields
  refine ⟨?_, hpending⟩
  by_cases hclaims : disk.tables.claimsOf run = []
  · have hunclaimed := hsound.unclaimed hclaims
    obtain ⟨-, hhash, hnone, hversion, hwindows⟩ := hunclaimed.point point hloaded.hasPoint
    have hzero : snapshot.counters.lastSeen = 0 := by
      rw [hcursor, hclaims]
      rfl
    rw [Tables.rowsOf_eq_nil hunclaimed.trades] at hrestore
    have hgenesis : AtGenesis restored := AtGenesis.of_restore hrestore hzero
      (by rw [hloaded.orders, Tables.rowsOf_eq_nil hunclaimed.openOrders]; rfl)
      (by rw [hloaded.listings, Tables.rowsOf_eq_nil hunclaimed.listings]; rfl)
      (hchain.trans hhash) (hkey.trans hnone) (hrules hversion) (hloaded.midWindows hwindows)
    refine .of_genesis hclaims { hgenesis with } (fun hsome row' hrow' => ?_)
    cases hloaded.hasRow.symm.trans hrow'
    rw [← hloaded.feedPubkey, ← hpubkey]
    exact hsome
  · obtain ⟨claim, hlatest⟩ : ∃ claim, disk.tables.latestClaim run = some claim := by
      cases hlatest : disk.tables.latestClaim run with
      | some claim => exact ⟨claim, rfl⟩
      | none => exact absurd hlatest (Store.Tables.latestClaim_ne_none hclaims)
    have hto : claim.toMsg = claimedUpTo (disk.tables.claimsOf run) :=
      (authenticateSnapshot_eq_ok hauth (hloaded.lastClaim.trans hlatest)).trans hcursor
    have hlast : (disk.tables.claimsOf run).getLast? = some claim :=
      (hsound.chain.toMsg_le (Store.Tables.latestClaim_mem hlatest)).2 hto
    have hafter : claim.rootAfter = stateRoot env { restored with ledger := ledger } :=
      hroot _ (by rw [hloaded.lastClaimRoot, hlatest]; rfl)
    exact {
      cursor := hcursor.symm.trans hlastSeen.symm
      last := fun found hfound => by
        cases hlast.symm.trans hfound
        exact hafter
      genesis := fun hzero => by
        have hpos := hsound.chain.claimedUpTo_pos hclaims
        rw [← hcursor, ← hlastSeen] at hpos
        exact absurd hzero hpos.ne'
      pinned := fun _ => by
        change restored.feedPubkey.isSome = true
        rw [hpubkey, hloaded.feedPubkey]
        exact hsound.pinned row hloaded.hasRow hclaims
      recorded := fun _ row' hrow' => hsound.pinned row' hrow' hclaims }

end Poller
end VerifiableExchange
