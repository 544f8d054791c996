import VerifiableExchange.Poller.State
import VerifiableExchange.Store.Fencing

/-!
# Loop — one poll after another

What the poller does with an answer of the sequencer, from the signature over its head to the
commit of its batch, and what it does when the sequencer's history was replaced. A process opens
the state database before its first poll and marks the run stopped after its last.
-/

namespace VerifiableExchange
namespace Poller

open Lib Matcher Store

/-! ## Commits without a batch -/

/-- Puts changes back after a commit that failed, in front of anything recorded since. -/
def requeue (s : MatcherState) (changes : List Change) : MatcherState :=
  { s with pending := s.pending.map (fun pending => changes ++ pending) }

/-- Writes everything matched since the last commit. -/
def commit (env : Primitives) (sign : String → Bytes) (p : Poller) : Stored Poller := do
  match p.store, takePending env p.published.matcher with
  | some store, some (pending, matcher) =>
      let taken := p.withMatcher matcher
      if pending.changes = [] ∧ pending.counters = p.committed then return taken
      else
        let claim :=
          if p.committed.lastSeen < pending.counters.lastSeen then some (claimFor sign p pending)
          else none
        match ← write (fun tables now =>
            tables.commit store now pending.changes pending.counters claim) with
        | .ok _ =>
            return { taken with
              published := { taken.published with durableLastSeen := pending.counters.lastSeen }
              committed := pending.counters
              committedRoot := pending.root }
        | .error _ =>
            return (taken.withMatcher (requeue matcher pending.changes)).pause
  | _, _ => return p

/-- The ledger of a run that starts under the policy of the one before it. -/
def openingLedger (config : Option FundingConfig) : Stored Ledger :=
  match config.map Ledger.funded with
  | none => pure Ledger.syntheticLegacy
  | some (.ok ledger) => pure ledger
  | some (.error _) => .stop

/-- The empty engine of a new run. The key and the settings of the process survive into it. -/
def freshMatcher (old : MatcherState) (session : Option String) (ledger : Ledger)
    (pending : Option (List Change)) : MatcherState :=
  { MatcherState.new with
    pending := pending
    feedSession := session
    feedPubkey := old.feedPubkey
    ledger := ledger
    resourceLimits := old.resourceLimits }

/-- The poller at the start of a new run. -/
def restarted (env : Primitives) (p : Poller) (matcher : MatcherState) (runId : Option Int) :
    Poller :=
  { p with
    committed := Counters.default
    committedRoot := stateRoot env matcher
    published := { Published.of matcher runId with
      matcherPubkey := p.published.matcherPubkey
      validatorsConfigured := p.published.validatorsConfigured } }

/-- Writes a setting of the run, where there is one. -/
def writeSetting (value : Option String) (set : String → Tables → Except StoreError Tables) :
    Stored (Except StoreError Unit) :=
  match value with
  | none => pure (.ok ())
  | some value => write (fun tables _ => set value tables)

/-- Writes the settings of a run that was opened, and its empty engine. -/
def beginRun (env : Primitives) (p : Poller) (session : Option String) (store : Handle) :
    Stored Poller := do
  let old := p.published.matcher
  let .ok _ ← writeSetting session (fun session tables => tables.setFeedSession store session)
    | return p.pause
  let .ok _ ← writeSetting old.feedPubkey
      (fun pinned tables => tables.setFeedPubkey store pinned)
    | return p.pause
  let .ok _ ← writeSetting p.published.matcherPubkey
      (fun key tables => tables.setMatcherPubkey store key)
    | return p.pause
  let ledger ← openingLedger old.ledger.config
  let matcher := freshMatcher old session ledger (some [])
  let .ok _ ← write (fun tables now => tables.commit store now
      [.executionState matcher.executionState] (counters matcher) none)
    | return p.pause
  return p.restarted env matcher (some store.runId)

/-- Closes the current run and starts an empty run in the same database. -/
def startNewRun (env : Primitives) (sign : String → Bytes) (pid : Int) (p : Poller)
    (session : Option String) : Stored Poller := do
  let p ← p.commit env sign
  let old := p.published.matcher
  if p.published.executionPaused then return p
  else
    match p.store with
    | none => do
        let ledger ← openingLedger old.ledger.config
        return p.restarted env (freshMatcher old session ledger none) none
    | some closed => do
        let .ok _ ← write (fun tables now => tables.closeRun closed .feedRestarted now)
          | return p.pause
        let .ok store ← statement (fun tables now => tables.startRun p.feedUrl now pid)
          | return p.pause
        { p with store := some store }.beginRun env session store

/-! ## One poll -/

/-- A page of the session the run follows. -/
def takePage (env : Primitives) (sign : String → Bytes) (pid : Int) (due : Bool) (p : Poller)
    (session : String) (head : SignedHead) (messages : List ReadMessage)
    (newest : Option OrderId) : Stored Poller := do
  if messages = [] then
    let probing : Bool := EMPTY_POLLS_BEFORE_PROBE ≤ p.emptyPolls + 1
    let since := p.published.matcher.lastSeen
    let p := { p with emptyPolls := if probing then 0 else p.emptyPolls + 1 }
    if probing && newest.any (· < since) then p.startNewRun env sign pid (some session)
    else
      let p ← (p.checkIdleChain head).commit env sign
      p.heartbeat due
  else
    let (p, rejection) ← ({ p with emptyPolls := 0 }).applyCommittedBatch env sign messages head
    if rejection.isSome then p.heartbeat due else return p

/-- One turn of the loop, with the answer the sequencer gave and whether a heartbeat is due. -/
def poll (env : Primitives) (sign : String → Bytes) (pid : Int) (p : Poller) (answer : Answer)
    (due : Bool) : Stored Poller := do
  if p.published.executionPaused then return p
  else
    match answer with
    | .page (some session) (some head) messages newest => do
        let (p, accepted) ← p.acceptHead env head session
        if !accepted then p.heartbeat due
        else
          match p.published.matcher.feedSession with
          | some known =>
              if known ≠ session then p.startNewRun env sign pid (some session)
              else p.takePage env sign pid due session head messages newest
          | none =>
              if 0 < p.published.matcher.lastSeen then p.startNewRun env sign pid (some session)
              else do
                let p ← p.adoptSession env session
                p.takePage env sign pid due session head messages newest
    | .page _ _ _ _ => p.countIntegrityFailure.heartbeat due
    | .unreadable => p.heartbeat due

/-- Writes the last batch to disk and marks the run stopped. -/
def finish (env : Primitives) (sign : String → Bytes) (p : Poller) : Stored Poller := do
  let p ← p.commit env sign
  if p.published.executionPaused then return p
  else
    match p.store with
    | none => return p
    | some store =>
        match ← write (fun tables now => tables.closeStopped store now) with
        | .ok _ => return p
        | .error _ => return p.pause

/-! ## The start of a process -/

/-- How a process is started. -/
structure Settings where
  /-- The state database; without one the engine keeps its books in memory only. -/
  stateDb : Option String
  feedUrl : String
  graceMs : Nat
  procfs : Option (List Int)
  pid : Int
  reset : Bool
  ledger : Ledger
  /-- The public half of the key the process signs its claims with. -/
  claimKey : Bytes
  validators : Nat

/-- A call that ends the process when it fails. -/
def orExit {α : Type} (call : Stored (Except StoreError α)) : Stored α := do
  match ← call with
  | .ok a => return a
  | .error _ => .stop

/-- Claims the run to resume, or none, and closes it first where the caller abandons it. -/
def claimOpenRun (settings : Settings) (path : String) : Stored (Option Handle) := do
  let found ← orExit (statement fun tables now => do
    let found ← tables.inspect path settings.graceMs now.toNat settings.procfs
    return (tables, found))
  match found with
  | none => return none
  | some seen => do
      let claimed ← orExit (statement fun tables now =>
        .ok (tables.takeRun seen now settings.pid))
      if !claimed then .stop
      else
        let store : Handle := ⟨seen.runId, seen.epoch + 1⟩
        if settings.reset then do
          orExit (write (fun tables now => tables.closeRun store .reset now))
          return none
        else return some store

/-- The restored engine, under the policy of the process where the run stored none. -/
def underPolicy (settings : Settings) (snapshot : Snapshot) (restored : MatcherState) :
    MatcherState :=
  let hasLedger := snapshot.executionState.extensions.contains ledgerExtension
  if hasLedger = false ∧ restored.lastSeen = 0 then
    { restored with ledger := settings.ledger }
  else restored

/-- The state to resume from, against the key file and the root of the last claim. -/
def resumeState (env : Primitives) (settings : Settings) (store : Handle) :
    Stored MatcherState := do
  let (snapshot, trades) ← orExit (statement fun tables _ => do
    let snapshot ← tables.load store.runId
    return (tables, snapshot, (Tables.rowsOf tables.trades store.runId).map Prod.snd))
  match authenticateSnapshot env snapshot settings.claimKey,
      MatcherState.restore env snapshot trades with
  | .ok _, .ok restored =>
      let state := underPolicy settings snapshot restored
      if state.ledger.mode ≠ settings.ledger.mode ∨ state.ledger.config ≠ settings.ledger.config then
        .stop
      else if snapshot.lastClaimRoot.any (· ≠ stateRoot env state) then .stop
      else return state
  | _, _ => .stop

/-- The run a process works on: the one it resumes, or a new one. -/
def openRun (env : Primitives) (settings : Settings) (path : String) :
    Stored (Handle × MatcherState) := do
  match ← claimOpenRun settings path with
  | some store => do
      let state ← resumeState env settings store
      return (store, state)
  | none => do
      let store ← orExit (statement fun tables now =>
        tables.startRun settings.feedUrl now settings.pid)
      return (store, { MatcherState.recording with ledger := settings.ledger })

/-- The funding policy of a run is on disk before the feed sends its first message. -/
def persistGenesis (store : Handle) (state : MatcherState) : Stored Unit :=
  if state.lastSeen = 0 then
    orExit (write fun tables now => tables.commit store now
      [.executionState state.executionState] (counters state) none)
  else pure ()

/-- Opens the state database, when there is one, and builds the engine to match. -/
def openState (env : Primitives) (settings : Settings) : Stored (Option Handle × MatcherState) := do
  match settings.stateDb with
  | none => return (none, { MatcherState.new with ledger := settings.ledger })
  | some path => do
      let (store, state) ← openRun env settings path
      persistGenesis store state
      return (some store, state)

/-- Records which key signs this run's claims, and refuses to continue a run whose key changed. -/
def pinClaimKey (store : Handle) (pubkey : String) : Stored Unit := do
  let recorded ← orExit (statement fun tables _ => do
    let run ← orFail (tables.runs.get? store.runId) StoreError.sql
    return (tables, run.matcherPubkey))
  match recorded with
  | some recorded => if recorded = pubkey then return () else .stop
  | none => orExit (write (fun tables _ => tables.setMatcherPubkey store pubkey))

/-- The poller of a process that starts. -/
def launch (env : Primitives) (settings : Settings) : Stored Poller := do
  let (store, state) ← openState env settings
  let pubkey := Logchain.toHex settings.claimKey
  store.elim (pure ()) (fun store => pinClaimKey store pubkey)
  return {
    published := { Published.of state (store.map Handle.runId) with
      matcherPubkey := some pubkey
      validatorsConfigured := settings.validators }
    store := store
    feedUrl := settings.feedUrl
    committed := counters state
    committedRoot := stateRoot env state
    emptyPolls := 0 }

/-! ## Processes one after the other -/

/-- One process: how it is started, what it signs its claims with, and each answer it gets with
whether a heartbeat is due. -/
structure Lifetime where
  settings : Settings
  sign : String → Bytes
  turns : List (Answer × Bool)

namespace Lifetime

/-- The process up to the last of its turns. -/
def live (env : Primitives) (life : Lifetime) : Stored Poller := do
  let p ← launch env life.settings
  life.turns.foldlM
    (fun p turn => p.poll env life.sign life.settings.pid turn.1 turn.2) p

/-- The process up to its shutdown. -/
def serve (env : Primitives) (life : Lifetime) : Stored Poller := do
  let p ← life.live env
  p.finish env life.sign

end Lifetime

/-- A database no process has opened. -/
def Disk.empty : Disk where
  tables :=
    { runs := .empty, sequence := 0, resumePoint := .empty, openOrders := .empty, trades := .empty,
      recentMessages := .empty, listings := .empty, ordersIgnoredKinds := .empty, claims := .empty }
  batches := []

/-- The database some processes leave, each cut short or refused where its fates say. -/
def Disk.after (env : Primitives) (lives : List (Lifetime × List (Fate Int StoreError))) : Disk :=
  lives.foldl (fun disk life => (life.1.serve env disk life.2).2.1) .empty

end Poller
end VerifiableExchange
