import VerifiableExchange.Lib.Durable
import VerifiableExchange.Poller.Restore
import VerifiableExchange.Wire

/-!
# Poller — the one task that reads the sequencer

The poller checks each response before it runs any of it, runs an accepted batch on a copy of the
published state, commits the copy with the claim that covers it, and only then publishes it. Its
calls into the store are statements on a durable database, each of which may be refused; a panic
and an exit of the process cut the program short, as a crash does.
-/

namespace VerifiableExchange
namespace Poller

open Lib Matcher Store

/-! ## What arrives -/

/-- What the signed head's headers say, still unchecked. -/
structure SignedHead where
  lastId : OrderId
  chain : Bytes
  publicKey : String
  signature : Bytes
  deriving DecidableEq

/-- What one request for messages got. -/
inductive Answer
  /-- No response, an error status, or a body that is not a page of messages. -/
  | unreadable
  /-- A page, with the id of the newest message, in case the poller asks for it. -/
  | page (session : Option String) (head : Option SignedHead) (messages : List ReadMessage)
      (newest : Option OrderId)

def headStatement (session : String) (lastId : OrderId) (chain : Bytes) : String :=
  "\n".intercalate ["exchange-feed-head-v1", session, toString lastId, Logchain.toHex chain]

/-- The key the head names signed exactly this session, id and chain. -/
def verifyHead (env : Primitives) (session : String) (head : SignedHead) : Bool :=
  match Operator.fromHex 32 head.publicKey.toList with
  | some key => env.isVerifyingKey key &&
      env.verifyStrict key (headStatement session head.lastId head.chain) head.signature
  | none => false

/-! ## What is published -/

/-- The engine as the API serves it. -/
structure Published where
  matcher : MatcherState
  executionPaused : Bool
  runId : Option Int
  /-- The cursor at the last commit that worked. -/
  durableLastSeen : OrderId
  feedIntegrityFailures : Nat
  feedChainMismatches : Nat
  stateCommitFailures : Nat
  chainVerifiedAt : OrderId
  matcherPubkey : Option String
  validatorsConfigured : Nat
  quorumVerifiedAt : OrderId
  validatorsResponding : Nat
  validatorDisputes : Nat
  deriving DecidableEq

/-- An engine as its process starts to serve it. -/
def Published.of (matcher : MatcherState) (runId : Option Int) : Published where
  matcher := matcher
  executionPaused := false
  runId := runId
  durableLastSeen := matcher.lastSeen
  feedIntegrityFailures := 0
  feedChainMismatches := 0
  stateCommitFailures := 0
  chainVerifiedAt := 0
  matcherPubkey := none
  validatorsConfigured := 0
  quorumVerifiedAt := 0
  validatorsResponding := 0
  validatorDisputes := 0

/-! ## What a commit takes -/

def counters (s : MatcherState) : Counters where
  lastSeen := s.lastSeen
  messagesProcessed := s.messagesProcessed
  cancelsApplied := s.cancelsApplied
  cancelsIgnored := s.cancelsIgnored
  ordersIgnored := s.ordersIgnored
  ordersIgnoredByKind := s.ordersIgnoredByKind
  ruleVersion := s.rules.version
  operatorKey := s.operatorKey
  chain := s.feedChain

def stateRoot (env : Primitives) (s : MatcherState) : Bytes := env.sha256 s.rootPreimage

/-- Everything one commit and its claim need. -/
structure PendingCommit where
  changes : List Change
  counters : Counters
  root : Bytes
  tradesTotal : Nat
  session : String

/-- Takes the recorded changes out of an engine that records them. -/
def takePending (env : Primitives) (s : MatcherState) : Option (PendingCommit × MatcherState) :=
  s.pending.map fun pending =>
    ({ changes := if pending.isEmpty then [] else pending ++ [.executionState s.executionState]
       counters := counters s
       root := stateRoot env s
       tradesTotal := s.tradesTotal
       session := s.feedSession.getD "" }, { s with pending := some [] })

/-! ## The database -/

/-- One batch that was committed. -/
structure Batch where
  runId : Int
  before : MatcherState
  messages : List ReadMessage
  after : MatcherState

/-- The database, and the batches committed to it so far: history no function reads. -/
structure Disk where
  tables : Tables
  batches : List Batch

abbrev Stored (α : Type) := Durable Disk Int StoreError α

/-- One statement on the tables. -/
def statement {α : Type} (run : Tables → Int → Except StoreError (Tables × α)) :
    Stored (Except StoreError α) :=
  .attempt fun disk now => do
    let (tables, answer) ← run disk.tables now
    return ({ disk with tables := tables }, answer)

/-- A statement that answers nothing. -/
def write (run : Tables → Int → Except StoreError Tables) : Stored (Except StoreError Unit) :=
  statement fun tables now => do
    let tables ← run tables now
    return (tables, ())

/-- The transaction of one batch. -/
def commitBatch (batch : Batch) (store : Handle) (changes : List Change) (counters : Counters)
    (claim : ClaimRow) : Stored (Except StoreError Unit) :=
  .attempt fun disk now => do
    let tables ← disk.tables.commit store now changes counters (some claim)
    return (⟨tables, disk.batches ++ [batch]⟩, ())

end Poller

/-! ## The poller -/

open Lib Matcher Store in
/-- Everything the poller task owns. -/
structure Poller where
  published : Poller.Published
  store : Option Handle
  feedUrl : String
  committed : Counters
  committedRoot : Bytes
  emptyPolls : Nat

namespace Poller

open Lib Matcher Store

def EMPTY_POLLS_BEFORE_PROBE : Nat := 30

/-- Stops execution after a persistence failure. -/
def pause (p : Poller) : Poller :=
  { p with published := { p.published with
      executionPaused := true
      stateCommitFailures := saturatingAddU64 p.published.stateCommitFailures 1 } }

def countIntegrityFailure (p : Poller) : Poller :=
  { p with published := { p.published with
      feedIntegrityFailures := saturatingAddU64 p.published.feedIntegrityFailures 1 } }

def withMatcher (p : Poller) (matcher : MatcherState) : Poller :=
  { p with published := { p.published with matcher := matcher } }

/-- The root of the next claim, moved along as long as the run has claimed nothing. -/
def rootAtGenesis (env : Primitives) (p : Poller) : Poller :=
  if p.committed.lastSeen = 0 then
    { p with committedRoot := stateRoot env p.published.matcher }
  else p

/-- Says the process is alive, and writes no state. -/
def heartbeat (p : Poller) (due : Bool) : Stored Poller :=
  match due, p.store with
  | true, some store => do
      match ← write (fun tables now => tables.heartbeat store now) with
      | .ok _ => return p
      | .error _ => return p.pause
  | _, _ => return p

/-! ## The head and the session -/

/-- Decides whether the engine may trust a signed head. The first key whose head verifies is fixed
for the rest of the run. -/
def acceptHead (env : Primitives) (p : Poller) (head : SignedHead) (session : String) :
    Stored (Poller × Bool) := do
  let pinned := p.published.matcher.feedPubkey
  if pinned.any (· ≠ head.publicKey) then return (p.countIntegrityFailure, false)
  else if !verifyHead env session head then return (p.countIntegrityFailure, false)
  else if pinned.isSome then return (p, true)
  else
    let pinnedState : MatcherState :=
      { p.published.matcher with feedPubkey := some head.publicKey }
    match p.store with
    | none => return ((p.withMatcher pinnedState).rootAtGenesis env, true)
    | some store =>
        match ← write (fun tables _ => tables.setFeedPubkey store head.publicKey) with
        | .error _ => return (p.pause, false)
        | .ok _ => return ((p.withMatcher pinnedState).rootAtGenesis env, true)

/-- Learns the session the first time the sequencer announces one. -/
def adoptSession (env : Primitives) (p : Poller) (session : String) : Stored Poller := do
  let adopted : MatcherState := { p.published.matcher with feedSession := some session }
  match p.store with
  | none => return (p.withMatcher adopted).rootAtGenesis env
  | some store =>
      match ← write (fun tables _ => tables.setFeedSession store session) with
      | .error _ => return p.pause
      | .ok _ => return (p.withMatcher adopted).rootAtGenesis env

/-- Compares a verified head against the history already consumed. -/
def checkIdleChain (p : Poller) (head : SignedHead) : Poller :=
  if p.published.matcher.lastSeen ≠ head.lastId then p
  else
    match p.published.matcher.feedChain with
    | none => p
    | some chain =>
        if chain = head.chain then
          { p with published := { p.published with chainVerifiedAt := head.lastId } }
        else
          { p with published := { p.published with
              feedChainMismatches := saturatingAddU64 p.published.feedChainMismatches 1 } }

/-! ## A batch -/

/-- Why the poller refused a whole response. -/
inductive BatchRejection
  | outOfOrder (expected got : OrderId)
  | headDoesNotCover (signedAt batchEnds : OrderId)
  | chainMismatch (at' : OrderId) (ours signed : Bytes)
  | cannotInterpret (tooOld : TooOld)
  deriving DecidableEq

/-- The first id that does not continue the cursor, with the one that would. -/
def firstGap (expected : OrderId) : List ReadMessage → Option (OrderId × OrderId)
  | [] => none
  | m :: rest =>
      if m.id ≠ expected then some (expected, m.id)
      else firstGap (saturatingAddU64 expected 1) rest

/-- The chain these messages extend `chain` into. -/
def extendedBy (env : Primitives) (chain : Bytes) (messages : List ReadMessage) : Bytes :=
  messages.foldl (fun chain m => env.sha256 (chain ++ m.bytes)) chain

def firstUnread (messages : List ReadMessage) : Option TooOld :=
  messages.findSome? (fun m =>
    match m.parsed with
    | .ok _ => none
    | .error tooOld => some tooOld)

/-- The messages of a page that reads, each with the bytes it arrived as. -/
def logOf (messages : List ReadMessage) : List (OrderMessage × Option Bytes) :=
  messages.filterMap (fun m => m.parsed.toOption.map (fun message => (message, some m.bytes)))

/-- Checks a whole batch, and runs it only when every check passes. The state it answers is the one
it was handed, changed where the source changes it; a panic is an error. -/
def applyBatch (env : Primitives) (state : Published) (messages : List ReadMessage)
    (head : SignedHead) : Except Fault (Published × Option BatchRejection) :=
  match firstGap state.matcher.nextExpectedId messages with
  | some (expected, got) =>
      .ok ({ state with
        feedIntegrityFailures := saturatingAddU64 state.feedIntegrityFailures 1 },
        some (.outOfOrder expected got))
  | none =>
      match messages.getLast? with
      | none => .ok (state, none)
      | some last =>
          let mismatch : Published := { state with
            feedChainMismatches := saturatingAddU64 state.feedChainMismatches 1 }
          let unproven : Option BatchRejection :=
            state.matcher.feedChain.bind fun chain =>
              if head.lastId ≠ last.id then some (.headDoesNotCover head.lastId last.id)
              else if extendedBy env chain messages ≠ head.chain then
                some (.chainMismatch last.id (extendedBy env chain messages) head.chain)
              else none
          match unproven with
          | some rejection => .ok (mismatch, some rejection)
          | none =>
              match firstUnread messages with
              | some tooOld => .ok (state, some (.cannotInterpret tooOld))
              | none => do
                  let matcher ← MatcherState.run env state.matcher (logOf messages)
                  let verifiedAt :=
                    if matcher.feedChain.isSome then head.lastId else state.chainVerifiedAt
                  return ({ state with matcher := matcher, chainVerifiedAt := verifiedAt }, none)

/-- What goes out once the batch is committed: the copy, with the validator marks of the moment. -/
def publishOver (candidate published : Published) : Published :=
  { candidate with
    quorumVerifiedAt := published.quorumVerifiedAt
    validatorsResponding := published.validatorsResponding
    validatorDisputes := published.validatorDisputes }

/-- The claim for what was committed last up to what is committed now. -/
def claimFor (sign : String → Bytes) (p : Poller) (pending : PendingCommit) : ClaimRow :=
  let fromMsg := p.committed.lastSeen + 1
  let toMsg := pending.counters.lastSeen
  { fromMsg := fromMsg
    toMsg := toMsg
    rootBefore := p.committedRoot
    rootAfter := pending.root
    tradesTotal := pending.tradesTotal
    signature := some (sign (Logchain.claimStatement pending.session fromMsg toMsg p.committedRoot
      pending.root pending.tradesTotal)) }

/-- Runs a batch on a copy of the published state, commits the copy, and publishes it. -/
def applyCommittedBatch (env : Primitives) (sign : String → Bytes) (p : Poller)
    (messages : List ReadMessage) (head : SignedHead) : Stored (Poller × Option BatchRejection) := do
  if p.published.executionPaused then return (p, none)
  else
    match applyBatch env p.published messages head with
    | .error _ => .stop
    | .ok (_, some rejection) => return (p, some rejection)
    | .ok (candidate, none) =>
        match p.store with
        | none => return ({ p with published := publishOver candidate p.published }, none)
        | some store =>
            match takePending env candidate.matcher with
            | none => .stop
            | some (pending, matcher) =>
                let batch : Batch := ⟨store.runId, p.published.matcher, messages, matcher⟩
                match ← commitBatch batch store pending.changes pending.counters
                    (claimFor sign p pending) with
                | .error _ => return (p.pause, none)
                | .ok _ =>
                    let durable : Published := { candidate with
                      matcher := matcher
                      durableLastSeen := pending.counters.lastSeen }
                    return ({ p with
                      published := publishOver durable p.published
                      committed := pending.counters
                      committedRoot := pending.root }, none)

end Poller
end VerifiableExchange
