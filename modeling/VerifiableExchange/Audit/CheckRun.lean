import VerifiableExchange.Audit.Checks
import VerifiableExchange.Lib.Fueled

/-!
# CheckRun — one audit from its first request to its report

The audit asks for pages of messages as long as anything needs them, and between two messages for
the claims and trades the re-execution has reached. Afterwards it reads whatever claims and trades
are left. What a source answers is a parameter: its answer to the first request, to the second one,
and so on.
-/

namespace VerifiableExchange
namespace Audit

open Lib Matcher Merkle Reporting Store

/-! ## Sources -/

/-- One page of the sequencer's history, with the session announced beside it. -/
structure FeedPage where
  messages : List ReadMessage
  session : Option String

/-- What the sources answer, request by request. -/
structure Answers where
  pages : Nat → Except String FeedPage
  nodes : Nat → TreeAnswer
  claims : Nat → Except String (List ClaimRow)
  trades : Nat → Except String (List DbTrade)
  /-- How many claims there are, where that is known without asking. -/
  claimsHint : Option Nat

/-- How many requests each source was sent. -/
structure Asked where
  pages : Nat
  nodes : Nat
  claims : Nat
  trades : Nat
  deriving DecidableEq

/-- Everything an audit is given before it asks for a message. -/
structure Inputs where
  facts : RunFacts
  tie : HistoryTie
  head : Except String FeedHead
  wireSession : Option String
  horizon : Option OrderId
  anchors : Option (Except String AnchorHistory)
  sth : Except String TreeHead
  rootAnchors : Option (Except String RootAnchorHistory)

/-- What the checks produced. -/
structure Outcome where
  checks : List Check
  notes : List String
  stopped : Option String
  tooOld : Option TooOld
  messagesReplayed : Nat
  boundariesChecked : Nat
  boundariesTotal : Nat

def Outcome.Passed (outcome : Outcome) : Prop := ∀ check ∈ outcome.checks, check.passed

/-- The most claims, and the most trades, one page holds. -/
def LOCAL_PAGE : Nat := 1000

/-! ## The walk -/

/-- An audit between two requests. -/
structure Walk where
  replay : Replay
  fold : ChainFold
  tree : TreeWalk
  signatures : Check
  /-- The last message read. -/
  reached : OrderId
  feedSession : Option String
  historyEndsAt : Option OrderId
  asked : Asked

namespace Walk

variable (env : Primitives) (sha256 : Bytes → Hash) (inputs : Inputs) (answers : Answers)

/-- The session the claims are signed over. -/
def claimSession : String := inputs.facts.session.getD ""

/-- Whether anything still needs messages. -/
def moreNeeded (wantedLeaves : Nat) (w : Walk) : Bool :=
  w.replay.wantsMessages ||
    w.fold.headAt.any (fun at' => w.fold.reached < at') ||
    (w.fold.atCursor.isNone && w.fold.reached < inputs.facts.cursor) ||
    w.fold.anchorsEnd.any (fun at' => w.fold.reached < at') ||
    w.tree.fold.leaves < wantedLeaves

/-- Asks for one page of claims and takes it in. A short page is the last one. -/
def readClaims (w : Walk) : Except String Walk := do
  let page ← answers.claims w.asked.claims
  let replay := w.replay.pushClaims page
  return { w with
    signatures :=
      checkClaimSignatures env inputs.facts (claimSession inputs) page w.signatures
    replay :=
      { replay with claimsEnded := replay.claimsEnded || decide (page.length < LOCAL_PAGE) }
    asked := { w.asked with claims := w.asked.claims + 1 } }

/-- Reads claims until there is one ahead, or no more of them. -/
def fetchClaims (w : Walk) : Fueled String Walk :=
  Fueled.loop (fun w =>
    if w.replay.wantsClaims then Sum.inl <$> Fueled.lift (w.readClaims env inputs answers)
    else pure (.inr w)) w

/-- Asks for one page of trades and takes it in; an empty one is the end of them. -/
def readTrades (w : Walk) : Except String Walk := do
  let rows ← answers.trades w.asked.trades
  return { w with
    replay :=
      if rows.isEmpty then { w.replay with tradesEnded := true } else w.replay.pushTrades rows
    asked := { w.asked with trades := w.asked.trades + 1 } }

/-- Reads recorded trades as far as the re-execution has produced any to compare. -/
def fetchTrades (w : Walk) : Fueled String Walk :=
  Fueled.loop (fun w =>
    if w.replay.wantsTrades then Sum.inl <$> Fueled.lift (w.readTrades answers)
    else pure (.inr w)) w

/-- One message: into the chain and the tree, and through the re-execution with what it needs. -/
def takeMessage (w : Walk) (msg : ReadMessage) : Fueled String Walk := do
  let tree ← Fueled.lift
    ((w.tree.feed sha256 msg.bytes).mapError (fun _ => "a tree node is missing"))
  let w := { w with fold := w.fold.feed env msg, tree := tree }
  let w ← w.fetchClaims env inputs answers
  let replay ← Fueled.lift (w.replay.apply env msg)
  let w := { w with replay := replay.compareTrades, reached := msg.id }
  w.fetchTrades answers

def takeMessages (w : Walk) : List ReadMessage → Fueled String Walk
  | [] => pure w
  | msg :: rest => do
      let w ← w.takeMessage env sha256 inputs answers msg
      w.takeMessages rest

/-- The log's own nodes for the leaves of a page. -/
def readNodes (w : Walk) : Walk :=
  if w.tree.wantsNodes then
    let tree :=
      match answers.nodes w.asked.nodes with
      | .served nodes => w.tree.page nodes
      | .noSource => w.tree.withoutSource
      | .unreadable reason => w.tree.unreadable reason
    { w with tree := tree, asked := { w.asked with nodes := w.asked.nodes + 1 } }
  else w

/-- The session a page announces must be the one the first page announced. -/
def nameSession (w : Walk) (session : Option String) : Except String Walk :=
  match w.feedSession, session with
  | none, some now => .ok { w with feedSession := some now }
  | some first, some now =>
      if first = now then .ok w
      else .error (s!"the feed changed session from {first} to {now} while its history was " ++
        "being read: these are two different histories and cannot be audited as one")
  | _, none => .ok w

/-- One page of messages. It has to carry the history past where it was asked to start. -/
def readPage (w : Walk) : Fueled String (Walk ⊕ Walk) := do
  let page ← Fueled.lift (answers.pages w.asked.pages)
  let w := { w with asked := { w.asked with pages := w.asked.pages + 1 } }
  let w ← Fueled.lift (w.nameSession page.session)
  if page.messages.isEmpty then return .inr { w with historyEndsAt := some w.reached }
  else
    let askedFrom := w.reached
    let w ← w.takeMessages env sha256 inputs answers page.messages
    if w.reached ≤ askedFrom then
      Fueled.fail (s!"the feed answered a request for the messages after {askedFrom} with " ++
        s!"{page.messages.length} message(s) that do not go past it. The last is {w.reached}, " ++
        "so its history cannot be read forward")
    else return .inl (w.readNodes answers)

/-- Every page the audit needs. -/
def readHistory (wantedLeaves : Nat) (w : Walk) : Fueled String Walk :=
  Fueled.loop (fun w =>
    if w.moreNeeded inputs wantedLeaves then w.readPage env sha256 inputs answers
    else pure (.inr w)) w

/-- Whatever is left of the recorded trades. -/
def drainTrades (w : Walk) : Fueled String Walk :=
  Fueled.loop (fun w =>
    if w.replay.tradesEnded then pure (.inr w)
    else do
      let rows ← Fueled.lift (answers.trades w.asked.trades)
      let w := { w with asked := { w.asked with trades := w.asked.trades + 1 } }
      if rows.isEmpty then return .inr w
      else return .inl { w with replay := w.replay.pushTrades rows }) w

/-- The walk once no more messages are applied. -/
def endReplay (w : Walk) : Walk :=
  { w with replay := { w.replay with replayEnded := true }.setTradesBound }

/-- The whole history and whatever claims are left: the audit before it reads the rest of the
trades. -/
def readAll (wantedLeaves : Nat) (w : Walk) : Fueled String Walk := do
  let w ← w.readHistory env sha256 inputs answers wantedLeaves
  let w ← w.fetchClaims env inputs answers
  return w.endReplay

end Walk

/-! ## The report -/

/-- One boundary for each claim, and the state before the first claim. -/
def boundariesTotal (claims : Nat) : Nat := if claims = 0 then 0 else claims + 1

/-- Whether the feed serves the history this run consumed, and whether it can be shown not to. -/
def sessionCheck (facts : RunFacts) (wireSession : Option String) : Check × Bool :=
  let check : Check :=
    { Check.new "the feed is the history this run consumed" with checked := 1 }
  match facts.session, wireSession with
  | some ours, some theirs =>
      if ours = theirs then (check, false)
      else (check.fail (s!"run {facts.runId} consumed feed session {ours}, this feed serves " ++
        s!"session {theirs}"), true)
  | some ours, none =>
      (check.fail (s!"run {facts.runId} consumed feed session {ours}, this feed announces no " ++
        "session at all"), true)
  | none, _ =>
      (check.fail (s!"run {facts.runId} recorded no feed session, so the history this feed " ++
        "serves cannot be shown to be the history the run consumed"), false)

/-- The strongest tie between the messages in hand and this run. -/
def historyCheck (inputs : Inputs) (w : Walk) : Check :=
  let facts := inputs.facts
  let check : Check :=
    { Check.new "the messages are the ones the run consumed" with checked := 1 }
  match inputs.tie with
  | .storedChain none => check.fail (s!"run {facts.runId} recorded no hash chain for the " ++
      "history it consumed, so these messages cannot be shown to be that history")
  | .storedChain (some recorded) =>
      match w.fold.atCursor with
      | none =>
          let ends := w.historyEndsAt.getD w.fold.reached
          check.fail (s!"the feed's history ends at message {ends}, but run {facts.runId} " ++
            s!"committed up to message {facts.cursor}")
      | some ours =>
          if ours = recorded then check
          else check.fail (s!"run {facts.runId} consumed a history hashing to " ++
            s!"{Logchain.toHex recorded} at message {facts.cursor}, these messages hash to " ++
            s!"{Logchain.toHex ours}")
  | .signedClaims =>
      if w.fold.reached < facts.cursor then
        check.fail (s!"the feed's history ends at message {w.fold.reached}, but this run " ++
          s!"committed up to message {facts.cursor}")
      else check

section

variable (surroundings : Surroundings) (inputs : Inputs) (answers : Answers)

/-- The tree checks, the stored nodes and the notes, which every report ends with. -/
def treePart (tree : TreeWalk) : List Check × List String :=
  let (checks, notes) := checkTree inputs.sth inputs.rootAnchors tree.fold
  let (nodes, noLog) := finishWalk tree
  (checks ++ [nodes], notes ++ noLog)

/-- The checks against the anchors, where a contract was named. -/
def anchorPart (fold : ChainFold) (replayed : SortedMap OrderId Bytes) : List Check :=
  match inputs.anchors with
  | none => []
  | some anchors =>
      checkAnchors surroundings.age inputs.facts anchors fold replayed inputs.facts.cursor

/-- Where the anchors stand. -/
def anchorsAt : List OrderId :=
  match inputs.anchors with
  | some (.ok history) => history.positions
  | _ => []

/-- What is reported where the feed serves another history: nothing was run. -/
def reportReplaced (session : Check) (tree : TreeWalk) : Outcome :=
  let empty := ChainFold.new none inputs.facts.cursor (anchorsAt inputs)
  let (trees, notes) := treePart inputs tree
  { checks :=
      session :: checkHead surroundings.env inputs.facts inputs.head empty 0 ++
        anchorPart surroundings inputs empty SortedMap.empty ++ trees
    notes := notes
    stopped := some (s!"this feed is not serving the history run {inputs.facts.runId} was built " ++
      "from, so its claims were not re-executed against it")
    tooOld := none
    messagesReplayed := 0
    boundariesChecked := 0
    boundariesTotal := answers.claimsHint.elim 0 boundariesTotal }

/-- What is reported once everything is read. -/
def report (session : Check) (w : Walk) : Outcome :=
  let result := w.replay.finish inputs.facts.cursor
  let heads := checkHead surroundings.env inputs.facts inputs.head w.fold result.claimsTo
  let (trees, notes) := treePart inputs w.tree
  let checks :=
    match w.replay.tooOld with
    | some _ => session :: heads ++ [w.signatures] ++ trees
    | none =>
        session :: heads ++ [w.signatures, historyCheck inputs w, result.coverage,
          result.continuity, result.roots, result.totals, result.trades] ++
          anchorPart surroundings inputs w.fold result.atAnchors ++ trees
  { checks := checks
    notes := notes
    stopped := none
    tooOld := w.replay.tooOld
    messagesReplayed := result.messagesReplayed
    boundariesChecked := result.boundariesChecked
    boundariesTotal := boundariesTotal w.replay.claimsSeen }

/-- The engine the run's messages go through. -/
def openingEngine : Except String MatcherState := do
  let facts := inputs.facts
  if facts.rootVersion ≠ 4 ∧ facts.rootVersion ≠ 5 then
    .error s!"unsupported execution root version {facts.rootVersion}"
  else
    let genesis ←
      match facts.rootVersion, facts.executionGenesis with
      | 5, some genesis => .ok genesis
      | 5, none =>
          if facts.cursor = 0 then .ok ExecutionGenesis.synthetic
          else .error "root v5 run is missing its execution genesis policy"
      | _, _ => .ok ExecutionGenesis.synthetic
    let engine ← genesis.replaying (Walk.claimSession inputs)
    return { engine with feedPubkey := facts.feedPubkey }

/-- The walk before its first request. -/
def startWalk (engine : MatcherState) (tree : TreeWalk) : Walk where
  replay := .new surroundings.env engine inputs.facts.rootVersion inputs.horizon (anchorsAt inputs)
  fold := .new (inputs.head.toOption.map FeedHead.lastId) inputs.facts.cursor (anchorsAt inputs)
  tree := tree
  signatures := .new "every claim is signed by this run's key"
  reached := 0
  feedSession := none
  historyEndsAt := none
  asked := ⟨0, 0, 0, 0⟩

/-- Every check against one run and one history. -/
def checkRun : Fueled String Outcome :=
  let sizes := rootSizes inputs.sth inputs.rootAnchors
  let tree := TreeWalk.new surroundings.sha256 sizes
  let (session, replacedFeed) := sessionCheck inputs.facts inputs.wireSession
  if replacedFeed then pure (reportReplaced surroundings inputs answers session tree)
  else do
    let engine ← Fueled.lift (openingEngine inputs)
    let w ← (startWalk surroundings inputs engine tree).readAll surroundings.env surroundings.sha256
      inputs answers (sizes.getLast?.getD 0)
    let w ← w.drainTrades answers
    return report surroundings inputs session w

end

end Audit
end VerifiableExchange
