import VerifiableExchange.Audit.Replay
import VerifiableExchange.Poller.State

/-!
# Checks — what an audit compares beside the re-execution

The sequencer's two signed heads against the messages it serves, the anchors on a public chain
against the history and the execution, and the signature on every claim. Each check counts what it
read and keeps the first few failures.
-/

namespace VerifiableExchange
namespace Audit

open Lib Matcher Merkle Reporting Store

/-! ## The run and what it is held against -/

/-- What the audit knows about the run before it re-executes anything. -/
structure RunFacts where
  rootVersion : Nat
  executionGenesis : Option ExecutionGenesis
  runId : Int
  session : Option String
  feedPubkey : Option String
  matcherPubkey : Option String
  cursor : OrderId

/-- What ties the messages to this one run. -/
inductive HistoryTie
  | storedChain (chain : Option Bytes)
  | signedClaims

/-- The signed head of the sequencer's log. -/
structure FeedHead where
  session : String
  lastId : OrderId
  chain : String
  publicKey : String
  signature : String
  deriving DecidableEq

/-- The signed tree head as it is served. -/
structure RawTreeHead where
  session : String
  timestamp : UInt64
  treeSize : Nat
  rootHash : String
  publicKey : String
  signature : String
  deriving DecidableEq

/-- A tree head whose signature verified under the key it names. -/
structure TreeHead where
  session : String
  timestamp : UInt64
  treeSize : Nat
  root : Hash
  publicKey : String
  deriving DecidableEq

/-- One anchor, as the contract recorded it. -/
structure Anchor where
  lastId : OrderId
  session : String
  chain : Bytes
  stateRoot : Bytes
  anchoredAt : Nat
  blockNumber : Nat
  index : Nat

/-- Every anchor one contract holds, and how completely they were read. -/
structure AnchorHistory where
  contract : String
  anchors : List Anchor
  latest : Anchor
  total : Nat
  scannedFrom : Nat
  complete : Bool
  latestAgrees : Bool

/-- One root anchor, as the contract recorded it. -/
structure RootAnchor where
  treeSize : Nat
  session : String
  root : Hash
  blockNumber : Nat
  index : Nat

/-- Every root anchor one contract holds. -/
structure RootAnchorHistory where
  contract : String
  anchors : List RootAnchor
  latest : RootAnchor
  total : Nat
  scannedFrom : Nat
  complete : Bool
  latestAgrees : Bool

/-- Numbers in order and with no repeats. -/
def sortedOnce (numbers : List Nat) : List Nat := (numbers.mergeSort (fun a b => a ≤ b)).dedup

def AnchorHistory.positions (history : AnchorHistory) : List OrderId :=
  sortedOnce (history.anchors.map Anchor.lastId)

def RootAnchorHistory.treeSizes (history : RootAnchorHistory) : List Nat :=
  sortedOnce (history.anchors.map RootAnchor.treeSize)

/-- The functions an audit takes from elsewhere: the exchange's own, SHA-256 as the tree uses it,
and how long ago a block time was. -/
structure Surroundings where
  env : Primitives
  sha256 : Bytes → Hash
  age : Nat → String

/-! ## The heads -/

def treeHeadText (session : String) (timestamp : UInt64) (treeSize : Nat) (root : Hash) : String :=
  "\n".intercalate ["exchange-feed-sth-v1", session, toString timestamp, toString treeSize,
    Logchain.toHex root.toList]

theorem utf8_treeHeadText (session : String) (timestamp : UInt64) (treeSize : Nat) (root : Hash) :
    utf8 (treeHeadText session timestamp treeSize root) =
      Logchain.treeHeadStatement session timestamp treeSize root := rfl

/-- Whether a key signed this tree head. -/
def verifyTreeHead (env : Primitives) (key : Bytes) (session : String) (timestamp : UInt64)
    (treeSize : Nat) (root : Hash) (signature : Bytes) : Bool :=
  env.verifyStrict key (treeHeadText session timestamp treeSize root) signature

/-- Reads the tree head a URL served, and verifies it under the key it names. -/
def fetchTreeHead (env : Primitives) (url : String) (served : Except String RawTreeHead) :
    Except String TreeHead := do
  let raw ← served
  match Logchain.readHash raw.rootHash with
  | none => .error s!"{url} named root '{raw.rootHash}', which is not 64 hex characters"
  | some root =>
      match Operator.fromHex 32 raw.publicKey.toList with
      | none => .error s!"{url} named no 32-byte hex public key"
      | some key =>
          match Operator.fromHex 64 raw.signature.toList with
          | none => .error s!"{url} carried no 64-byte hex signature"
          | some signature =>
              if ¬env.isVerifyingKey key then
                .error s!"{url} named a public key that is not a point on the curve"
              else if verifyTreeHead env key raw.session raw.timestamp raw.treeSize root
                  signature then
                .ok ⟨raw.session, raw.timestamp, raw.treeSize, root, raw.publicKey⟩
              else
                .error (s!"the tree head {url} served does not verify under the key " ++
                  s!"{raw.publicKey} it names. Its root over {raw.treeSize} messages is a value " ++
                  "nothing has signed, so nothing can be checked against it")

/-- The tree sizes the walk has to keep a root at. -/
def rootSizes (sth : Except String TreeHead)
    (anchors : Option (Except String RootAnchorHistory)) : List Nat :=
  let head :=
    match sth with
    | .ok sth => [sth.treeSize]
    | .error _ => []
  let anchored :=
    match anchors with
    | some (.ok history) => history.treeSizes
    | _ => []
  sortedOnce (head ++ anchored)

/-- Whether the key the head names signed it. -/
def FeedHead.verifies (env : Primitives) (head : FeedHead) : Bool :=
  match Operator.fromHex 32 head.publicKey.toList, Operator.fromHex 64 head.signature.toList,
    Operator.fromHex 32 head.chain.toList with
  | some key, some signature, some chain =>
      env.isVerifyingKey key &&
        env.verifyStrict key (Poller.headStatement head.session head.lastId chain) signature
  | _, _, _ => false

/-- One failing check that could not run. -/
def unchecked (name reason : String) : Check := { Check.new name with checked := 1 }.fail reason

/-- The chain the messages make against the one the head signs. -/
def chainCheck (head : FeedHead) (chain : Bytes) (counted : Nat) : Check :=
  let check : Check :=
    { Check.new "the feed's signed chain matches its history" with checked := counted }
  match Operator.fromHex 32 head.chain.toList with
  | some signed =>
      if signed = chain then check
      else check.fail (s!"recomputed chain at message {head.lastId} is {Logchain.toHex chain}, " ++
        s!"the feed signed {head.chain}")
  | none => check.fail s!"'{head.chain}' is not a 32-byte hex chain"

/-- The head's own signature, and its key against the one the run pinned. -/
def signatureCheck (env : Primitives) (runId : Int) (pinned : Option String) (head : FeedHead) :
    Check :=
  let check : Check := { Check.new "the head is signed by the run's pinned key" with checked := 1 }
  let check :=
    if head.verifies env then check
    else check.fail (s!"signature over (session {head.session}, id {head.lastId}, chain " ++
      s!"{head.chain}) does not verify with key {head.publicKey}")
  match pinned with
  | some pinned =>
      if pinned = head.publicKey then check
      else check.fail (s!"run {runId} consumed a history signed by {pinned}, this head is " ++
        s!"signed by {head.publicKey}")
  | none => check.fail (s!"run {runId} recorded no feed public key, so nothing ties this signed " ++
      "history to the authority the run trusted")

/-- Whether the head reaches as far as the run claims to have gone. -/
def coverCheck (head : FeedHead) (claimedTo : OrderId) : Check :=
  let check : Check :=
    { Check.new "the signed head covers every claimed message" with checked := 1 }
  if head.lastId < claimedTo then
    check.fail (s!"the feed's signed head stops at message {head.lastId}, the run committed up " ++
      s!"to message {claimedTo}: messages {saturatingAddU64 head.lastId 1}..{claimedTo} carry " ++
      "no feed signature at all")
  else check

def checkFeedHead (env : Primitives) (runId : Int) (pinned : Option String)
    (head : Except String FeedHead) (chain : Bytes) (counted : Nat) (claimedTo : OrderId) :
    List Check :=
  match head with
  | .error reason => [unchecked "the feed serves a signed head"
      (reason ++ "; without it the history this run used is unsigned, and an unsigned history " ++
        "proves nothing about the run")]
  | .ok head =>
      [chainCheck head chain counted, signatureCheck env runId pinned head,
        coverCheck head claimedTo]

def checkHead (env : Primitives) (facts : RunFacts) (head : Except String FeedHead)
    (fold : ChainFold) (claimedTo : OrderId) : List Check :=
  checkFeedHead env facts.runId facts.feedPubkey head (fold.atHead.getD MatcherState.emptyChain)
    fold.counted (max claimedTo facts.cursor)

/-! ## The tree -/

/-- The root the sequencer signs against the root the messages make. -/
def treeHeadCheck (sth : Except String TreeHead) (fold : RootFold) : Check :=
  let check : Check :=
    { Check.new "the signed tree head is over these messages" with checked := 1 }
  match sth with
  | .error reason => check.fail (reason ++
      "; without it nothing says which tree this feed hands inclusion proofs out of")
  | .ok sth =>
      match fold.rootAt sth.treeSize with
      | some ours =>
          if ours = sth.root then check
          else check.fail (s!"the feed signs root {Logchain.toHex sth.root.toList} over " ++
            s!"{sth.treeSize} messages of session {sth.session}; its own messages produce " ++
            s!"{Logchain.toHex ours.toList} over the same {sth.treeSize}. The tree it hands " ++
            "proofs out of is not the tree its history makes")
      | none => check.fail (s!"the feed signs a root over {sth.treeSize} messages of session " ++
          s!"{sth.session} and served {fold.leaves}. A signed head that reaches past the " ++
          "history behind it commits to messages nobody can read")

/-- Why an anchored root is not the root of these messages, where it is not. -/
def checkRootByFolding (anchor : RootAnchor) (ours : Option Hash) (served : Nat) : Option String :=
  match ours with
  | some ours =>
      if ours = anchor.root then none
      else some (s!"anchor {anchor.index} holds root {Logchain.toHex anchor.root.toList} over " ++
        s!"{anchor.treeSize} messages of session {anchor.session}, written in block " ++
        s!"{anchor.blockNumber}; this feed's own messages produce {Logchain.toHex ours.toList} " ++
        s!"over the same {anchor.treeSize}. The history served today is not the history that " ++
        "was anchored")
  | none => some (s!"anchor {anchor.index} commits to a root over {anchor.treeSize} messages of " ++
      s!"session {anchor.session}, written in block {anchor.blockNumber}; this feed has served " ++
      s!"only {served}. A history that stops short of what was anchored is a history that lost " ++
      "the messages in between")

/-- The checks over the root anchors that were read. -/
def rootAnchorChecks (history : RootAnchorHistory) (fold : RootFold) : List Check × List String :=
  let read : Check :=
    { Check.new "every root anchor on the contract was read" with
      checked := history.anchors.length }
  let read :=
    if history.complete then read
    else read.fail (s!"{history.contract} says it has written {history.total} root anchors and " ++
      s!"only {history.anchors.length} were found, scanning its log back to block " ++
      s!"{history.scannedFrom}. The ones that were not read are the older ones, which are the " ++
      "ones a rewind contradicts, so this is not a set of anchors that can be called checked. " ++
      "Pass --root-anchor-from-block <BLOCK> with the block the contract was deployed in")
  let agrees : Check :=
    { Check.new "the newest root anchor and the contract agree" with checked := 1 }
  let agrees :=
    if history.latestAgrees then agrees
    else agrees.fail (s!"{history.contract} holds a root over {history.latest.treeSize} " ++
      s!"messages of session {history.latest.session} in its own state, and its log does not " ++
      "end with that write. The endpoint answering is not serving one view of one chain, so " ++
      "none of these anchors mean anything")
  let roots := history.anchors.foldl (fun check anchor =>
      let check : Check := { check with checked := check.checked + 1 }
      match checkRootByFolding anchor (fold.rootAt anchor.treeSize) fold.leaves with
      | some reason => check.fail reason
      | none => check)
    (Check.new "every anchored root is over these messages")
  ([read, agrees, roots],
    if history.anchors.isEmpty then
      [s!"  the anchored roots were not checked: {history.contract} holds no root anchor yet"]
    else [])

/-- The tree the sequencer publishes against its own messages. -/
def checkTree (sth : Except String TreeHead) (anchors : Option (Except String RootAnchorHistory))
    (fold : RootFold) : List Check × List String :=
  let head := treeHeadCheck sth fold
  match anchors with
  | none => ([head], ["  the anchored roots were not checked: no root anchor contract was " ++
      "named. Pass --root-anchor-contract and --root-anchor-rpc to check them"])
  | some (.error reason) => ([head, unchecked "the on-chain root anchors are readable"
      (reason ++ ". A root anchor that cannot be read is an unchecked claim, not a satisfied one")],
      [])
  | some (.ok history) =>
      let (checks, notes) := rootAnchorChecks history fold
      (head :: checks, notes)

/-- The walk's own check, and the sentence for a walk that had no log to ask. -/
def finishWalk (walk : TreeWalk) : Check × List String :=
  (walk.check,
    if walk.noSource then
      ["  the stored nodes were not checked: this history was not read from a log"]
    else [])

/-! ## The anchors -/

/-- Where and when the operator committed to an anchor. -/
def written (age : Nat → String) (anchor : Anchor) : String :=
  s!"written in block {anchor.blockNumber} at {anchor.anchoredAt} ({age anchor.anchoredAt})"

/-- The three checks made at every anchor. -/
structure AnchorChecks where
  sessions : Check
  chains : Check
  execution : Check

/-- Why an anchor of another session cannot be compared. -/
def otherHistory (age : Nat → String) (facts : RunFacts) (total : Nat) (anchor : Anchor) : String :=
  let serves := facts.session.getD "(none announced)"
  s!"anchor {anchor.index} of {total} names message {anchor.lastId} of history " ++
    s!"{anchor.session}, {written age anchor}; this exchange serves history {serves}, where " ++
    "that id is a different message. There is nothing here to compare it against"

def anchorSession (age : Nat → String) (facts : RunFacts) (total : Nat) (check : Check)
    (anchor : Anchor) : Check :=
  let check : Check := { check with checked := check.checked + 1 }
  match facts.session with
  | some ours =>
      if ours = anchor.session then check
      else check.fail (s!"anchor {anchor.index} of {total} committed to feed session " ++
        s!"{anchor.session} at message {anchor.lastId}, {written age anchor}; this exchange " ++
        s!"serves session {ours}. The history the anchor names has been replaced, which is " ++
        "exactly the event an anchor exists to expose")
  | none => check.fail (s!"anchor {anchor.index} of {total} committed to feed session " ++
      s!"{anchor.session} at message {anchor.lastId}, {written age anchor}; this exchange names " ++
      "no session at all, so nothing ties what it serves to the history that was anchored")

def anchorChain (age : Nat → String) (fold : ChainFold) (total : Nat) (check : Check)
    (anchor : Anchor) : Check :=
  let check : Check := { check with checked := check.checked + 1 }
  match fold.atAnchors.get? anchor.lastId with
  | some ours =>
      if ours = anchor.chain then check
      else check.fail (s!"anchor {anchor.index} of {total} holds chain " ++
        s!"{Logchain.toHex anchor.chain} at message {anchor.lastId}, {written age anchor}; this " ++
        s!"feed's messages hash to {Logchain.toHex ours} there. The history served today is not " ++
        "the history that was anchored")
  | none => check.fail (s!"anchor {anchor.index} of {total} commits to message {anchor.lastId}, " ++
      s!"{written age anchor}; this feed's history stops at message {fold.reached}. The history " ++
      "it names is not here to check")

def anchorExecution (age : Nat → String) (replayed : SortedMap OrderId Bytes) (cursor : OrderId)
    (total : Nat) (check : Check) (anchor : Anchor) : Check :=
  let check : Check := { check with checked := check.checked + 1 }
  match replayed.get? anchor.lastId with
  | some ours =>
      if ours = anchor.stateRoot then check
      else check.fail (s!"anchor {anchor.index} of {total} holds state root " ++
        s!"{Logchain.toHex anchor.stateRoot} after message {anchor.lastId}, " ++
        s!"{written age anchor}; the re-execution produced {Logchain.toHex ours} there. The same " ++
        "messages no longer produce the state that was anchored")
  | none =>
      if cursor < anchor.lastId then
        check.fail (s!"anchor {anchor.index} of {total} commits to the state after message " ++
          s!"{anchor.lastId}, {written age anchor}; this run has committed only up to message " ++
          s!"{cursor}. The exchange has been rolled back past its own anchor")
      else
        check.fail (s!"the re-execution never reached message {anchor.lastId}, which anchor " ++
          s!"{anchor.index} of {total} commits to the state after, so that state was never " ++
          "recomputed")

/-- The session, the chain and the state at one anchor. -/
def checkAnchor (age : Nat → String) (facts : RunFacts) (fold : ChainFold)
    (replayed : SortedMap OrderId Bytes) (cursor : OrderId) (total : Nat) (checks : AnchorChecks)
    (anchor : Anchor) : AnchorChecks :=
  let sessions := anchorSession age facts total checks.sessions anchor
  if facts.session = some anchor.session then
    { sessions := sessions
      chains := anchorChain age fold total checks.chains anchor
      execution := anchorExecution age replayed cursor total checks.execution anchor }
  else
    let reason := otherHistory age facts total anchor
    let chains : Check := { checks.chains with checked := checks.chains.checked + 1 }
    let execution : Check := { checks.execution with checked := checks.execution.checked + 1 }
    { sessions := sessions
      chains := chains.fail reason
      execution := execution.fail reason }

/-- The history and the execution against every anchor of a contract. -/
def checkAnchors (age : Nat → String) (facts : RunFacts) (history : Except String AnchorHistory)
    (fold : ChainFold) (replayed : SortedMap OrderId Bytes) (cursor : OrderId) : List Check :=
  match history with
  | .error reason => [unchecked "the on-chain anchors are readable"
      (reason ++ ". An anchor that cannot be read is an unchecked claim, not a satisfied one: " ++
        "nothing here shows this history is the one that existed before now")]
  | .ok history =>
      let read : Check :=
        { Check.new "every anchor this contract holds was read" with
          checked := history.anchors.length }
      let read :=
        if history.complete then read
        else read.fail (s!"{history.contract} says it has written {history.total} anchors and " ++
          s!"only {history.anchors.length} were found, scanning its log back to block " ++
          s!"{history.scannedFrom}. The ones that were not read are the older ones, which are " ++
          "exactly the ones a rewind would contradict, so this is not a set of anchors that can " ++
          "be called checked. Pass --anchor-from-block <BLOCK> with the block the contract was " ++
          "deployed in, and the whole range is read instead of the recent window an open-ended " ++
          "scan stops at. The block is in the deployment record beside the address")
      let agrees : Check :=
        { Check.new "the newest anchor and the contract agree" with checked := 1 }
      let agrees :=
        if history.latestAgrees then agrees
        else agrees.fail (s!"{history.contract} holds anchor {history.latest.index} for message " ++
          s!"{history.latest.lastId} of session {history.latest.session} in its state, and its " ++
          "own log does not carry that write. The endpoint answering is not serving one " ++
          "consistent view of one chain, so nothing read from it is evidence")
      let checks := history.anchors.foldl
        (checkAnchor age facts fold replayed cursor history.total)
        { sessions := .new "every on-chain anchor names this history"
          chains := .new "every on-chain anchor matches the feed"
          execution := .new "every on-chain anchor matches this execution" }
      [read, agrees, checks.sessions, checks.chains, checks.execution]

/-! ## The claims' signatures -/

/-- The key the run's claims are signed with, where it names one. -/
def claimKey (env : Primitives) (facts : RunFacts) : Option Bytes :=
  (facts.matcherPubkey.bind (fun key => Operator.fromHex 32 key.toList)).filter env.isVerifyingKey

def checkClaimSignature (env : Primitives) (facts : RunFacts) (session : String) (check : Check)
    (claim : ClaimRow) : Check :=
  let check : Check := { check with checked := check.checked + 1 }
  match claimKey env facts, claim.signature with
  | none, _ =>
      let named := facts.matcherPubkey.getD "none recorded"
      check.fail (s!"the claim for messages {claim.fromMsg}..{claim.toMsg} cannot be checked: " ++
        s!"this run names no key ({named}) that its claims are signed with")
  | some _, none => check.fail (s!"the claim for messages {claim.fromMsg}..{claim.toMsg} " ++
      "carries no signature: it is a row in a file and nothing more")
  | some key, some signature =>
      if Logchain.verifyClaim env key session claim signature then check
      else check.fail (s!"the claim for messages {claim.fromMsg}..{claim.toMsg} (roots " ++
        s!"{Logchain.toHex claim.rootBefore} -> {Logchain.toHex claim.rootAfter}, " ++
        s!"{claim.tradesTotal} trades) does not verify under the key this run signs with")

def checkClaimSignatures (env : Primitives) (facts : RunFacts) (session : String)
    (claims : List ClaimRow) (check : Check) : Check :=
  claims.foldl (checkClaimSignature env facts session) check

end Audit
end VerifiableExchange
