import VerifiableExchange.Feed.Sequencer
import VerifiableExchange.Inbox.Mark

/-!
# Drain — the entries of the separate service

One pass over a page of pending entries: each entry is checked against the rules of `POST /order`,
the new ones go into the log as one group, and every entry whose pair can be proved gets a signed
mark. The page comes from an address the sequencer does not trust.
-/

namespace VerifiableExchange
namespace Feed

open Lib Merkle Logchain Inbox

/-- Why the sequencer will not sequence an entry. -/
inductive IntakeRefusal where
  | submit (error : SubmitError)
  | otherContent (account : AccountId) (feedId : OrderId)
  | unreadable (account : AccountId) (feedId : OrderId)
  | retention (detail : String)
  deriving DecidableEq

/-- An entry of the page, with the clock and the pin's write at the moment the loop is at it. -/
structure Due where
  entry : InboxEntry
  now : UInt64
  pinCommits : Bool

namespace FeedState

/-- The stored bytes of a message, from the window or from the database. -/
def storedJson (state : FeedState) (unread : OrderId → Bool) (id : OrderId) : Option Bytes :=
  match state.windowIndex id with
  | some index => (state.messages[index]?).map Published.json
  | none =>
      match state.storage with
      | .memory _ => none
      | .disk conn _ =>
          if unread id then none
          else (conn.messages.find? fun row => row.id = idAsI64 id).map MessageRow.json

/-- The published message, read as a value this build can act on. -/
def message (serde : Wire.Serde) (state : FeedState) (unread : OrderId → Bool) (id : OrderId) :
    Option OrderMessage := (state.storedJson unread id).bind (Wire.readMessage serde)

end FeedState

/-! ## The loop over the page -/

/-- What the loop has decided so far. -/
structure Pass where
  state : Sequencer
  batch : List Entry
  /-- Entry, message, and whether the mark waits on this batch's write. -/
  pairs : List (Int × OrderId × Bool)
  refused : List (Int × IntakeRefusal)
  batchNonces : AList (fun _ : NonceKey => OrderId)

namespace Pass

def start (state : Sequencer) : Pass := ⟨state, [], [], [], ∅⟩

def pair (pass : Pass) (inboxId : Int) (feedId : OrderId) (fresh : Bool) : Pass :=
  { pass with pairs := pass.pairs ++ [(inboxId, feedId, fresh)] }

def refuse (pass : Pass) (inboxId : Int) (reason : IntakeRefusal) : Pass :=
  { pass with refused := pass.refused ++ [(inboxId, reason)] }

/-- The message a nonce was used for, and whether it is one of this batch. -/
def already (pass : Pass) (key : NonceKey) : Option (OrderId × Bool) :=
  ((pass.state.feed.nonces.lookup key).map fun id => (id, false)).or
    ((pass.batchNonces.lookup key).map fun id => (id, true))

/-- The entry becomes the next message of the batch. -/
def give (pass : Pass) (key : InboxKey) (nonce : NonceKey) (message : OrderId → OrderMessage) :
    Pass :=
  let (id, state) := pass.state.takeId
  { state := state
    batch := pass.batch ++ [(some key, message id)]
    pairs := pass.pairs ++ [(key.2, id, true)]
    refused := pass.refused
    batchNonces := pass.batchNonces.insert nonce id }

section

variable (env : Primitives) (serde : Wire.Serde) (unread : OrderId → Bool)

/-- Whether the message a nonce was used for is this submission; `none` where this build cannot read
that message. -/
def judged (pass : Pass) (submission : Submission) (feedId : OrderId) (inBatch : Bool) :
    Option Bool :=
  if inBatch then
    some (pass.batch.any fun entry => entry.2.id = feedId && messageMatches serde submission entry.2)
  else (pass.state.feed.message serde unread feedId).map (messageMatches serde submission)

/-- An entry that is checked and has a nonce of its own: its submission may be published already. -/
def resolve (pass : Pass) (key : InboxKey) (submission : Submission) (nonce : Bytes)
    (now : UInt64) : Pass :=
  let account := submission.accountOf
  match pass.already (account, nonce) with
  | some (feedId, inBatch) =>
      match pass.judged serde unread submission feedId inBatch with
      | some true => pass.pair key.2 feedId inBatch
      | some false => pass.refuse key.2 (.otherContent account feedId)
      | none => pass.refuse key.2 (.unreadable account feedId)
  | none =>
      let proposed := pass.batch.length + 1
      match pass.state.feed.checkRetentionGrowth proposed proposed proposed with
      | .error detail => pass.refuse key.2 (.retention detail)
      | .ok () => pass.give key (account, nonce) fun id => messageFrom id now.toNat submission

/-- What the loop makes of one entry. -/
def takeEntry (epoch : String) (pass : Pass) (due : Due) : Pass :=
  let inboxId := due.entry.inboxId
  let signed := due.entry.signed
  match pass.state.feed.inboxSequenced.lookup (epoch, inboxId) with
  -- An earlier run sequenced this entry, and only its mark was lost.
  | some feedId => pass.pair inboxId feedId false
  | none =>
  match validateSubmission signed.submission with
  | .error refusal => pass.refuse inboxId (.submit (.refused refusal))
  | .ok () =>
  match verifyAccountSignature env signed with
  | .error refusal => pass.refuse inboxId (.submit (.refused refusal))
  | .ok key =>
  match pass.state.pinOrCheckAccount signed.submission.accountOf key due.pinCommits with
  | .error error => pass.refuse inboxId (.submit error)
  | .ok state =>
  let pass := { pass with state := state }
  match checkSession state.feed.session signed.submission with
  | .error refusal => pass.refuse inboxId (.submit (.refused refusal))
  | .ok () =>
  match checkedNonce signed.submission with
  | .error refusal => pass.refuse inboxId (.submit (.refused refusal))
  | .ok nonce => pass.resolve serde unread (epoch, inboxId) signed.submission nonce due.now

end

end Pass

/-! ## One pass -/

/-- What a pass meets besides its page. -/
structure DrainCircumstances where
  /-- A row of `feed_messages` SQLite refuses to read, and a node of the tree. -/
  unread : OrderId → Bool
  refused : Nat → Nat → Bool
  commits : Bool
  /-- What the clock reads when the head is signed. -/
  now : UInt64

abbrev PendingMark := Int × Bool × MarkRequest

def treeHeadOf (head : SignedTreeHead) : TreeHead where
  session := head.session
  timestamp := head.timestamp
  treeSize := head.treeSize
  rootHash := head.rootHash
  signature := head.signature

namespace Sequencer

variable (sha256 : Bytes → Hash) (env : Primitives) (serde : Wire.Serde)

/-- The mark of one pair, where this sequencer can prove it. -/
def markOf (state : Sequencer) (epoch : String) (c : DrainCircumstances) (sequenced : Bool)
    (head : TreeHead) (pair : Int × OrderId × Bool) :
    Except (Fault Empty) (Option PendingMark) :=
  let (inboxId, feedId, fresh) := pair
  if fresh ∧ sequenced = false then .ok none
  else
    match state.feed.storedJson c.unread feedId with
    | none => .ok none
    | some json =>
        if feedId = 0 then .ok none
        else
          match state.feed.inclusionProof sha256 c.refused (feedId - 1) head.treeSize with
          | .error .panicked => .error .panicked
          | .error (.failed _) => .ok none
          | .ok path =>
              .ok (some (inboxId, fresh,
                signedMark sha256 state.feed.signingKey epoch inboxId feedId json head path))

/-- Sequences the entries of a page this sequencer is the one to sequence, and signs a mark for every
entry whose pair it can prove. -/
def sequenceDrained (state : Sequencer) (epoch : String) (due : List Due) (c : DrainCircumstances) :
    Except (Fault Empty) (Sequencer × List PendingMark × List (Int × IntakeRefusal)) := do
  let pass := due.foldl (Pass.takeEntry env serde c.unread epoch) (Pass.start state)
  let (state, outcome) ← sequence sha256 serde pass.state pass.batch c.commits
  if pass.pairs.isEmpty then return (state, [], pass.refused)
  match state.feed.signedTreeHead sha256 c.now c.refused with
  | .error .panicked => .error .panicked
  | .error (.failed _) => return (state, [], pass.refused)
  | .ok (head, feed) =>
      let state := { state with feed := feed }
      let sequenced := match outcome with
        | .ok () => true
        | .error _ => false
      let marks ← pass.pairs.mapM (markOf sha256 state epoch c sequenced (treeHeadOf head))
      return (state, marks.filterMap id, pass.refused)

end Sequencer

end Feed
end VerifiableExchange
