import VerifiableExchange.Inbox.Submission

/-!
# Sequencer — the state behind one lock, and the two requests that publish one message

The published state together with the keys pinned to accounts, the operator's key and what the
generator remembers. What the request limiter says, what the clock reads and whether SQLite takes a
row are inputs of each request.
-/

namespace VerifiableExchange
namespace Feed

open Lib Merkle Logchain Inbox

/-! ## The state -/

/-- One order the generator sent and has not yet cancelled. -/
structure OpenOrder where
  id : OrderId
  account : AccountId
  market : Nat
  side : Side
  priceCents : Int
  qtyTenths : Int
  expiresAtMs : Nat
  deriving DecidableEq

/-- A row of `feed_accounts`; the account is its primary key. -/
structure AccountRow where
  account : Int
  publicKey : String
  deriving DecidableEq

/-- The fields that intake, the generator and a restart read and write. -/
structure Sequencer where
  feed : FeedState
  maxAccounts : Nat
  accounts : AList (fun _ : AccountId => Bytes)
  accountRows : List AccountRow
  operatorKey : Option Bytes
  numAccounts : Nat
  openOrders : List OpenOrder
  crossings : Nat
  sinceCrossing : Nat
  cancelsInARow : Nat

def OPERATOR_ACCOUNT : AccountId := 4294967295

/-- One rule set and three listings open the log. -/
def OPENING_MESSAGES : OrderId := 4

structure SignedHead where
  session : String
  lastId : OrderId
  chain : String
  publicKey : String
  signature : String
  deriving DecidableEq

namespace FeedState

variable (state : FeedState)

/-- The newest message published, read off the window. -/
def lastId : OrderId := (state.messages.getLast?.map Published.id).getD 0

/-- The oldest message still in memory. -/
def windowStart : OrderId := (state.messages.head?.map Published.id).getD state.nextId

/-- Where a message sits in the window, if it is still there. -/
def windowIndex (id : OrderId) : Option Nat :=
  if id < state.windowStart ∨ state.lastId < id then none else some (id - state.windowStart)

def signedHeadAt (lastId : OrderId) (chain : Chain) : SignedHead where
  session := state.session
  lastId := lastId
  chain := toHex chain.toList
  publicKey := toHex state.signingKey.verifyingKey
  signature := toHex (signHead state.signingKey state.session lastId chain)

def signedHead : SignedHead := state.signedHeadAt state.lastId state.chain

/-- The check of a whole pending burst, before ids are taken. -/
def checkRetentionGrowth (messages nonces inbox : Nat) : Except String Unit :=
  let limits := state.retentionLimits
  if limits.maxBatchMessages < messages then
    .error s!"batch capacity {limits.maxBatchMessages} exceeded"
  else if state.storage.isMemory ∧ limits.maxMemoryMessages - state.storage.leaves < messages then
    .error s!"RAM history capacity {limits.maxMemoryMessages} exhausted; proofs are retained"
  else if limits.maxNonces - state.nonces.entries.length < nonces then
    .error s!"nonce capacity {limits.maxNonces} exhausted; spent nonces are retained"
  else if limits.maxInboxRecords - state.inboxSequenced.entries.length < inbox then
    .error s!"inbox record capacity {limits.maxInboxRecords} exhausted; pairings are retained"
  else .ok ()

end FeedState

/-! ## Requests -/

/-- Why a request does not become a message. -/
inductive SubmitError where
  | refused (refusal : Refusal)
  | tooMany
  /-- The operator is still opening this log; so many of the opening messages are published. -/
  | opening (published : Nat)
  | accountCapacity (max : Nat)
  | accountNotWritten (account : AccountId)
  /-- This nonce was used for the message with this id. -/
  | nonceUsed (account : AccountId) (nonce : Bytes) (existing : OrderId)
  | retention (detail : String)
  | notPublished (error : SequenceError)
  | operatorNonce (text : String)
  | operatorTerms
  | noOperator
  | notTheOperator (named : String)
  | operatorSignature
  deriving DecidableEq

/-- The status the request is answered with. -/
def SubmitError.status : SubmitError → Nat
  | .refused refusal => refusal.status
  | .tooMany => 429
  | .opening _ => 503
  | .accountCapacity _ => 503
  | .accountNotWritten _ => 503
  | .nonceUsed _ _ _ => 409
  | .retention _ => 503
  | .notPublished _ => 503
  | .operatorNonce _ => 400
  | .operatorTerms => 400
  | .noOperator => 404
  | .notTheOperator _ => 403
  | .operatorSignature => 401

/-- The body of `POST /operator`. -/
inductive SubmitOperatorRequest where
  | listSymbol (symbol : String) (priceStep quantityStep : F64) (nonce publicKey signature : String)
  | delistSymbol (symbol nonce publicKey signature : String)
  | engineRule (version : UInt32) (nonce publicKey signature : String)
  deriving DecidableEq

namespace SubmitOperatorRequest

def publicKey : SubmitOperatorRequest → String
  | listSymbol _ _ _ _ publicKey _ => publicKey
  | delistSymbol _ _ publicKey _ => publicKey
  | engineRule _ _ publicKey _ => publicKey

def nonce : SubmitOperatorRequest → String
  | listSymbol _ _ _ nonce _ _ => nonce
  | delistSymbol _ nonce _ _ => nonce
  | engineRule _ nonce _ _ => nonce

/-- The message this body asks for, at the id and the timestamp the sequencer assigns. -/
def message (id : OrderId) (timestamp : Nat) : SubmitOperatorRequest → OrderMessage
  | listSymbol symbol priceStep quantityStep nonce publicKey signature =>
      .listSymbol {
        id := id
        timestamp := timestamp
        account := OPERATOR_ACCOUNT
        symbol := symbol
        priceStep := priceStep
        quantityStep := quantityStep
        nonce := some nonce
        publicKey := publicKey
        signature := signature }
  | delistSymbol symbol nonce publicKey signature =>
      .delistSymbol {
        id := id
        timestamp := timestamp
        account := OPERATOR_ACCOUNT
        symbol := symbol
        nonce := some nonce
        publicKey := publicKey
        signature := signature }
  | engineRule version nonce publicKey signature =>
      .engineRule {
        id := id
        timestamp := timestamp
        account := OPERATOR_ACCOUNT
        version := version.toNat
        nonce := some nonce
        publicKey := publicKey
        signature := signature }

variable (id : OrderId) (timestamp : Nat) (req : SubmitOperatorRequest)

@[simp] theorem message_id : (req.message id timestamp).id = id := by cases req <;> rfl

@[simp] theorem message_account : (req.message id timestamp).account = OPERATOR_ACCOUNT := by
  cases req <;> rfl

@[simp] theorem message_nonce : (req.message id timestamp).nonce = some req.nonce := by
  cases req <;> rfl

end SubmitOperatorRequest

/-- What the clock reads, what the limiter says, and which of the two writes SQLite takes. -/
structure Circumstances where
  allowed : Bool
  now : UInt64
  pinCommits : Bool
  commits : Bool
  deriving DecidableEq

namespace Sequencer

/-- Whether user, inbox and generated traffic may publish yet. -/
def logIsOpen (state : Sequencer) : Bool :=
  state.operatorKey.isNone || OPENING_MESSAGES ≤ state.feed.lastId

def pin (state : Sequencer) (account : AccountId) (key : Bytes) : Sequencer :=
  { state with accounts := state.accounts.insert account key }

/-- Checks a submission's key against the keys fixed to accounts, and fixes the first one. With a
database the row is written before the message it authorises. -/
def pinOrCheckAccount (state : Sequencer) (account : AccountId) (key : Bytes) (commits : Bool) :
    Except SubmitError Sequencer :=
  match checkAccountKey account (state.accounts.lookup account) key with
  | .error refusal => .error (.refused refusal)
  | .ok .known => .ok state
  | .ok .first =>
      if state.maxAccounts ≤ state.accounts.entries.length then
        .error (.accountCapacity state.maxAccounts)
      else if state.feed.storage.isMemory then .ok (state.pin account key)
      else if commits = false ∨ state.accountRows.any (fun row => row.account = account.val) then
        .error (.accountNotWritten account)
      else
        .ok { state.pin account key with
          accountRows := state.accountRows ++ [⟨account.val, toHex key⟩] }

/-- A caller takes the next id. -/
def takeId (state : Sequencer) : OrderId × Sequencer :=
  (state.feed.nextId, { state with feed := state.feed.takeId.2 })

section

variable (sha256 : Bytes → Hash) (serde : Wire.Serde)

/-- Puts a group of messages in the log. A refused write also takes the generator's orders of the
group off its list. -/
def sequence (state : Sequencer) (batch : List Entry) (commits : Bool) :
    Except (Fault Empty) (Sequencer × Except SequenceError Unit) := do
  let (feed, outcome) ←
    state.feed.sequence sha256 (fun msg => .ok (Wire.messageText serde msg)) batch commits
  let openOrders :=
    match outcome with
    | .error (.notWritten _ _ _) => state.openOrders.filter fun held => held.id < feed.nextId
    | _ => state.openOrders
  return ({ state with feed := feed, openOrders := openOrders }, outcome)

/-- Takes an id, makes the message and publishes it; the answer is the id and the head there. -/
def publishNext (state : Sequencer) (message : OrderId → OrderMessage) (commits : Bool) :
    Except (Fault Empty) (Sequencer × Except SubmitError (OrderId × SignedHead)) := do
  let (id, taken) := state.takeId
  let (state, outcome) ← sequence sha256 serde taken [(none, message id)] commits
  match outcome with
  | .error error => return (state, .error (.notPublished error))
  | .ok () => return (state, .ok (id, state.feed.signedHead))

end

section

variable (env : Primitives)

/-- What `POST /order` and `POST /cancel` check before an id is taken. A refusal comes with the state it
leaves: the account may have been fixed to its key by then. -/
def admitSubmission (state : Sequencer) (signed : SignedSubmission) (c : Circumstances) :
    Except (Sequencer × SubmitError) Sequencer := do
  let refuse {α : Type} (x : Except Refusal α) : Except (Sequencer × SubmitError) α :=
    x.mapError fun refusal => (state, .refused refusal)
  refuse (validateSubmission signed.submission)
  let key ← refuse (verifyAccountSignature env signed)
  let account := signed.submission.accountOf
  let nonce ← refuse (checkedNonce signed.submission)
  require (c.allowed = true) (state, .tooMany)
  require (state.logIsOpen = true) (state, .opening (min state.feed.lastId OPENING_MESSAGES))
  refuse (checkSession state.feed.session signed.submission)
  let pinned ← (state.pinOrCheckAccount account key c.pinCommits).mapError fun error => (state, error)
  match pinned.feed.nonces.lookup (account, nonce) with
  | some existing => .error (pinned, .nonceUsed account nonce existing)
  | none => do
      (pinned.feed.checkRetentionGrowth 1 1 0).mapError fun detail => (pinned, .retention detail)
      return pinned

/-- What `POST /operator` checks before an id is taken. -/
def admitOperator (state : Sequencer) (req : SubmitOperatorRequest) (c : Circumstances) :
    Except SubmitError Unit := do
  let nonce ← orFail (Operator.canonicalNonce req.nonce) (.operatorNonce req.nonce)
  -- The statement covers neither the id nor the timestamp.
  let unsequenced := req.message 0 0
  let _ ← orFail (Operator.kindAndFields unsequenced) .operatorTerms
  let key ← orFail state.operatorKey .noOperator
  require (Operator.fromHex 32 (Operator.trim req.publicKey) = some key)
    (.notTheOperator req.publicKey)
  require (Operator.verify env unsequenced state.feed.session key = true) .operatorSignature
  require (c.allowed = true) .tooMany
  match state.feed.nonces.lookup (OPERATOR_ACCOUNT, nonce) with
  | some existing => .error (.nonceUsed OPERATOR_ACCOUNT nonce existing)
  | none => (state.feed.checkRetentionGrowth 1 1 0).mapError .retention

variable (sha256 : Bytes → Hash) (serde : Wire.Serde)

/-- The part `POST /order` and `POST /cancel` share. -/
def submit (state : Sequencer) (signed : SignedSubmission) (c : Circumstances) :
    Except (Fault Empty) (Sequencer × Except SubmitError (OrderId × SignedHead)) :=
  match admitSubmission env state signed c with
  | .error (state, error) => .ok (state, .error error)
  | .ok state =>
      publishNext sha256 serde state
        (fun id => messageFrom id c.now.toNat signed.submission) c.commits

/-- Answers `POST /operator` and publishes one message the operator signed. -/
def submitOperator (state : Sequencer) (req : SubmitOperatorRequest) (c : Circumstances) :
    Except (Fault Empty) (Sequencer × Except SubmitError (OrderId × SignedHead)) :=
  match admitOperator env state req c with
  | .error error => .ok (state, .error error)
  | .ok () => publishNext sha256 serde state (fun id => req.message id c.now.toNat) c.commits

end

end Sequencer

end Feed
end VerifiableExchange
