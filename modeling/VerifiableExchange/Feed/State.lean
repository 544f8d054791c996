import VerifiableExchange.Logchain
import VerifiableExchange.Merkle.Storage
import Mathlib.Data.List.AList

/-!
# Feed — the sequencer's state

A group of messages goes into the log in one transaction or not at all, and the published state
follows the transaction. Tree heads and proofs are read from the stored nodes.

The JSON writer comes as `toJson`. SQLite refuses a transaction, or the read of a node, where the
caller says so. 64-bit additions wrap, as in the released build.
-/

namespace VerifiableExchange
namespace Feed

open Lib Merkle Logchain

/-! ## Keys and limits -/

/-- How many messages stay in memory. -/
def MESSAGE_WINDOW : Nat := 10000

/-- An entry of the separate service: its epoch, and the entry id inside that epoch. -/
abbrev InboxKey := String × Int

/-- A used nonce: the account, and the bits of the nonce. -/
abbrev NonceKey := AccountId × Bytes

/-- The nonce key a published message uses. -/
def nonceKey (msg : OrderMessage) : Option NonceKey :=
  (msg.nonce.bind Operator.canonicalNonce).map fun nonce => (msg.account, nonce)

structure RetentionLimits where
  maxNonces : Nat
  maxInboxRecords : Nat
  maxMemoryMessages : Nat
  maxBatchMessages : Nat
  deriving DecidableEq, Repr

def RetentionLimits.default : RetentionLimits := ⟨1000000, 1000000, 1000000, 100000⟩

/-! ## What is stored -/

/-- One published message, held as the bytes the chain covers. -/
structure Published where
  id : OrderId
  json : Bytes
  deriving DecidableEq

/-- A row of `feed_messages`; the id is its primary key. -/
structure MessageRow where
  id : Int
  json : Bytes
  chain : Chain
  deriving DecidableEq

/-- A row of `inbox_sequenced`; the key is its primary key. -/
structure InboxRow where
  key : InboxKey
  feedId : Int
  deriving DecidableEq

/-- Where the history ends, as a publish writes it down; hashes and signatures in hex. A checkpoint
older than the stored tree has no root. -/
structure Checkpoint where
  lastId : OrderId
  chain : String
  signature : String
  root : Option String
  rootSignature : Option String
  deriving DecidableEq

def Checkpoint.row (key : SigningKey) (session : String) (lastId : OrderId) (chain : Chain)
    (root : Hash) : Checkpoint where
  lastId := lastId
  chain := toHex chain.toList
  signature := toHex (signHead key session lastId chain)
  root := some (toHex root.toList)
  rootSignature := some (toHex (signCheckpoint key session lastId chain root))

/-- The tables of `feed.db`. -/
structure Database where
  messages : List MessageRow
  inboxSequenced : List InboxRow
  session : Option String
  checkpoint : Option Checkpoint
  nodes : List NodeRow
  deriving DecidableEq

/-- Where the sequencer keeps the tree over what it has published. -/
inductive Storage where
  | memory (tree : MerkleTree)
  | disk (conn : Database) (leaves : Nat)

namespace Storage

/-- One leaf per published message. -/
def leaves : Storage → Nat
  | memory tree => tree.len
  | disk _ leaves => leaves

def isMemory : Storage → Bool
  | memory _ => true
  | disk _ _ => false

def nodes : Storage → Nodes
  | memory tree => .memory tree
  | disk conn leaves => .disk conn.nodes leaves

/-- The nodes as one request reads them. SQLite may refuse a row; memory refuses nothing. -/
def source (storage : Storage) (refused : Nat → Nat → Bool) : NodeSource Unreadable where
  treeSize := storage.nodes.treeSize
  node level index :=
    if storage.isMemory = false ∧ refused level index then .error (.failed .sql)
    else storage.nodes.node level index

end Storage

/-- `MTH` over a size the tree has reached; a size the tree refuses stops the process. -/
def root (sha256 : Bytes → Hash) (nodes : NodeSource Unreadable) (size : Nat) :
    Except (Fault Unreadable) Hash :=
  match mth sha256 nodes size with
  | .ok root => .ok root
  | .error .panicked => .error .panicked
  | .error (.failed (.source e)) => .error (.failed e)
  | .error (.failed (.proof _)) => .error .panicked

/-! ## The state -/

structure SignedTreeHead where
  session : String
  timestamp : UInt64
  treeSize : Nat
  rootHash : String
  publicKey : String
  signature : String
  deriving DecidableEq

/-- The fields that publishing, tree heads and proofs read and write. -/
structure FeedState where
  retentionLimits : RetentionLimits
  messages : List Published
  chains : List Chain
  nextId : OrderId
  session : String
  storage : Storage
  chain : Chain
  treeHead : Option SignedTreeHead
  signingKey : SigningKey
  inboxSequenced : AList (fun _ : InboxKey => OrderId)
  nonces : AList (fun _ : NonceKey => OrderId)

/-- A message, with the entry of the separate service it fulfils. -/
abbrev Entry := Option InboxKey × OrderMessage

inductive SequenceError where
  | retention (detail : String)
  | notSerialized (detail : String)
  | notWritten (messages : Nat) (lastId : OrderId) (reason : Unreadable)
  deriving DecidableEq

namespace FeedState

/-- A caller takes the next id. -/
def takeId (state : FeedState) : OrderId × FeedState :=
  (state.nextId, { state with nextId := (state.nextId + 1) % 2 ^ 64 })

/-! ## Retention -/

/-- The check of one key, against the keys in use and the new ones met so far. -/
def addKey {K : Type} [DecidableEq K] (known : AList (fun _ : K => OrderId)) (limit : Nat)
    (repeated exhausted : String) (fresh : List K) : Option K → Except String (List K)
  | none => .ok fresh
  | some key =>
      if key ∈ known ∨ key ∈ fresh then .error repeated
      else if limit - known.entries.length < fresh.length + 1 then .error exhausted
      else .ok (key :: fresh)

def checkKeys (state : FeedState) :
    List Entry → List NonceKey → List InboxKey → Except String Unit
  | [], _, _ => .ok ()
  | (key, msg) :: rest, nonces, inbox => do
      let limits := state.retentionLimits
      let nonces ← addKey state.nonces limits.maxNonces
        "nonce already spent; no batch messages were published"
        s!"nonce capacity {limits.maxNonces} exhausted; spent nonces are retained"
        nonces (nonceKey msg)
      let inbox ← addKey state.inboxSequenced limits.maxInboxRecords
        "inbox entry already sequenced"
        s!"inbox record capacity {limits.maxInboxRecords} exhausted; prior pairings are retained"
        inbox key
      checkKeys state rest nonces inbox

def checkRetentionBatch (state : FeedState) (batch : List Entry) : Except String Unit :=
  let limits := state.retentionLimits
  if limits.maxBatchMessages < batch.length then
    .error s!"batch capacity {limits.maxBatchMessages} exceeded"
  else if state.storage.isMemory ∧ limits.maxMemoryMessages - state.storage.leaves < batch.length then
    .error s!"RAM history capacity {limits.maxMemoryMessages} exhausted; published proofs are retained"
  else checkKeys state batch [] []

end FeedState

/-! ## One group of messages -/

/-- The bytes of each message, made once. -/
def serialize (toJson : OrderMessage → Except String Bytes) (batch : List Entry) :
    Except SequenceError (List Published) :=
  batch.mapM fun entry =>
    match toJson entry.2 with
    | .ok json => .ok ⟨entry.2.id, json⟩
    | .error e => .error (.notSerialized s!"a feed message could not be serialized: {e}")

section

variable (sha256 : Bytes → Hash)

/-- The chain after each message. -/
def chainsAfter (chain : Chain) : List Published → List Chain
  | [] => []
  | row :: rest =>
      let chain := extendBytes sha256 chain row.json
      chain :: chainsAfter chain rest

/-- `id as i64`. -/
def idAsI64 (id : OrderId) : Int := if id < 2 ^ 63 then id else id - 2 ^ 64

/-- A plain `INSERT` into `feed_messages`: an id that is already there refuses it. -/
def insertMessage (conn : Database) (row : MessageRow) : Except (Fault Unreadable) Database :=
  if conn.messages.any (fun r => r.id = row.id) then .error (.failed .sql)
  else .ok { conn with messages := conn.messages ++ [row] }

/-- A plain `INSERT` into `inbox_sequenced`: a key that is already there refuses it. -/
def insertInbox (conn : Database) (row : InboxRow) : Except (Fault Unreadable) Database :=
  if conn.inboxSequenced.any (fun r => r.key = row.key) then .error (.failed .sql)
  else .ok { conn with inboxSequenced := conn.inboxSequenced ++ [row] }

def insertEntry (conn : Database) (row : Entry × Published × Chain) :
    Except (Fault Unreadable) Database := do
  let id := idAsI64 row.2.1.id
  let conn ← insertMessage conn ⟨id, row.2.1.json, row.2.2⟩
  match row.1.1 with
  | none => return conn
  | some key => insertInbox conn ⟨key, id⟩

/-- The messages, the session, the nodes and the checkpoint over them, in one transaction. -/
def transaction (key : SigningKey) (session : String) (lastId : OrderId) (chain : Chain)
    (leavesBefore : Nat) (leaves : List Hash) (rows : List (Entry × Published × Chain))
    (conn : Database) : Except (Fault Unreadable) Database := do
  let conn ← rows.foldlM insertEntry conn
  -- The first group of a history must not land on the nodes of an older one.
  let nodes := if leavesBefore = 0 then [] else conn.nodes
  let (_, nodes) ← append sha256 nodes leavesBefore leaves
  let size := leavesBefore + leaves.length
  let top ← root sha256 (Nodes.disk nodes size).source size
  return { conn with
    session := some session
    nodes := nodes
    checkpoint := some (Checkpoint.row key session lastId chain top) }

namespace Storage

/-- What is written before anything is published. Without a database that is nothing. -/
def write (storage : Storage) (commits : Bool)
    (change : Nat → Database → Except (Fault Unreadable) Database) :
    Except (Fault Unreadable) Storage :=
  match storage with
  | memory tree => .ok (memory tree)
  | disk conn leaves =>
      if commits then (change leaves conn).map fun conn => disk conn leaves
      else .error (.failed .sql)

/-- The tree after the commit. With a database only the count is left to bring up to date. -/
def grow (storage : Storage) (leaves : List Hash) : Except (Fault Empty) Storage :=
  match storage with
  | memory tree => do
      let tree ← leaves.foldlM (fun tree leaf => do return (← tree.pushLeafHash sha256 leaf).2) tree
      return memory tree
  | disk conn size => .ok (disk conn (size + leaves.length))

end Storage

namespace FeedState

/-- Adds one published message to the window. A full window drops the oldest. -/
def pushWindow (state : FeedState) (msg : Published) (chain : Chain) : FeedState :=
  if state.messages.length = MESSAGE_WINDOW then
    { state with
      messages := state.messages.tail ++ [msg]
      chains := state.chains.tail ++ [chain] }
  else
    { state with
      messages := state.messages ++ [msg]
      chains := state.chains ++ [chain] }

/-- One published message: its entry and its nonce are spent, and it joins the window. -/
def record (state : FeedState) (row : Entry × Published × Chain) : FeedState :=
  let msg := row.1.2
  let inboxSequenced :=
    match row.1.1 with
    | none => state.inboxSequenced
    | some key => state.inboxSequenced.insert key msg.id
  let nonces :=
    match nonceKey msg with
    | none => state.nonces
    | some nonce => state.nonces.insert nonce msg.id
  pushWindow { state with inboxSequenced := inboxSequenced, nonces := nonces } row.2.1 row.2.2

/-- Puts a group of messages in the log, or leaves the published state as it was. Ids that a refused
write had taken are handed out again. -/
def sequence (toJson : OrderMessage → Except String Bytes) (state : FeedState) (batch : List Entry)
    (commits : Bool) : Except (Fault Empty) (FeedState × Except SequenceError Unit) :=
  match batch with
  | [] => .ok (state, .ok ())
  | first :: _ =>
      match checkRetentionBatch state batch with
      | .error detail => .ok (state, .error (.retention detail))
      | .ok () =>
          match serialize toJson batch with
          | .error e => .ok (state, .error e)
          | .ok published =>
              let chains := chainsAfter sha256 state.chain published
              let chain := chains.getLastD state.chain
              let leaves := published.map fun row => leafHash sha256 row.json
              let lastId := (batch.map fun entry => entry.2.id).getLastD first.2.id
              let rows := batch.zip (published.zip chains)
              match state.storage.write commits fun leavesBefore =>
                  transaction sha256 state.signingKey state.session lastId chain leavesBefore leaves
                    rows with
              | .error .panicked => .error .panicked
              | .error (.failed e) =>
                  -- The ids of the batch go back, and nothing else has moved.
                  .ok ({ state with nextId := first.2.id },
                    .error (.notWritten published.length lastId e))
              | .ok storage => do
                  let storage ← storage.grow sha256 leaves
                  return ({ rows.foldl record { state with chain := chain } with storage := storage },
                    .ok ())

/-! ## Tree heads and proofs -/

def treeSize (state : FeedState) : Nat := state.storage.leaves

def treeRoot (state : FeedState) (refused : Nat → Nat → Bool) : Except (Fault Unreadable) Hash :=
  root sha256 (state.storage.source refused) state.treeSize

/-- The last head, when nothing it states has changed. -/
def standingHead (state : FeedState) (now : UInt64) : Option SignedTreeHead :=
  state.treeHead.filter fun last => last.treeSize = state.treeSize ∧ now ≤ last.timestamp

/-- The head served when the clock reads `now`, and the state that keeps it. -/
def signedTreeHead (state : FeedState) (now : UInt64) (refused : Nat → Nat → Bool) :
    Except (Fault Unreadable) (SignedTreeHead × FeedState) :=
  match state.standingHead now with
  | some last => .ok (last, state)
  | none => do
      let timestamp :=
        match state.treeHead with
        | some last => max now (last.timestamp + 1)
        | none => now
      let top ← state.treeRoot sha256 refused
      let signature := signTreeHead state.signingKey state.session timestamp state.treeSize top
      let head : SignedTreeHead := {
        session := state.session
        timestamp := timestamp
        treeSize := state.treeSize
        rootHash := toHex top.toList
        publicKey := toHex state.signingKey.verifyingKey
        signature := toHex signature }
      return (head, { state with treeHead := some head })

/-- The inclusion proof for one leaf against the tree of a size the caller names. -/
def inclusionProof (state : FeedState) (refused : Nat → Nat → Bool) (leafIndex treeSize : Nat) :
    Except (Fault (TreeError Unreadable)) (List String) := do
  let path ← path sha256 (state.storage.source refused) leafIndex treeSize
  return path.map fun node => toHex node.toList

/-- The consistency proof between two sizes the caller names. -/
def consistencyProof (state : FeedState) (refused : Nat → Nat → Bool) (first second : Nat) :
    Except (Fault (TreeError Unreadable)) (List String) := do
  let path ← proof sha256 (state.storage.source refused) first second
  return path.map fun node => toHex node.toList

end FeedState

end

end Feed
end VerifiableExchange
