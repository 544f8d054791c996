import VerifiableExchange.Feed.Generate

/-!
# Restart — the sequencer built back from its file

One pass over the stored rows, the checks of what they add up to against the signed checkpoint, and
the state that goes on from there. Anything may stand in the file; the reads and the one write SQLite
may refuse all refuse the start, so they come as one flag.
-/

namespace VerifiableExchange
namespace Feed

open Lib Merkle Logchain Inbox

/-! ## The file -/

/-- A row of `feed_messages` as it is found: its text, where the column holds one, and its blob. -/
structure FileRow where
  id : Int
  json : Option Bytes
  chain : Option Bytes
  deriving DecidableEq

/-- A row of `merkle_nodes` as it is found. -/
structure FileNode where
  level : Int
  idx : Int
  hash : Bytes
  deriving DecidableEq

/-- The tables of `feed.db`. A checkpoint row that is not the JSON of a checkpoint is `some none`. -/
structure FeedFile where
  messages : List FileRow
  inboxSequenced : List InboxRow
  session : Option String
  checkpoint : Option (Option Checkpoint)
  nodes : List FileNode
  accounts : List AccountRow

/-- What a running sequencer has written. -/
def fileOf (conn : Database) (accounts : List AccountRow) : FeedFile where
  messages := conn.messages.map fun row => ⟨row.id, some row.json, some row.chain.toList⟩
  inboxSequenced := conn.inboxSequenced
  session := conn.session
  checkpoint := conn.checkpoint.map some
  nodes := conn.nodes.map fun row => ⟨row.level, row.idx, row.hash⟩
  accounts := accounts

/-- `as u64` of a signed 64-bit value. -/
def asU64 (n : Int) : Nat := (n % 18446744073709551616).toNat

/-- The rows a tree of natural numbers can ask for. -/
def nodeRows (nodes : List FileNode) : List NodeRow :=
  nodes.filterMap fun node =>
    if 0 ≤ node.level ∧ 0 ≤ node.idx then some ⟨node.level.toNat, node.idx.toNat, node.hash⟩ else none

/-- One past the highest leaf in the table. -/
def storedLeaves (nodes : List FileNode) : Nat :=
  let highest := (nodes.filter fun node => node.level = 0).foldl
    (fun best node =>
      match best with
      | none => some node.idx
      | some idx => some (max idx node.idx)) (none : Option Int)
  match highest with
  | none => 0
  | some idx => (asU64 idx + 1) % 18446744073709551616

def expectedNodes (leaves : Nat) : Nat := nodesIn leaves

/-! ## What a start is given -/

structure Config where
  limits : RetentionLimits
  maxAccounts : Nat
  maxRetryRecords : Nat
  signingKey : SigningKey
  operatorKey : Option Bytes
  numAccounts : Nat

/-- `RetentionLimits::validate`. -/
def Config.valid (config : Config) : Bool :=
  config.limits.maxNonces ≠ 0 && config.maxAccounts ≠ 0 && config.limits.maxInboxRecords ≠ 0 &&
    config.limits.maxMemoryMessages ≠ 0 && config.limits.maxBatchMessages ≠ 0 &&
      config.maxRetryRecords ≠ 0

/-- The name a new history gets, the clock, the lives of the orders read back, and whether SQLite
answers everything the start asks of it. -/
structure StartDraw where
  session : String
  now : UInt64
  life : OrderId → Nat
  answers : Bool

inductive StartError where
  | limits
  | sql
  | tooManyAccounts (count : Nat)
  | tooManyInboxRecords (count : Nat)
  | gap (count : Nat) (stored : Int)
  | notAMessage (count : Nat)
  | otherId (id claimed : OrderId)
  | nonceWithoutKey (id : OrderId)
  | tooManyNonces
  | replayed (first id : OrderId)
  | noCheckpoint (count : Nat)
  | noSession
  | checkpointText
  | checkpointChain
  | checkpointSignature
  | notSigned (session : String)
  | otherHistory (signed count : Nat)
  | checkpointRoot
  | checkpointRootSignature
  | rootNotSigned
  | halfARoot
  | badLink (id : OrderId)
  | rebuild (error : Unreadable)
  | moved (read upto : Nat)
  | treeRead (error : Unreadable)
  | otherRoot (built signed : Hash)
  | accountKey (account : Int) (publicKey : String)
  deriving DecidableEq

/-! ## The pass over the rows -/

/-- What the pass keeps of the rows it has seen. -/
structure Scan where
  rows : List MessageRow
  messages : List Published
  chains : List Chain
  nonces : AList (fun _ : NonceKey => OrderId)
  candidates : List OpenOrder
  chain : Chain
  chainAtStored : Chain
  firstBadLink : Option OrderId
  count : Nat

def Scan.start : Scan := ⟨[], [], [], ∅, [], EMPTY_CHAIN, EMPTY_CHAIN, none, 0⟩

/-- A full window drops the oldest. -/
def pushBounded {α : Type} (window : List α) (a : α) : List α :=
  if window.length = MESSAGE_WINDOW then window.tail ++ [a] else window ++ [a]

/-- The nonce of a stored message, spent in the map. -/
def scanNonce (config : Config) (nonces : AList (fun _ : NonceKey => OrderId)) (id : OrderId)
    (fields : Wire.Envelope) : Except StartError (AList (fun _ : NonceKey => OrderId)) :=
  match fields.nonce with
  | none => .ok nonces
  | some nonce =>
      match fields.account, Operator.canonicalNonce nonce with
      | some account, some bytes =>
          match nonces.lookup (account, bytes) with
          | some first => .error (.replayed first id)
          | none =>
              if config.limits.maxNonces ≤ nonces.entries.length then .error .tooManyNonces
              else .ok (nonces.insert (account, bytes) id)
      | _, _ => .error (.nonceWithoutKey id)

section

variable (sha256 : Bytes → Hash) (serde : Wire.Serde)

def scanRow (config : Config) (storedLeaves : Nat) (scan : Scan) (row : FileRow) :
    Except StartError Scan := do
  let json ← orFail row.json .sql
  let id := if 0 ≤ row.id then row.id.toNat else 0
  let count := scan.count + 1
  require (id = count) (.gap count row.id)
  let chain := extendBytes sha256 scan.chain json
  let firstBadLink :=
    if scan.firstBadLink = none ∧ row.chain ≠ some chain.toList then some id else scan.firstBadLink
  let fields ←
    match Wire.envelope serde json with
    | .ok fields => .ok fields
    | .error _ => .error (.notAMessage count)
  require (fields.id = id) (.otherId id fields.id)
  let nonces ← scanNonce config scan.nonces id fields
  let candidates :=
    match Wire.readMessage serde json with
    | some message => replayIntoTheOpenOrders scan.candidates message
    | none => scan.candidates
  return {
    rows := scan.rows ++ [⟨row.id, json, chain⟩]
    messages := pushBounded scan.messages ⟨id, json⟩
    chains := pushBounded scan.chains chain
    nonces := nonces
    candidates := candidates
    chain := chain
    chainAtStored := if count = storedLeaves then chain else scan.chainAtStored
    firstBadLink := firstBadLink
    count := count }

/-- The rows, as `ORDER BY id` gives them. -/
def inIdOrder (rows : List FileRow) : List FileRow := rows.insertionSort fun a b => a.id ≤ b.id

def scanRows (config : Config) (file : FeedFile) : Except StartError Scan :=
  (inIdOrder file.messages).foldlM (scanRow sha256 serde config (storedLeaves file.nodes)) Scan.start

/-! ## The session and the checkpoint -/

variable (verify : Bytes → Bytes → Bytes → Bool)

/-- The tree half of a checkpoint: both fields, or neither. -/
def checkRoot (key : SigningKey) (session : String) (checkpoint : Checkpoint) (chain : Chain) :
    Except StartError (Option Hash) :=
  match checkpoint.root, checkpoint.rootSignature with
  | none, none => .ok none
  | some root, some signature => do
      let root ← orFail (readHash root) .checkpointRoot
      let signature ← orFail (Operator.fromHex 64 signature.toList) .checkpointRootSignature
      require (verify key.verifyingKey (checkpointStatement session checkpoint.lastId chain root)
        signature = true) .rootNotSigned
      return some root
  | _, _ => .error .halfARoot

/-- The name of the history, and the root its checkpoint signs. -/
def checkCheckpoint (key : SigningKey) (file : FeedFile) (count : Nat) (chain : Chain)
    (newSession : String) : Except StartError (String × Option Hash) :=
  match file.checkpoint with
  | none => if count = 0 then .ok (newSession, none) else .error (.noCheckpoint count)
  | some stored => do
      let session ← orFail file.session .noSession
      let checkpoint ← orFail stored .checkpointText
      let signedChain ← orFail (readHash checkpoint.chain) .checkpointChain
      let signature ← orFail (Operator.fromHex 64 checkpoint.signature.toList) .checkpointSignature
      require (verify key.verifyingKey (headStatement session checkpoint.lastId signedChain)
        signature = true) (.notSigned session)
      require (checkpoint.lastId = count ∧ signedChain = chain) (.otherHistory checkpoint.lastId count)
      let root ← checkRoot verify key session checkpoint signedChain
      return (session, root)

/-! ## The tree -/

/-- Builds the missing nodes from the messages after `start`, which have to reach the same count and
the same chain a second time. -/
def rebuild (nodes : List NodeRow) (rows : List MessageRow) (start upto : Nat)
    (chainFrom chainUpto : Chain) : Except (Fault StartError) (List NodeRow) :=
  let missing := rows.drop start
  match append sha256 (if start = 0 then [] else nodes) start
      (missing.map fun row => leafHash sha256 row.json) with
  | .error .panicked => .error .panicked
  | .error (.failed e) => .error (.failed (.rebuild e))
  | .ok (_, nodes) =>
      if start + missing.length = upto ∧
          missing.foldl (fun chain row => extendBytes sha256 chain row.json) chainFrom = chainUpto then
        .ok nodes
      else .error (.failed (.moved (start + missing.length) upto))

/-- The nodes the sequencer goes on with: kept where the checkpoint says what they should hash to and
their number is right, and built from the messages where not. -/
def restoreNodes (file : FeedFile) (scan : Scan) (signedRoot : Option Hash) :
    Except (Fault StartError) (List NodeRow) :=
  let leaves := storedLeaves file.nodes
  let keeps := signedRoot.isSome ∧ leaves ≤ scan.count ∧
    file.nodes.length % 18446744073709551616 = expectedNodes leaves
  let start := if keeps then leaves else 0
  if start < scan.count then
    rebuild sha256 (nodeRows file.nodes) scan.rows start scan.count
      (if keeps then scan.chainAtStored else EMPTY_CHAIN) scan.chain
  else .ok (nodeRows file.nodes)

/-- The stored tree against the root the sequencer signed. -/
def checkTree (nodes : List NodeRow) (count : Nat) (signedRoot : Option Hash) :
    Except (Fault StartError) Unit :=
  match signedRoot with
  | none => .ok ()
  | some signed =>
      match root sha256 (Nodes.disk nodes count).source count with
      | .error .panicked => .error .panicked
      | .error (.failed e) => .error (.failed (.treeRead e))
      | .ok built => if built = signed then .ok () else .error (.failed (.otherRoot built signed))

end

/-! ## The start -/

/-- The keys fixed to accounts. One that cannot be read refuses the start. -/
def readAccounts (isVerifyingKey : Bytes → Bool) (rows : List AccountRow) :
    Except StartError (AList (fun _ : AccountId => Bytes)) :=
  rows.foldlM (fun accounts row =>
    match Operator.fromHex 32 row.publicKey.toList with
    | some key =>
        if isVerifyingKey key then
          .ok (accounts.insert (Fin.ofNat 4294967296 (row.account % 4294967296).toNat) key)
        else .error (.accountKey row.account row.publicKey)
    | none => .error (.accountKey row.account row.publicKey)) ∅

/-- `FeedState::with_db_and_retention_limits`. -/
def withDb (sha256 : Bytes → Hash) (env : Primitives) (serde : Wire.Serde)
    (verify : Bytes → Bytes → Bytes → Bool) (config : Config) (file : FeedFile) (draw : StartDraw) :
    Except (Fault StartError) Sequencer := do
  let check {α : Type} (x : Except StartError α) : Except (Fault StartError) α :=
    x.mapError .failed
  check (require (config.valid = true) .limits)
  check (require (draw.answers = true) .sql)
  check (require (file.accounts.length ≤ config.maxAccounts)
    (.tooManyAccounts file.accounts.length))
  check (require (file.inboxSequenced.length ≤ config.limits.maxInboxRecords)
    (.tooManyInboxRecords file.inboxSequenced.length))
  let scan ← check (scanRows sha256 serde config file)
  let (session, signedRoot) ←
    check (checkCheckpoint verify config.signingKey file scan.count scan.chain draw.session)
  match scan.firstBadLink with
  | some id => .error (.failed (.badLink id))
  | none => do
  let nodes ← restoreNodes sha256 file scan signedRoot
  checkTree sha256 nodes scan.count signedRoot
  let accounts ← check (readAccounts env.isVerifyingKey file.accounts)
  let conn : Database := {
    messages := scan.rows
    inboxSequenced := file.inboxSequenced
    session := file.session
    checkpoint := file.checkpoint.bind id
    nodes := nodes }
  return {
    feed := {
      retentionLimits := config.limits
      messages := scan.messages
      chains := scan.chains
      nextId := scan.count + 1
      session := session
      storage := .disk conn scan.count
      chain := scan.chain
      treeHead := none
      signingKey := config.signingKey
      inboxSequenced := file.inboxSequenced.foldl
        (fun pairs row => pairs.insert row.key (asU64 row.feedId)) ∅
      nonces := scan.nonces }
    maxAccounts := config.maxAccounts
    accounts := accounts
    accountRows := file.accounts
    operatorKey := config.operatorKey
    numAccounts := max config.numAccounts 1
    openOrders := scan.candidates.map fun held =>
      { held with expiresAtMs := saturatingAddU64 draw.now.toNat (draw.life held.id) }
    crossings := 0
    sinceCrossing := 0
    cancelsInARow := 0 }

end Feed
end VerifiableExchange
