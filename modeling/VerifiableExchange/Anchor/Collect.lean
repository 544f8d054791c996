import VerifiableExchange.Anchor.Contract
import VerifiableExchange.Merkle.Verify

/-!
# Collect — what the sender reads before it writes

The sender reads one coherent anchor out of four documents the exchange serves, checks every
signature it rests on, and compares it with the anchor already on the chain. What each request is
answered with is a parameter.
-/

namespace VerifiableExchange
namespace Anchor

open Lib Merkle

/-! ## The documents -/

/-- One execution claim, as `/claims` serves it. -/
structure Claim where
  fromMsg : Nat
  toMsg : Nat
  rootBefore : String
  rootAfter : String
  tradesTotal : Nat
  signature : String
  deriving DecidableEq

structure ClaimsPage where
  session : String
  cursor : Nat
  matcherPublicKey : String
  feedPublicKey : String
  claims : List Claim

structure SignedTreeHead where
  session : String
  timestamp : Nat
  treeSize : Nat
  rootHash : String
  publicKey : String
  signature : String

structure ConsistencyProof where
  first : Nat
  second : Nat
  consistencyPath : List String

/-- What the requests of one call are answered, each with a document or with why there is none. -/
structure Served where
  /-- `/claims?since=0`. -/
  envelope : Except String ClaimsPage
  /-- `/claims?since=` the cursor less a page. -/
  page : Nat → Except String ClaimsPage
  /-- `/sth`. -/
  treeHead : Except String SignedTreeHead
  /-- `/proof/consistency`. -/
  proof : Nat → Nat → Except String ConsistencyProof

/-- The functions the sender takes from its library. -/
structure Primitives where
  sha256 : Bytes → Hash
  /-- `ed25519.Verify` of a key over a statement and a signature. -/
  verify : Bytes → String → Bytes → Bool

/-- The feed and the matcher both page at 1000 rows. -/
def pageLimit : Nat := 1000

/-! ## What stops a call -/

/-- What a signature stands under. -/
inductive Signed where
  | claim (fromMsg toMsg : Nat)
  | treeHead
  deriving DecidableEq

/-- Why a call returns no facts: each sentence, with the values it prints. -/
inductive CollectError where
  | unanswered (reason : String)
  | noSession (session : String)
  | zeroSession
  | nothingCommitted
  | noClaim (cursor : Nat)
  | notAKey (what : Signed) (publicKey : String)
  | noSignature (what : Signed)
  | notVerified (what : Signed) (publicKey : String)
  | notAStateRoot (cursor : Nat) (text : String)
  | twoHistories (executing named : String)
  | otherKey (pinned publicKey : String)
  | notARoot (text : String)
  | outsideTree (treeSize cursor : Nat)
  | notASession (text : String)
  | replaced (anchored : Session) (session : String)
  | lostEntries (anchored treeSize : Nat)
  | rewritten (root : Hash) (treeSize : Nat) (rootHash : String)
  | rewound (anchored cursor : Nat)
  | otherProof (first second answeredFirst answeredSecond : Nat)
  | notANode (index first second : Nat) (text : String)
  | notExtended (first : Nat) (root : Hash) (second : Nat) (rootHash : String)
  deriving DecidableEq

/-- A call with nothing to write, which is no failure. -/
def CollectError.skips : CollectError → Bool
  | noSession _ => true
  | nothingCommitted => true
  | _ => false

/-! ## Texts -/

/-- `hex.DecodeString`. -/
def decodeString : List Char → Option Bytes
  | [] => some []
  | [_] => none
  | high :: low :: rest =>
      match Operator.hexDigit high, Operator.hexDigit low, decodeString rest with
      | some h, some l, some bytes => some (UInt8.ofNat (16 * h + l) :: bytes)
      | _, _, _ => none

def hex32 (text : String) : Option Hash :=
  match decodeString text.toList with
  | none => none
  | some bytes => if h : bytes.length = 32 then some ⟨bytes.toArray, hash_size h⟩ else none

/-- Whether a session is the 16 lowercase hex characters the feed writes. -/
def isSessionHex (session : String) : Bool :=
  session.toList.length == 16 &&
    session.toList.all (fun c => ('0' ≤ c && c ≤ '9') || ('a' ≤ c && c ≤ 'f'))

/-- The 16 hex characters as the 8 bytes the contract stores. -/
def sessionBytes8 (session : String) : Option Session :=
  if isSessionHex session then
    match decodeString session.toList with
    | none => none
    | some bytes => if h : bytes.length = 8 then some ⟨bytes.toArray, by simpa using h⟩ else none
  else none

def treeHeadStatement (session : String) (timestampMs treeSize : Nat) (rootHex : String) : String :=
  "\n".intercalate
    ["exchange-feed-sth-v1", session, toString timestampMs, toString treeSize, rootHex]

def claimStatement (session : String) (c : Claim) : String :=
  "\n".intercalate ["exchange-claim-v1", session, toString c.fromMsg, toString c.toMsg,
    c.rootBefore, c.rootAfter, toString c.tradesTotal]

/-! ## The checks -/

section

variable (go : Primitives)

def checkEd25519 (publicKeyHex statement signatureHex : String) (what : Signed) :
    Except CollectError Unit := do
  let key ← orFail ((decodeString publicKeyHex.toList).filter (fun key => key.length = 32))
    (.notAKey what publicKeyHex)
  let signature ← orFail ((decodeString signatureHex.toList).filter (fun s => s.length = 64))
    (.noSignature what)
  require (go.verify key statement signature = true) (.notVerified what publicKeyHex)

/-- Refuses a tree head of another history or key, and one whose own signature does not verify. -/
def treeHead (served : Except String SignedTreeHead) (session pinnedKey : String) :
    Except CollectError SignedTreeHead := do
  let sth ← served.mapError .unanswered
  require (sth.session = session) (.twoHistories session sth.session)
  require (pinnedKey = "" ∨ sth.publicKey = pinnedKey) (.otherKey pinnedKey sth.publicKey)
  require ((hex32 sth.rootHash).isSome) (.notARoot sth.rootHash)
  checkEd25519 go sth.publicKey
    (treeHeadStatement sth.session sth.timestamp sth.treeSize sth.rootHash) sth.signature .treeHead
  return sth

/-- The hashes of a proof, the first of which is node `index`. -/
def readPath (first second : Nat) : Nat → List String → Except CollectError (List Hash)
  | _, [] => .ok []
  | index, node :: rest =>
      match hex32 node with
      | none => .error (.notANode index first second node)
      | some hash => do
          let path ← readPath first second (index + 1) rest
          return hash :: path

/-- `extends`: the tree the feed has just signed contains, unchanged, the tree whose root is on
chain. -/
def extendsTree (served : Nat → Nat → Except String ConsistencyProof) (anchored : Hash) (size : Nat)
    (sth : SignedTreeHead) : Except CollectError Unit := do
  let proof ← (served size sth.treeSize).mapError .unanswered
  require (proof.first = size ∧ proof.second = sth.treeSize)
    (.otherProof size sth.treeSize proof.first proof.second)
  let path ← readPath size sth.treeSize 0 proof.consistencyPath
  let root ← orFail (hex32 sth.rootHash) (.notARoot sth.rootHash)
  require (Merkle.Anchor.verifyConsistency go.sha256 size sth.treeSize anchored root path = true)
    (.notExtended size anchored sth.treeSize sth.rootHash)

/-- What one anchor commits to. -/
structure Facts where
  session : String
  treeSize : Nat
  root : Hash
  lastID : Nat
  stateRoot : Hash
  timestamp : Nat
  deriving DecidableEq

/-- What `latest` returned. -/
abbrev AnchorState := AnchoredRoot

/-- A contract that has never been written to. -/
def AnchoredRoot.Empty (onChain : AnchorState) : Prop := onChain.count = 0

instance (onChain : AnchorState) : Decidable onChain.Empty :=
  inferInstanceAs (Decidable (onChain.count = 0))

/-- The ways a freshly signed tree head can contradict the anchor on the chain. -/
def checkAgainstChain (onChain : AnchorState) (sth : SignedTreeHead) (root : Hash) (cursor : Nat) :
    Except CollectError Unit := do
  let session ← orFail (sessionBytes8 sth.session) (.notASession sth.session)
  require (session = onChain.session) (.replaced onChain.session sth.session)
  require (onChain.treeSize ≤ sth.treeSize) (.lostEntries onChain.treeSize sth.treeSize)
  require (sth.treeSize = onChain.treeSize → root = onChain.rootHash)
    (.rewritten onChain.rootHash onChain.treeSize sth.rootHash)
  require (onChain.lastId ≤ cursor) (.rewound onChain.lastId cursor)

/-- The `from_msg` a page of claims is asked after, so that it holds the claim ending at the
cursor. -/
def sinceOf (cursor : Nat) : Nat := if pageLimit < cursor then cursor - pageLimit else 0

/-- The comparison with an anchor that is there. -/
def checkAnchored (served : Served) (onChain : AnchorState) (sth : SignedTreeHead) (root : Hash)
    (cursor : Nat) : Except CollectError Unit :=
  if onChain.Empty then .ok ()
  else do
    checkAgainstChain onChain sth root cursor
    if onChain.treeSize < sth.treeSize then
      extendsTree go served.proof onChain.rootHash onChain.treeSize sth
    else .ok ()

/-- Reads one coherent anchor from the exchange and checks it against what the contract holds. -/
def collect (served : Served) (onChain : AnchorState) : Except CollectError Facts := do
  let envelope ← served.envelope.mapError .unanswered
  let session := envelope.session
  require (isSessionHex session = true) (.noSession session)
  require (session ≠ "0000000000000000") .zeroSession
  require (envelope.cursor ≠ 0) .nothingCommitted
  let cursor := envelope.cursor
  let page ← (served.page (sinceOf cursor)).mapError .unanswered
  let claim ← orFail (page.claims.find? (fun claim => claim.toMsg = cursor)) (.noClaim cursor)
  checkEd25519 go envelope.matcherPublicKey (claimStatement session claim) claim.signature
    (.claim claim.fromMsg claim.toMsg)
  let stateRoot ← orFail (hex32 claim.rootAfter) (.notAStateRoot cursor claim.rootAfter)
  let sth ← treeHead go served.treeHead session envelope.feedPublicKey
  require (cursor ≤ sth.treeSize) (.outsideTree sth.treeSize cursor)
  let root ← orFail (hex32 sth.rootHash) (.notARoot sth.rootHash)
  checkAnchored go served onChain sth root cursor
  return {
    session := session
    treeSize := sth.treeSize
    root := root
    lastID := cursor
    stateRoot := stateRoot
    timestamp := sth.timestamp }

/-! ## One tick -/

/-- Why a tick writes nothing. -/
inductive TickError where
  | collect (error : CollectError)
  | nothingNew (anchored treeSize : Nat)
  deriving DecidableEq

/-- The arguments of the call that writes the facts. -/
def anchorCalldata (f : Facts) : Except CollectError AnchorArgs := do
  let session ← orFail (sessionBytes8 f.session) (.notASession f.session)
  return ⟨f.treeSize, f.lastID, session, f.root, f.stateRoot⟩

/-- Reads the exchange against what the contract holds, and builds one call where there is a newer
tree to commit to. -/
def tick (served : Served) (onChain : AnchorState) : Except TickError AnchorArgs := do
  let facts ← (collect go served onChain).mapError .collect
  require (onChain.treeSize < facts.treeSize) (.nothingNew onChain.treeSize facts.treeSize)
  (anchorCalldata facts).mapError .collect

end

end Anchor
end VerifiableExchange
