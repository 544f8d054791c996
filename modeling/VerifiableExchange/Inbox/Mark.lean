import VerifiableExchange.Inbox.Submission
import VerifiableExchange.Merkle.Verify

/-!
# Mark — the sequencer's signed word about one entry

A mark names the entry and the message it became, and carries the message's stored bytes, a signed
tree head and an inclusion proof. What verifies a mark hashes, and reads nothing of the message.
-/

namespace VerifiableExchange
namespace Inbox

open Lib Merkle Logchain

/-- A signed tree head without its key: the reader has one pinned key. -/
structure TreeHead where
  session : String
  timestamp : UInt64
  treeSize : Nat
  rootHash : String
  signature : String
  deriving DecidableEq

structure MarkRequest where
  inboxId : Int
  feedId : OrderId
  inboxEpoch : String
  message : Bytes
  treeHead : TreeHead
  inclusionPath : List String
  signature : String
  deriving DecidableEq

def MAX_INCLUSION_PATH : Nat := 64

section

variable (sha256 : Bytes → Hash)

/-- What a mark's signature covers. -/
def markStatement (inboxEpoch : String) (inboxId : Int) (feedId : OrderId) (message : Bytes)
    (head : TreeHead) : Bytes :=
  statement ["exchange-inbox-mark-v3", head.session, inboxEpoch, toString inboxId, toString feedId,
    toString head.treeSize, head.rootHash, toHex (sha256 message).toList]

/-- The mark the sequencer sends after it sequences an entry. -/
def signedMark (key : SigningKey) (inboxEpoch : String) (inboxId : Int) (feedId : OrderId)
    (message : Bytes) (head : TreeHead) (inclusionPath : List String) : MarkRequest where
  inboxId := inboxId
  feedId := feedId
  inboxEpoch := inboxEpoch
  message := message
  treeHead := head
  inclusionPath := inclusionPath
  signature := toHex (key.sign (markStatement sha256 inboxEpoch inboxId feedId message head))

variable (verify : Bytes → Bytes → Bytes → Bool) (key : Bytes)

/-- Whether the mark is signed by this key; `verify` is `verify_strict` of a key over a statement
and a signature. -/
def verifyMark (req : MarkRequest) : Bool :=
  match Operator.fromHex 64 req.signature.toList with
  | none => false
  | some signature =>
      verify key
        (markStatement sha256 req.inboxEpoch req.inboxId req.feedId req.message req.treeHead)
        signature

/-- Why a mark's proof is not one. -/
inductive InclusionError where
  | malformedHead (root signature : String)
  | unsignedHead (session : String) (treeSize : Nat) (root : String)
  | noLeaf
  | outside (feedId treeSize : Nat)
  | longPath (nodes : Nat)
  | notAHash
  | notThere (feedId : OrderId) (root : String) (treeSize : Nat)
  deriving DecidableEq

/-- Checks that the message really is in the tree the sequencer signed. -/
def verifyInclusion (req : MarkRequest) : Except InclusionError Unit :=
  let head := req.treeHead
  match readHash head.rootHash, Operator.fromHex 64 head.signature.toList with
  | some root, some signature =>
      if verify key (treeHeadStatement head.session head.timestamp head.treeSize root)
          signature = false then
        .error (.unsignedHead head.session head.treeSize head.rootHash)
      else if req.feedId = 0 then .error .noLeaf
      else if head.treeSize ≤ req.feedId - 1 then .error (.outside req.feedId head.treeSize)
      else if MAX_INCLUSION_PATH < req.inclusionPath.length then
        .error (.longPath req.inclusionPath.length)
      else
        match req.inclusionPath.mapM readHash with
        | none => .error .notAHash
        | some path =>
            if verifyEntryInclusion sha256 (req.feedId - 1) head.treeSize req.message path root then
              .ok ()
            else .error (.notThere req.feedId head.rootHash head.treeSize)
  | _, _ => .error (.malformedHead head.rootHash head.signature)

end

end Inbox
end VerifiableExchange
