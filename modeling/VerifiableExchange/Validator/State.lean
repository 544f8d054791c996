import VerifiableExchange.Matcher.Validators
import VerifiableExchange.Poller.State

/-!
# Validator — one member of the group that makes a history final

A validator follows the sequencer's log, computes the chain again from the bytes it is served, and
signs how far it got. It saves its position after each poll, which may fail, and a restart goes on
from what was saved last.
-/

namespace VerifiableExchange
namespace Validator

open Lib Matcher Matcher.Validators
open Poller (SignedHead verifyHead)

/-- How many polls in a row may end without a check before the validator says so. -/
def UNCHECKED_POLLS_BEFORE_STALL : Nat := 20

def u32Max : Nat := 4294967295

/-! ## What arrives and what is served -/

/-- One message as it arrived: its number, read out of the bytes, and the bytes. -/
structure RawMessage where
  id : OrderId
  bytes : Bytes
  deriving DecidableEq

/-- What one request for messages got. -/
inductive Answer
  | silent
  | unreadable (reason : String)
  | page (session : Option String) (head : Option SignedHead) (messages : List RawMessage)
  deriving DecidableEq

/-- What a validator serves: its signed view of the history. -/
structure Attestation where
  validator : String
  session : String
  lastId : OrderId
  chain : String
  signature : String
  disputed : Bool
  stalled : Bool
  uncheckedPolls : Nat
  deriving DecidableEq

/-- The validator's own key. -/
structure SigningKey where
  verifyingKey : Bytes
  sign : String → Bytes

/-- Why a poll ended without confirming the cursor. -/
inductive Unchecked
  | noAnswer
  | unreadable (reason : String)
  | noSignedHead
  | foreignKey (pinned got : String)
  | badSignature (key : String) (at' : OrderId)
  | headDoesNotCover (signedAt servedTo : OrderId)
  | outOfOrder (expected got : OrderId)
  deriving DecidableEq

/-- What one answer did to the state. -/
inductive Ingest
  | verified (cursor : OrderId)
  | unchecked (why : Unchecked)
  | disputed
  deriving DecidableEq

end Validator

/-! ## The state -/

open Lib in
/-- The whole state beside the key and the database. -/
structure ValidatorState where
  session : Option String
  feedPubkey : Option String
  cursor : OrderId
  chain : Bytes
  disputed : Bool
  disputeReason : Option String
  uncheckedPolls : Nat
  deriving DecidableEq

namespace ValidatorState

open Lib Validator Matcher Matcher.Validators
open Poller (SignedHead verifyHead)

def stalled (s : ValidatorState) : Bool := UNCHECKED_POLLS_BEFORE_STALL ≤ s.uncheckedPolls

def status (s : ValidatorState) : AttestStatus := ⟨s.disputed, s.stalled⟩

/-- The attestation over the position in memory. -/
def attest (s : ValidatorState) (key : SigningKey) : Attestation :=
  let session := s.session.getD ""
  let status := s.status
  { validator := Logchain.toHex key.verifyingKey
    session := session
    lastId := s.cursor
    chain := Logchain.toHex s.chain
    signature := Logchain.toHex (key.sign (attestStatement session s.cursor s.chain status))
    disputed := status.disputed
    stalled := status.stalled
    uncheckedPolls := s.uncheckedPolls }

/-- The state after one more poll without a check. -/
def uncheckedOnce (s : ValidatorState) : ValidatorState :=
  { s with uncheckedPolls := min (s.uncheckedPolls + 1) u32Max }

def unchecked (s : ValidatorState) (why : Unchecked) : ValidatorState × Ingest :=
  (s.uncheckedOnce, .unchecked why)

/-- The state with the verdict this validator exists to reach. -/
def accuse (s : ValidatorState) (reason : String) : ValidatorState :=
  { s with disputed := true, disputeReason := some reason }

def dispute (s : ValidatorState) (reason : String) : ValidatorState × Ingest :=
  (s.accuse reason, .disputed)

/-! ## One page -/

/-- Fixes the sequencer's key on the first head that verifies. -/
def pin (s : ValidatorState) (publicKey : String) : ValidatorState :=
  if s.feedPubkey.isNone then { s with feedPubkey := some publicKey } else s

/-- A new session is a new history, followed from its first message. -/
def enter (s : ValidatorState) (session : String) : ValidatorState :=
  if s.session ≠ some session then
    { s with session := some session, cursor := 0, chain := MatcherState.emptyChain, uncheckedPolls := 0 }
  else s

/-- What a head that verified changes by itself. -/
def trust (s : ValidatorState) (session : String) (head : SignedHead) : ValidatorState :=
  (s.pin head.publicKey).enter session

/-- The first number that does not continue `expected`, with the one that would. -/
def firstGap (expected : OrderId) : List RawMessage → Option (OrderId × OrderId)
  | [] => none
  | m :: rest =>
      if m.id ≠ expected then some (expected, m.id)
      else firstGap (saturatingAddU64 expected 1) rest

/-- The number of the last message served. -/
def servedTo (cursor : OrderId) (messages : List RawMessage) : OrderId :=
  (messages.getLast?.map RawMessage.id).getD cursor

/-- The chain these messages extend `chain` into. -/
def extendedBy (env : Primitives) (chain : Bytes) (messages : List RawMessage) : Bytes :=
  messages.foldl (fun chain m => env.sha256 (chain ++ m.bytes)) chain

def disputeText (head : SignedHead) (chain : Bytes) : String :=
  "the feed signed chain " ++ Logchain.toHex head.chain ++ " at message " ++ toString head.lastId ++
    " but the messages it served hash to " ++ Logchain.toHex chain

/-- The state that stands on what was checked. -/
def advance (s : ValidatorState) (cursor : OrderId) (chain : Bytes) : ValidatorState :=
  { s with chain := chain, cursor := cursor, uncheckedPolls := 0 }

/-- Applies one page. Everything is checked before anything is hashed into the chain. -/
def ingest (env : Primitives) (s : ValidatorState) (session : Option String)
    (head : Option SignedHead) (messages : List RawMessage) : ValidatorState × Ingest :=
  match session, head with
  | some session, some head =>
      match s.feedPubkey.filter (fun pinned => pinned ≠ head.publicKey) with
      | some pinned => s.unchecked (.foreignKey pinned head.publicKey)
      | none =>
          if ¬verifyHead env session head then
            s.unchecked (.badSignature head.publicKey head.lastId)
          else
            -- From here on the session and the head are backed by the pinned key.
            let s := s.trust session head
            match firstGap (saturatingAddU64 s.cursor 1) messages with
            | some (expected, got) => s.unchecked (.outOfOrder expected got)
            | none =>
                let served := servedTo s.cursor messages
                if head.lastId ≠ served then s.unchecked (.headDoesNotCover head.lastId served)
                else
                  let chain := extendedBy env s.chain messages
                  if chain ≠ head.chain then s.dispute (disputeText head chain)
                  else (s.advance served chain, .verified served)
  | _, _ => s.unchecked .noSignedHead

/-- What one poll makes of what it got. -/
def receive (env : Primitives) (s : ValidatorState) : Answer → ValidatorState × Ingest
  | .silent => s.unchecked .noAnswer
  | .unreadable reason => s.unchecked (.unreadable reason)
  | .page session head messages => s.ingest env session head messages

end ValidatorState

namespace Validator

open Matcher

/-! ## The database -/

/-- The one row of `validator_state`. -/
structure Row where
  session : Option String
  feedPubkey : Option String
  cursor : Int
  chain : Bytes
  disputed : Int
  disputeReason : Option String
  uncheckedPolls : Int
  deriving DecidableEq

/-- The row a save writes. -/
def save (s : ValidatorState) : Row where
  session := s.session
  feedPubkey := s.feedPubkey
  cursor := Store.asI64 s.cursor
  chain := s.chain
  disputed := if s.disputed then 1 else 0
  disputeReason := s.disputeReason
  uncheckedPolls := s.uncheckedPolls

/-- The state a process starts from. -/
def openValidatorDb : Option Row → Except String ValidatorState
  | some row =>
      if row.chain.length ≠ 32 then .error "stored chain is not 32 bytes"
      else .ok {
        session := row.session
        feedPubkey := row.feedPubkey
        cursor := Store.asU64 row.cursor
        chain := row.chain
        disputed := row.disputed ≠ 0
        disputeReason := row.disputeReason
        uncheckedPolls := (max row.uncheckedPolls 0).toNat % (u32Max + 1) }
  | none => .ok ⟨none, none, 0, MatcherState.emptyChain, false, none, 0⟩

/-- Clears a dispute an operator has investigated, and the stall count with it. -/
def clearDispute (row : Row) : Row :=
  if row.disputed ≠ 0 then { row with disputed := 0, disputeReason := none, uncheckedPolls := 0 }
  else row

/-! ## The running validator -/

/-- The messages one session was followed through: history no function reads. -/
structure Followed where
  session : String
  messages : List RawMessage
  deriving DecidableEq

/-- A process with its database. The last three fields are history: the messages the position in
memory and the one on disk stand on, and every position that was verified. -/
structure System where
  state : ValidatorState
  disk : Option Row
  signed : List Attestation
  log : List RawMessage
  diskLog : List RawMessage
  followed : List Followed
  deriving DecidableEq

/-- What can happen next. -/
inductive Action
  /-- A poll gets this answer, and the save after it works or fails. -/
  | poll (answer : Answer) (saved : Bool)
  /-- Someone reads the attestation. -/
  | attest
  | restart
  /-- The operator clears the verdict in the database. -/
  | clearDispute
  deriving DecidableEq

namespace System

/-- The messages behind a position after an answer. -/
def logAfter (log : List RawMessage) (before after : ValidatorState) (answer : Answer)
    (outcome : Ingest) : List RawMessage :=
  let base := if after.session = before.session then log else []
  match outcome, answer with
  | .verified _, .page _ _ messages => base ++ messages
  | _, _ => base

/-- One turn of the loop. A disputed validator does not poll. -/
def poll (env : Primitives) (s : System) (answer : Answer) (saved : Bool) : System :=
  if s.state.disputed then s
  else
    let (state, outcome) := s.state.receive env answer
    let log := logAfter s.log s.state state answer outcome
    { s with
      state := state
      disk := if saved then some (save state) else s.disk
      log := log
      diskLog := if saved then log else s.diskLog
      followed :=
        match outcome with
        | .verified _ => s.followed ++ [⟨state.session.getD "", log⟩]
        | _ => s.followed }

/-- One action, where it can happen: a process that cannot open its database does not start. -/
def perform (env : Primitives) (key : SigningKey) (s : System) : Action → Option System
  | .poll answer saved => some (s.poll env answer saved)
  | .attest => some { s with signed := s.signed ++ [s.state.attest key] }
  | .restart =>
      match openValidatorDb s.disk with
      | .ok state => some { s with state := state, log := s.diskLog }
      | .error _ => none
  | .clearDispute => some { s with disk := s.disk.map Validator.clearDispute }

def performAll (env : Primitives) (key : SigningKey) (s : System) (actions : List Action) :
    Option System :=
  actions.foldlM (perform env key) s

/-- A validator that starts without a database. -/
def start : System where
  state := ⟨none, none, 0, MatcherState.emptyChain, false, none, 0⟩
  disk := none
  signed := []
  log := []
  diskLog := []
  followed := []

end System

end Validator
end VerifiableExchange
