import VerifiableExchange.Lib.Lines
import VerifiableExchange.Matcher.Validators
import VerifiableExchange.Store.Load

/-!
# Statements — one meaning for every signature

The statements the keys of the exchange sign are lines of text: what kind of statement it is, the
session, and the fields. The session may be any text at all. It is still read back, because every line
beside it has a fixed number and holds no line break.
-/

namespace VerifiableExchange
namespace Statements

open Lib Merkle Logchain Operator

/-! ## Printed values -/

/-- What the signature on an operator message covers. -/
inductive OperatorTerms
  | list (symbol : String) (priceStepCents quantityStepTenths : Int) (nonce : Bytes)
  | delist (symbol : String) (nonce : Bytes)
  | rule (version : Nat) (nonce : Bytes)

namespace OperatorTerms

def kind : OperatorTerms → OperatorKind
  | list _ _ _ _ => .list
  | delist _ _ => .delist
  | rule _ _ => .rule

/-- The lines after the session. -/
def fields : OperatorTerms → List String
  | list symbol priceStepCents quantityStepTenths nonce =>
      [symbol, toString priceStepCents, toString quantityStepTenths, Logchain.toHex nonce]
  | delist symbol nonce => [symbol, Logchain.toHex nonce]
  | rule version nonce => [toString version, Logchain.toHex nonce]

/-- The callers admit no other symbol. -/
def Admitted : OperatorTerms → Prop
  | list symbol _ _ _ => validSymbol symbol = true
  | delist symbol _ => validSymbol symbol = true
  | rule _ _ => True

end OperatorTerms

/-- The eight kinds of statement. -/
inductive StatementKind
  | head
  | checkpoint
  | treeHead
  | claim
  | attest
  | operator (kind : OperatorKind)

namespace StatementKind

def firstLine : StatementKind → String
  | head => "exchange-feed-head-v1"
  | checkpoint => "exchange-feed-checkpoint-v1"
  | treeHead => "exchange-feed-sth-v1"
  | claim => "exchange-claim-v1"
  | attest => "exchange-validator-attest-v2"
  | operator kind => kind.firstLine

end StatementKind

/-- Everything a key of the exchange puts its name to. -/
inductive Signed
  | head (session : String) (lastId : OrderId) (chain : Chain)
  | checkpoint (session : String) (lastId : OrderId) (chain : Chain) (root : Hash)
  | treeHead (session : String) (timestampMs : UInt64) (treeSize : Nat) (rootHash : Hash)
  | claim (session : String) (fromMsg toMsg : OrderId) (rootBefore rootAfter : Bytes)
      (tradesTotal : Nat)
  | attest (session : String) (lastId : OrderId) (chain : Bytes)
      (status : Matcher.Validators.AttestStatus)
  | operator (session : String) (terms : {terms : OperatorTerms // terms.Admitted})

namespace Signed

/-- The bytes its signature covers. -/
def statement : Signed → Bytes
  | head session lastId chain => headStatement session lastId chain
  | checkpoint session lastId chain root => checkpointStatement session lastId chain root
  | treeHead session timestampMs treeSize rootHash =>
      treeHeadStatement session timestampMs treeSize rootHash
  | claim session fromMsg toMsg rootBefore rootAfter tradesTotal =>
      utf8 (claimStatement session fromMsg toMsg rootBefore rootAfter tradesTotal)
  | attest session lastId chain status =>
      utf8 (Matcher.Validators.attestStatement session lastId chain status)
  | operator session terms =>
      utf8 (operatorStatement terms.val.kind session terms.val.fields)

def kind : Signed → StatementKind
  | head _ _ _ => .head
  | checkpoint _ _ _ _ => .checkpoint
  | treeHead _ _ _ _ => .treeHead
  | claim _ _ _ _ _ _ => .claim
  | attest _ _ _ _ => .attest
  | operator _ terms => .operator terms.val.kind

def session : Signed → String
  | head session _ _ => session
  | checkpoint session _ _ _ => session
  | treeHead session _ _ _ => session
  | claim session _ _ _ _ _ => session
  | attest session _ _ _ => session
  | operator session _ => session

/-- The lines after the session. -/
def fields : Signed → List String
  | head _ lastId chain => [toString lastId, toHex chain.toList]
  | checkpoint _ lastId chain root => [toString lastId, toHex chain.toList, toHex root.toList]
  | treeHead _ timestampMs treeSize rootHash =>
      [toString timestampMs, toString treeSize, toHex rootHash.toList]
  | claim _ fromMsg toMsg rootBefore rootAfter tradesTotal =>
      [toString fromMsg, toString toMsg, toHex rootBefore, toHex rootAfter, toString tradesTotal]
  | attest _ lastId chain status =>
      [toString lastId, toHex chain, toString status.disputed, toString status.stalled]
  | operator _ terms => terms.val.fields

end Signed

namespace Signed

end Signed

end Statements
end VerifiableExchange
