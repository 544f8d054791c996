import VerifiableExchange.Feed.State
import VerifiableExchange.Wire.Text

/-!
# Submission — what an account asks for, and what it signs

A submission comes in at the sequencer or at the separate service, is checked against the same rules
at both, and becomes a message in one way. The refusals carry what their texts print.
-/

namespace VerifiableExchange
namespace Inbox

open Lib Operator

def PRICE_SCALE : Nat := 100

def QUANTITY_SCALE : Nat := 10

def NONCE_BYTES : Nat := 16

def SESSION_BYTES : Nat := 8

structure OrderSubmission where
  account : AccountId
  symbol : String
  side : Side
  price : F64
  quantity : F64
  nonce : Option String
  session : Option String
  terms : Terms
  deriving DecidableEq

structure CancelSubmission where
  account : AccountId
  targetId : UInt64
  nonce : Option String
  session : Option String
  deriving DecidableEq

inductive Submission
  | order (o : OrderSubmission)
  | cancel (c : CancelSubmission)
  deriving DecidableEq

structure SignedSubmission where
  submission : Submission
  publicKey : String
  signature : String
  deriving DecidableEq

/-- An entry of the separate service, as it is served. -/
structure InboxEntry where
  inboxId : Int
  receivedAt : Nat
  signed : SignedSubmission
  feedId : Option OrderId
  sequencedAt : Option Nat
  contentChecked : Option Bool
  deriving DecidableEq

/-- Why a submission is not taken, at either service. -/
inductive Refusal
  | noNonce
  | nonce (text : String)
  | noSession
  | session (text : String)
  | symbol (text : String)
  | price (value : F64)
  | quantity (value : F64)
  | targetZero
  | publicKeyHex
  | publicKeyPoint (text : String)
  | signatureHex
  | noStatement
  | signature (publicKey statement : String)
  | otherSession (named current : String)
  | otherKey (account : AccountId) (known presented : Bytes)
  deriving DecidableEq

/-- The status the refusal is answered with. -/
def Refusal.status : Refusal → Nat
  | .signature _ _ => 401
  | .otherKey _ _ _ => 403
  | _ => 400

namespace Submission

def accountOf : Submission → AccountId
  | order o => o.account
  | cancel c => c.account

def nonceOf : Submission → Option String
  | order o => o.nonce
  | cancel c => c.nonce

def sessionOf : Submission → Option String
  | order o => o.session
  | cancel c => c.session

end Submission

/-! ## Validation -/

/-- The 128 bits a submission's nonce names. -/
def checkedNonce (submission : Submission) : Except Refusal Bytes :=
  match submission.nonceOf with
  | none => .error .noNonce
  | some text => orFail (canonicalNonce text) (.nonce text)

/-- The session a submission names, in its one spelling. -/
def checkedSession (submission : Submission) : Except Refusal String :=
  match submission.sessionOf with
  | none => .error .noSession
  | some text =>
      match fromHex SESSION_BYTES text.toList with
      | some bytes => if toHex bytes = text.toList then .ok text else .error (.session text)
      | none => .error (.session text)

def validateSubmission (submission : Submission) : Except Refusal Unit := do
  let _ ← checkedNonce submission
  let _ ← checkedSession submission
  match submission with
  | .order o =>
      require (validSymbol o.symbol = true) (.symbol o.symbol)
      require ((toGrid o.price PRICE_SCALE).isSome = true) (.price o.price)
      require ((toGrid o.quantity QUANTITY_SCALE).isSome = true) (.quantity o.quantity)
  | .cancel c => require (c.targetId ≠ 0) .targetZero

/-! ## What is signed -/

def namedPostOnly (postOnly : Bool) : String := if postOnly then "true" else "false"

/-- The lines of the statement after its first one; `none` where there is nothing to sign. -/
def submissionLines (submission : Submission) : Option (List String) := do
  let nonce ← submission.nonceOf.bind canonicalNonce
  let session ← (checkedSession submission).toOption
  match submission with
  | .order o => do
      let priceCents ← toGrid o.price PRICE_SCALE
      let quantityTenths ← toGrid o.quantity QUANTITY_SCALE
      return [session, toString o.account.val, o.symbol, Wire.sideName o.side, toString priceCents,
        toString quantityTenths, Wire.orderTypeName o.terms.orderType,
        Wire.timeInForceName o.terms.timeInForce, namedPostOnly o.terms.postOnly,
        String.ofList (toHex nonce)]
  | .cancel c =>
      return [session, toString c.account.val, toString c.targetId.toNat, String.ofList (toHex nonce)]

def statementKind : Submission → String
  | .order _ => "exchange-account-order-v3"
  | .cancel _ => "exchange-account-cancel-v3"

/-- The text an account's signature covers. -/
def submissionStatement (submission : Submission) : Option String :=
  (submissionLines submission).map fun lines =>
    "\n".intercalate (statementKind submission :: lines)

/-! ## What it becomes -/

/-- The message a submission becomes, under the id and the timestamp the sequencer gives it. -/
def messageFrom (id : OrderId) (timestamp : Nat) : Submission → OrderMessage
  | .order o => .new {
      id := id
      timestamp := timestamp
      account := o.account
      symbol := o.symbol
      side := o.side
      price := o.price
      quantity := o.quantity
      nonce := o.nonce
      terms := o.terms }
  | .cancel c => .cancel {
      id := id
      timestamp := timestamp
      account := c.account
      targetId := c.targetId.toNat
      nonce := c.nonce }

section

variable (id : OrderId) (timestamp : Nat) (submission : Submission)

@[simp] theorem messageFrom_id : (messageFrom id timestamp submission).id = id := by
  cases submission <;> rfl

@[simp] theorem messageFrom_account :
    (messageFrom id timestamp submission).account = submission.accountOf := by
  cases submission <;> rfl

@[simp] theorem messageFrom_nonce :
    (messageFrom id timestamp submission).nonce = submission.nonceOf := by
  cases submission <;> rfl

end

/-- The message with its price and its quantity moved to the exact step they name. -/
def gridForm : OrderMessage → Option OrderMessage
  | .new m => do
      let priceCents ← toGrid m.price PRICE_SCALE
      let quantityTenths ← toGrid m.quantity QUANTITY_SCALE
      return .new { m with
        price := F64.quotient priceCents PRICE_SCALE
        quantity := F64.quotient quantityTenths QUANTITY_SCALE }
  | msg => some msg

/-- Whether a message is the submission the user made, by the bytes of the two. -/
def messageMatches (serde : Wire.Serde) (submission : Submission) (message : OrderMessage) : Bool :=
  match message with
  | .new _ | .cancel _ =>
      match gridForm (messageFrom message.id message.timestamp submission), gridForm message with
      | some expected, some message =>
          Wire.messageText serde expected = Wire.messageText serde message
      | _, _ => false
  | _ => false

/-! ## Who signed it -/

/-- The key that signed exactly these terms. -/
def verifyAccountSignature (env : Primitives) (signed : SignedSubmission) : Except Refusal Bytes :=
  match fromHex 32 (trim signed.publicKey) with
  | none => .error .publicKeyHex
  | some key =>
      if env.isVerifyingKey key = false then .error (.publicKeyPoint signed.publicKey)
      else
        match fromHex 64 (trim signed.signature) with
        | none => .error .signatureHex
        | some signature =>
            match submissionStatement signed.submission with
            | none => .error .noStatement
            | some statement =>
                if env.verifyStrict key statement signature then .ok key
                else .error (.signature signed.publicKey statement)

inductive AccountPin
  | first
  | known
  deriving DecidableEq

/-- Whether a submission names the log that is running. -/
def checkSession (current : String) (submission : Submission) : Except Refusal Unit := do
  let named ← checkedSession submission
  require (named = current) (.otherSession named current)

def checkAccountKey (account : AccountId) (pinned : Option Bytes) (presented : Bytes) :
    Except Refusal AccountPin :=
  match pinned with
  | none => .ok .first
  | some known => if known = presented then .ok .known else .error (.otherKey account known presented)

/-! ## What an accepted submission is -/

/-- What both services know of a submission they take. -/
structure Authorised (env : Primitives) (signed : SignedSubmission) (key : Bytes) : Prop where
  valid : validateSubmission signed.submission = .ok ()
  verified : verifyAccountSignature env signed = .ok key

variable {env : Primitives} {signed : SignedSubmission} {submission : Submission}

theorem checkedNonce_eq_ok {nonce : Bytes} :
    checkedNonce submission = .ok nonce ↔ submission.nonceOf.bind canonicalNonce = some nonce := by
  rw [checkedNonce]
  cases submission.nonceOf with
  | none => simp
  | some text => cases h : canonicalNonce text <;> simp [orFail, h]

theorem validateSubmission_order {o : OrderSubmission} :
    validateSubmission (.order o) = .ok () ↔
      (∃ nonce, checkedNonce (.order o) = .ok nonce) ∧
        (∃ session, checkedSession (.order o) = .ok session) ∧ validSymbol o.symbol = true ∧
          (∃ cents, toGrid o.price PRICE_SCALE = some cents) ∧
            ∃ tenths, toGrid o.quantity QUANTITY_SCALE = some tenths := by
  unfold validateSubmission
  simp only [bind_eq_ok, require_eq_ok, Option.isSome_iff_exists]
  constructor
  · rintro ⟨nonce, hnonce, session, hsession, ⟨⟩, hsymbol, ⟨⟩, hprice, hquantity⟩
    exact ⟨⟨nonce, hnonce⟩, ⟨session, hsession⟩, hsymbol, hprice, hquantity⟩
  · rintro ⟨⟨nonce, hnonce⟩, ⟨session, hsession⟩, hsymbol, hprice, hquantity⟩
    exact ⟨nonce, hnonce, session, hsession, (), hsymbol, (), hprice, hquantity⟩

/-- A valid submission has a nonce in its one spelling. -/
theorem exists_nonce (h : validateSubmission submission = .ok ()) :
    ∃ nonce, checkedNonce submission = .ok nonce := by
  unfold validateSubmission at h
  obtain ⟨nonce, hnonce, -⟩ := bind_eq_ok.1 h
  exact ⟨nonce, hnonce⟩

end Inbox
end VerifiableExchange
