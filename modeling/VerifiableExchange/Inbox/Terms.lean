import VerifiableExchange.Inbox.Grid
import VerifiableExchange.Inbox.Submission
import VerifiableExchange.Matcher.Steps
import VerifiableExchange.Statements

/-!
# Terms — what is signed and what runs

The terms of a submission are read in three ways: as the lines an account signs, as the message that
is published, and as the bytes the two services compare. All three say the same terms.
-/

namespace VerifiableExchange
namespace Inbox

open Lib Wire Operator Statements

/-- What the signature of an account covers, in whole units. -/
inductive AccountTerms
  | order (account : AccountId) (symbol : String) (side : Side) (priceCents quantityTenths : Int)
      (terms : Terms) (nonce : Bytes)
  | cancel (account : AccountId) (targetId : Nat) (nonce : Bytes)
  deriving DecidableEq

namespace AccountTerms

def firstLine : AccountTerms → String
  | order _ _ _ _ _ _ _ => "exchange-account-order-v3"
  | cancel _ _ _ => "exchange-account-cancel-v3"

/-- The lines after the session. -/
def lines : AccountTerms → List String
  | order account symbol side priceCents quantityTenths terms nonce =>
      [toString account.val, symbol, sideName side, toString priceCents, toString quantityTenths,
        orderTypeName terms.orderType, timeInForceName terms.timeInForce,
        namedPostOnly terms.postOnly, Logchain.toHex nonce]
  | cancel account targetId nonce =>
      [toString account.val, toString targetId, Logchain.toHex nonce]

def statement (session : String) (terms : AccountTerms) : String :=
  "\n".intercalate (terms.firstLine :: session :: terms.lines)

/-- No other symbol is signed for. -/
def Admitted : AccountTerms → Prop
  | order _ symbol _ _ _ _ _ => validSymbol symbol = true
  | cancel _ _ _ => True

end AccountTerms

/-! ## Submissions -/

variable {serde : Wire.Serde} {reread : F64 → F64} {submission other : Submission}
  {msg : OrderMessage}

/-- A message carries what a submission asks for, its numbers up to the step they name. -/
def SameTerms : Submission → OrderMessage → Prop
  | .order o, .new m =>
      m.account = o.account ∧ m.symbol = o.symbol ∧ m.side = o.side ∧ m.nonce = o.nonce ∧
        m.terms = o.terms ∧
        (∃ cents, toGrid o.price PRICE_SCALE = some cents ∧ toGrid m.price PRICE_SCALE = some cents) ∧
        ∃ tenths, toGrid o.quantity QUANTITY_SCALE = some tenths ∧
          toGrid m.quantity QUANTITY_SCALE = some tenths
  | .cancel c, .cancel m =>
      m.account = c.account ∧ m.targetId = c.targetId.toNat ∧ m.nonce = c.nonce
  | _, _ => False

theorem SameTerms.nonce_eq (h : SameTerms submission msg) : msg.nonce = submission.nonceOf := by
  cases submission with
  | order o =>
      cases msg with
      | new m => exact h.2.2.2.1
      | _ => exact h.elim
  | cancel c =>
      cases msg with
      | cancel m => exact h.2.2
      | _ => exact h.elim

theorem SameTerms.account_eq (h : SameTerms submission msg) : msg.account = submission.accountOf := by
  cases submission with
  | order o =>
      cases msg with
      | new m => exact h.1
      | _ => exact h.elim
  | cancel c =>
      cases msg with
      | cancel m => exact h.1
      | _ => exact h.elim

namespace Sample

/-- A resting order of an account, at 25 and for 1. -/
def order : Submission :=
  .order ⟨3, "ETH-USDC", .buy, F64.ofNat 25, F64.ofNat 1, some "202122232425262728292a2b2c2d2e2f",
    some "00112233aabbccdd", ⟨.limit, .goodTillCancel, false⟩⟩

def cancel : Submission :=
  .cancel ⟨3, 7, some "000102030405060708090a0b0c0d0e0f", some "00112233aabbccdd"⟩

end Sample

end Inbox
end VerifiableExchange
