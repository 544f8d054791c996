import VerifiableExchange.Lib.Float64
import VerifiableExchange.Lib.MachineInt

/-!
# Domain — what a message is

The messages the sequencer publishes, and the reading of a price or a quantity onto the whole
cents and whole tenths every book is kept in. Ids and timestamps are unsigned 64-bit values in the
source; they are natural numbers here, and every place that adds to one names the 64-bit edge.
-/

namespace VerifiableExchange

open Lib

/-! ## Names and numbers -/

/-- The number that names one account, an unsigned 32-bit value. -/
abbrev AccountId := Fin 4294967296

instance (priority := 2000) neZero_accounts : NeZero 4294967296 := ⟨by decide⟩

/-- The number that names one message, and the order that message carries. -/
abbrev OrderId := Nat

/-- The largest value `toGrid` accepts, for a price and for a quantity. -/
def maxGridUnits : Int := 1000000000

/-- `1e-6` as a binary64 value. -/
def gridTolerance : Rat := 4722366482869645 / 4722366482869645213696

/-- A product rounded to a whole number and cast to a signed 64-bit integer. -/
def roundAsI64 (value : F64) (scale : Nat) : Int :=
  match value.scaled scale with
  | some scaled => clampI64 (roundHalfAway scaled)
  | none =>
      match value with
      | .nan => 0
      | .inf negative => if negative then i64Min else i64Max
      | .finite negative _ _ => if negative then i64Min else i64Max

/-- Turns a value into the whole number a book is kept in, or `none` when the value is not one of
those whole numbers. `scale` is 100 for a price and 10 for a quantity. -/
def toGrid (value : F64) (scale : Nat) : Option Int :=
  match value.scaled scale with
  | none => none
  | some scaled =>
      -- The difference of a binary64 value and its rounding is exact, so it is not rounded again.
      if gridTolerance < |scaled - roundHalfAway scaled| then none
      else
        let units := clampI64 (roundHalfAway scaled)
        if 0 < units ∧ units ≤ maxGridUnits then some units else none

theorem toGrid_range {value : F64} {scale : Nat} {units : Int}
    (h : toGrid value scale = some units) : 0 < units ∧ units ≤ maxGridUnits := by
  unfold toGrid at h
  cases hs : value.scaled scale with
  | none => simp [hs] at h
  | some scaled =>
      simp only [hs] at h
      split_ifs at h with htol hrange
      cases h
      exact hrange

example : toGrid (F64.ofNat 100) 100 = some 10000 := by decide +kernel

/-! ## Order terms -/

inductive OrderType
  | limit
  | market
  deriving DecidableEq, Repr

inductive TimeInForce
  | goodTillCancel
  | immediateOrCancel
  | fillOrKill
  deriving DecidableEq, Repr

inductive Side
  | buy
  | sell
  deriving DecidableEq, Repr

/-- The side a resting order must be on to trade with an order of this side. -/
def Side.opposite : Side → Side
  | .buy => .sell
  | .sell => .buy

@[simp] theorem Side.opposite_opposite (side : Side) : side.opposite.opposite = side := by
  cases side <;> rfl

theorem Side.opposite_ne (side : Side) : side.opposite ≠ side := by
  cases side <;> decide

theorem Side.eq_opposite_of_ne {a b : Side} (h : a ≠ b) : a = b.opposite := by
  cases a <;> cases b <;> simp_all [Side.opposite]

/-! ## Messages -/

/-- The three terms a `New` message carries beside its price and quantity. -/
structure Terms where
  orderType : OrderType
  timeInForce : TimeInForce
  postOnly : Bool
  deriving DecidableEq

structure NewMessage where
  id : OrderId
  timestamp : Nat
  account : AccountId
  symbol : String
  side : Side
  price : F64
  quantity : F64
  nonce : Option String
  terms : Terms
  deriving DecidableEq

structure CancelMessage where
  id : OrderId
  timestamp : Nat
  account : AccountId
  targetId : OrderId
  nonce : Option String
  deriving DecidableEq

structure EngineRuleMessage where
  id : OrderId
  timestamp : Nat
  account : AccountId
  version : Nat
  nonce : Option String
  publicKey : String
  signature : String
  deriving DecidableEq

structure ListSymbolMessage where
  id : OrderId
  timestamp : Nat
  account : AccountId
  symbol : String
  priceStep : F64
  quantityStep : F64
  nonce : Option String
  publicKey : String
  signature : String
  deriving DecidableEq

structure DelistSymbolMessage where
  id : OrderId
  timestamp : Nat
  account : AccountId
  symbol : String
  nonce : Option String
  publicKey : String
  signature : String
  deriving DecidableEq

/-- The kinds of message the sequencer publishes. -/
inductive OrderMessage
  | new (m : NewMessage)
  | cancel (m : CancelMessage)
  | engineRule (m : EngineRuleMessage)
  | listSymbol (m : ListSymbolMessage)
  | delistSymbol (m : DelistSymbolMessage)
  deriving DecidableEq

namespace OrderMessage

/-- The message's own position in the log. -/
def id : OrderMessage → OrderId
  | new m => m.id
  | cancel m => m.id
  | engineRule m => m.id
  | listSymbol m => m.id
  | delistSymbol m => m.id

def timestamp : OrderMessage → Nat
  | new m => m.timestamp
  | cancel m => m.timestamp
  | engineRule m => m.timestamp
  | listSymbol m => m.timestamp
  | delistSymbol m => m.timestamp

/-- The account the message is about. -/
def account : OrderMessage → AccountId
  | new m => m.account
  | cancel m => m.account
  | engineRule m => m.account
  | listSymbol m => m.account
  | delistSymbol m => m.account

def nonce : OrderMessage → Option String
  | new m => m.nonce
  | cancel m => m.nonce
  | engineRule m => m.nonce
  | listSymbol m => m.nonce
  | delistSymbol m => m.nonce

/-- The two operator fields, for the three kinds the operator publishes. -/
def fieldsOf : OrderMessage → Option (String × String)
  | new _ => none
  | cancel _ => none
  | engineRule m => some (m.publicKey, m.signature)
  | listSymbol m => some (m.publicKey, m.signature)
  | delistSymbol m => some (m.publicKey, m.signature)

end OrderMessage

end VerifiableExchange
