import VerifiableExchange.Domain
import VerifiableExchange.Operator
import VerifiableExchange.Lib.JsonValue
import VerifiableExchange.Lib.Float64Round

/-!
# Text — a message as it is written and as it is read

A message is written once, and its bytes are read in two ways: the envelope, which works for a kind
this build has never seen, and the message itself. The text reader of `serde_json` and the printing
of one floating-point number come as `Serde`; everything derived on top of them is here.
-/

namespace VerifiableExchange
namespace Wire

open Lib

abbrev Value := JsonValue F64

/-- `serde_json`, as far as the exchange calls it. -/
structure Serde where
  /-- The text of a finite number. -/
  number : F64 → Bytes
  /-- The value a text stands for. What no reader takes is an infinity there: a literal past the
  range of binary64, a string or an object key that is not characters, a nesting too deep. -/
  parse : Bytes → Option Value

/-! ## Names -/

/-- The key a message of this kind is written under. -/
def kind : OrderMessage → String
  | .new _ => "New"
  | .cancel _ => "Cancel"
  | .engineRule _ => "EngineRule"
  | .listSymbol _ => "ListSymbol"
  | .delistSymbol _ => "DelistSymbol"

def sideName : Side → String
  | .buy => "Buy"
  | .sell => "Sell"

def orderTypeName : OrderType → String
  | .limit => "Limit"
  | .market => "Market"

def timeInForceName : TimeInForce → String
  | .goodTillCancel => "GoodTillCancel"
  | .immediateOrCancel => "ImmediateOrCancel"
  | .fillOrKill => "FillOrKill"

/-- A whole number of the message, as a value. -/
def whole (n : Nat) : Value := .int n

/-- A field that is left out where it has nothing to say. -/
def optional (key : String) (value : Option Value) : List (String × Value) :=
  (value.map fun v => (key, v)).toList

def nonceField (nonce : Option String) : List (String × Value) :=
  optional "nonce" (nonce.map .str)

/-- The three order terms; a default one is left out. -/
def termFields (terms : Terms) : List (String × Value) :=
  optional "order_type"
      (if terms.orderType = .limit then none else some (.str (orderTypeName terms.orderType))) ++
    (optional "time_in_force"
        (if terms.timeInForce = .goodTillCancel then none
        else some (.str (timeInForceName terms.timeInForce))) ++
      optional "post_only" (if terms.postOnly then some (.bool true) else none))

/-- The fields of a message, in the order they are declared. -/
def fields : OrderMessage → List (String × Value)
  | .new m =>
      ("id", whole m.id) :: ("timestamp", whole m.timestamp) :: ("account", whole m.account.val) ::
        ("symbol", .str m.symbol) :: ("side", .str (sideName m.side)) :: ("price", .float m.price) ::
          ("quantity", .float m.quantity) :: (nonceField m.nonce ++ termFields m.terms)
  | .cancel m =>
      ("id", whole m.id) :: ("timestamp", whole m.timestamp) :: ("account", whole m.account.val) ::
        ("target_id", whole m.targetId) :: nonceField m.nonce
  | .engineRule m =>
      ("id", whole m.id) :: ("timestamp", whole m.timestamp) :: ("account", whole m.account.val) ::
        ("version", whole m.version) :: (nonceField m.nonce ++
          [("public_key", .str m.publicKey), ("signature", .str m.signature)])
  | .listSymbol m =>
      ("id", whole m.id) :: ("timestamp", whole m.timestamp) :: ("account", whole m.account.val) ::
        ("symbol", .str m.symbol) :: ("price_step", .float m.priceStep) ::
          ("quantity_step", .float m.quantityStep) :: (nonceField m.nonce ++
            [("public_key", .str m.publicKey), ("signature", .str m.signature)])
  | .delistSymbol m =>
      ("id", whole m.id) :: ("timestamp", whole m.timestamp) :: ("account", whole m.account.val) ::
        ("symbol", .str m.symbol) :: (nonceField m.nonce ++
          [("public_key", .str m.publicKey), ("signature", .str m.signature)])

/-- What `serde` makes of a message: an object with one key, which names the kind. -/
def messageValue (msg : OrderMessage) : Value := JsonValue.tagged (kind msg) (fields msg)

/-- `serde_json::to_string` of a message. -/
def messageText (serde : Serde) (msg : OrderMessage) : Bytes :=
  JsonValue.print serde.number (messageValue msg)

/-! ## Reading one field -/

def readU64 : Value → Option Nat
  | .int (.ofNat n) => if n < 18446744073709551616 then some n else none
  | _ => none

def readU32 : Value → Option Nat
  | .int (.ofNat n) => if n < 4294967296 then some n else none
  | _ => none

def readAccount : Value → Option AccountId
  | .int (.ofNat n) => if h : n < 4294967296 then some ⟨n, h⟩ else none
  | _ => none

def readF64 : Value → Option F64
  | .int n => some (F64.ofRat n)
  | .float x => if x.isFinite then some x else none
  | _ => none

def readString : Value → Option String
  | .str text => some text
  | _ => none

def readBool : Value → Option Bool
  | .bool b => some b
  | _ => none

/-- An `Option<String>`: a null is an absent one. -/
def readNonce : Value → Option (Option String)
  | .null => some none
  | .str text => some (some text)
  | _ => none

/-- The name of a variant with no fields: a string, or an object from the name to null. -/
def readVariant : Value → Option String
  | .str name => some name
  | .obj [(name, .null)] => some name
  | _ => none

def readSide (value : Value) : Option Side :=
  (readVariant value).bind fun name =>
    if name = "Buy" then some .buy else if name = "Sell" then some .sell else none

def readOrderType (value : Value) : Option OrderType :=
  (readVariant value).bind fun name =>
    if name = "Limit" then some .limit else if name = "Market" then some .market else none

def readTimeInForce (value : Value) : Option TimeInForce :=
  (readVariant value).bind fun name =>
    if name = "GoodTillCancel" then some .goodTillCancel
    else if name = "ImmediateOrCancel" then some .immediateOrCancel
    else if name = "FillOrKill" then some .fillOrKill
    else none

/-! ## Reading a struct -/

/-- The fields a derived reader is told about. An object may hold others, which are skipped, and
holds none of these twice; an array gives the first of them by position, and holds no more. -/
def known (names : List String) : Value → Option (List (String × Value))
  | .obj fields =>
      let read := fields.filter fun field => field.1 ∈ names
      if (read.map Prod.fst).Nodup then some read else none
  | .arr items => if items.length ≤ names.length then some (names.zip items) else none
  | _ => none

/-- A field that has to be there. -/
def required {α : Type} (read : Value → Option α) (fields : List (String × Value)) (key : String) :
    Option α := (fields.lookup key).bind read

/-- A field with a default. -/
def defaulted {α : Type} (read : Value → Option α) (default : α) (fields : List (String × Value))
    (key : String) : Option α :=
  match fields.lookup key with
  | none => some default
  | some value => read value

def readNew (body : Value) : Option OrderMessage := do
  let fields ← known ["id", "timestamp", "account", "symbol", "side", "price", "quantity", "nonce",
    "order_type", "time_in_force", "post_only"] body
  return .new {
    id := ← required readU64 fields "id"
    timestamp := ← required readU64 fields "timestamp"
    account := ← required readAccount fields "account"
    symbol := ← required readString fields "symbol"
    side := ← required readSide fields "side"
    price := ← required readF64 fields "price"
    quantity := ← required readF64 fields "quantity"
    nonce := ← defaulted readNonce none fields "nonce"
    terms := {
      orderType := ← defaulted readOrderType .limit fields "order_type"
      timeInForce := ← defaulted readTimeInForce .goodTillCancel fields "time_in_force"
      postOnly := ← defaulted readBool false fields "post_only" } }

def readCancel (body : Value) : Option OrderMessage := do
  let fields ← known ["id", "timestamp", "account", "target_id", "nonce"] body
  return .cancel {
    id := ← required readU64 fields "id"
    timestamp := ← required readU64 fields "timestamp"
    account := ← required readAccount fields "account"
    targetId := ← required readU64 fields "target_id"
    nonce := ← defaulted readNonce none fields "nonce" }

def readEngineRule (body : Value) : Option OrderMessage := do
  let fields ← known ["id", "timestamp", "account", "version", "nonce", "public_key", "signature"]
    body
  return .engineRule {
    id := ← required readU64 fields "id"
    timestamp := ← required readU64 fields "timestamp"
    account := ← required readAccount fields "account"
    version := ← required readU32 fields "version"
    nonce := ← defaulted readNonce none fields "nonce"
    publicKey := ← required readString fields "public_key"
    signature := ← required readString fields "signature" }

def readListSymbol (body : Value) : Option OrderMessage := do
  let fields ← known ["id", "timestamp", "account", "symbol", "price_step", "quantity_step",
    "nonce", "public_key", "signature"] body
  return .listSymbol {
    id := ← required readU64 fields "id"
    timestamp := ← required readU64 fields "timestamp"
    account := ← required readAccount fields "account"
    symbol := ← required readString fields "symbol"
    priceStep := ← required readF64 fields "price_step"
    quantityStep := ← required readF64 fields "quantity_step"
    nonce := ← defaulted readNonce none fields "nonce"
    publicKey := ← required readString fields "public_key"
    signature := ← required readString fields "signature" }

def readDelistSymbol (body : Value) : Option OrderMessage := do
  let fields ← known ["id", "timestamp", "account", "symbol", "nonce", "public_key", "signature"]
    body
  return .delistSymbol {
    id := ← required readU64 fields "id"
    timestamp := ← required readU64 fields "timestamp"
    account := ← required readAccount fields "account"
    symbol := ← required readString fields "symbol"
    nonce := ← defaulted readNonce none fields "nonce"
    publicKey := ← required readString fields "public_key"
    signature := ← required readString fields "signature" }

/-- The kinds this build knows, and the reader of each. -/
def readers : List (String × (Value → Option OrderMessage)) :=
  [("New", readNew), ("Cancel", readCancel), ("EngineRule", readEngineRule),
    ("ListSymbol", readListSymbol), ("DelistSymbol", readDelistSymbol)]

/-- An `OrderMessage`: an object with one key, which names a variant. -/
def readMessageValue : Value → Option OrderMessage
  | .obj [(kind, body)] => (readers.lookup kind).bind fun read => read body
  | _ => none

/-- `serde_json::from_str::<OrderMessage>`. -/
def readMessage (serde : Serde) (bytes : Bytes) : Option OrderMessage :=
  (serde.parse bytes).bind readMessageValue

/-! ## Reading the envelope -/

/-- What a program may read out of a message without knowing its kind. -/
structure Envelope where
  kind : String
  id : OrderId
  account : Option AccountId
  nonce : Option String
  deriving DecidableEq

inductive EnvelopeError
  /-- It is not a one-key object carrying an id. -/
  | notAMessage
  /-- It names this many kinds, and a message has exactly one. -/
  | kinds (count : Nat)
  deriving DecidableEq, Repr

mutual

/-- A `serde_json::Value` holds any value with no number past the range of binary64. -/
def inRange : Value → Bool
  | .float x => x.isFinite
  | .arr items => itemsInRange items
  | .obj fields => fieldsInRange fields
  | _ => true

def itemsInRange : List Value → Bool
  | [] => true
  | item :: items => inRange item && itemsInRange items

def fieldsInRange : List (String × Value) → Bool
  | [] => true
  | (_, value) :: fields => inRange value && fieldsInRange fields

end

/-- The account: a value of any kind, and no account where it is not an account's number. -/
def readAnyAccount (value : Value) : Option (Option AccountId) :=
  if inRange value then some (readAccount value) else none

/-- One kind's body, as an `EnvelopeBody`. -/
def readBody (kind : String) (body : Value) : Option Envelope := do
  let fields ← known ["id", "account", "nonce"] body
  return {
    kind := kind
    id := ← required readU64 fields "id"
    account := ← defaulted readAnyAccount none fields "account"
    nonce := ← defaulted readNonce none fields "nonce" }

/-- A `BTreeMap<String, EnvelopeBody>`: every body has to be readable, and a key that comes twice
keeps the later one. -/
def readBodies : List (String × Value) → Option (List Envelope)
  | [] => some []
  | (kind, body) :: rest => do
      let read ← readBody kind body
      let later ← readBodies rest
      return if later.any (fun e => e.kind = kind) then later else read :: later

def envelopeValue : Value → Except EnvelopeError Envelope
  | .obj fields =>
      match readBodies fields with
      | none => .error .notAMessage
      | some [read] => .ok read
      | some reads => .error (.kinds reads.length)
  | _ => .error .notAMessage

def envelope (serde : Serde) (bytes : Bytes) : Except EnvelopeError Envelope :=
  match serde.parse bytes with
  | none => .error .notAMessage
  | some value => envelopeValue value

end Wire
end VerifiableExchange
