import VerifiableExchange.Domain

/-!
# Operator — what the owner of the exchange signs

The bytes a signature over an operator message covers, and the check of such a message against a
key. Ed25519, SHA-256 and the JSON writer are outside the repository and come as `Primitives`.
-/

namespace VerifiableExchange

open Lib

abbrev Bytes := List UInt8

/-- The third-party functions the exchange calls. -/
structure Primitives where
  sha256 : Bytes → Bytes
  /-- `VerifyingKey::from_bytes` accepts these bytes: they are a point on the curve. -/
  isVerifyingKey : Bytes → Bool
  /-- `verify_strict` of a key over a statement and a signature. -/
  verifyStrict : Bytes → String → Bytes → Bool
  /-- `serde_json::to_vec` of a message. -/
  canonicalBytes : OrderMessage → Bytes

namespace Operator

/-! ## Hex text -/

def isWhitespace (c : Char) : Bool :=
  let n := c.toNat
  (9 ≤ n && n ≤ 13) || n = 32 || n = 133 || n = 160 || n = 5760 ||
    (8192 ≤ n && n ≤ 8202) || n = 8232 || n = 8233 || n = 8239 || n = 8287 || n = 12288

def trim (text : String) : List Char :=
  ((text.toList.dropWhile isWhitespace).reverse.dropWhile isWhitespace).reverse

def hexDigit (c : Char) : Option Nat :=
  if '0' ≤ c ∧ c ≤ '9' then some (c.toNat - '0'.toNat)
  else if 'a' ≤ c ∧ c ≤ 'f' then some (c.toNat - 'a'.toNat + 10)
  else if 'A' ≤ c ∧ c ≤ 'F' then some (c.toNat - 'A'.toNat + 10)
  else none

/-- `u8::from_str_radix` of two characters; a leading plus sign is allowed and counts for nothing. -/
def hexByte (high low : Char) : Option UInt8 :=
  if high = '+' then (hexDigit low).map UInt8.ofNat
  else
    match hexDigit high, hexDigit low with
    | some h, some l => some (UInt8.ofNat (16 * h + l))
    | _, _ => none

def hexBytes : List Char → Option Bytes
  | [] => some []
  | [_] => none
  | high :: low :: rest =>
      match hexByte high low, hexBytes rest with
      | some b, some bs => some (b :: bs)
      | _, _ => none

/-- Reads exactly `n` bytes of hex. -/
def fromHex (n : Nat) (hex : List Char) : Option Bytes :=
  if hex.length = 2 * n ∧ hex.all (fun c => c.toNat < 128) then hexBytes hex else none

theorem length_hexBytes : ∀ {hex : List Char} {bytes : Bytes}, hexBytes hex = some bytes →
    hex.length = 2 * bytes.length
  | [], bytes, h => by
      cases h
      rfl
  | [_], bytes, h => nomatch h
  | high :: low :: rest, bytes, h => by
      unfold hexBytes at h
      split at h
      case h_2 => cases h
      case h_1 b bs _ hrest =>
        cases h
        simp only [List.length_cons, length_hexBytes hrest]
        omega

theorem length_fromHex {n : Nat} {hex : List Char} {bytes : Bytes}
    (h : fromHex n hex = some bytes) : bytes.length = n := by
  unfold fromHex at h
  split_ifs at h with hlength
  have hbytes := length_hexBytes h
  omega

def hexChar (n : Nat) : Char :=
  if n < 10 then Char.ofNat ('0'.toNat + n) else Char.ofNat ('a'.toNat + (n - 10))

def toHex (bytes : Bytes) : List Char :=
  bytes.flatMap (fun b => [hexChar (b.toNat / 16), hexChar (b.toNat % 16)])

/-- The 16 bytes of a nonce written in its one canonical spelling. -/
def canonicalNonce (nonce : String) : Option Bytes :=
  match fromHex 16 nonce.toList with
  | some bytes => if toHex bytes = nonce.toList then some bytes else none
  | none => none

/-! ## Statements -/

def maxSymbolLength : Nat := 32

def symbolChar (c : Char) : Bool :=
  ('A' ≤ c && c ≤ 'Z') || ('0' ≤ c && c ≤ '9') || c = '-'

/-- Length of a text in UTF-8 bytes. -/
def byteLength (text : String) : Nat := (text.toList.map Char.utf8Size).sum

/-- A symbol that can be listed: 1 to 32 bytes, each one `A`-`Z`, `0`-`9` or `-`. -/
def validSymbol (symbol : String) : Bool :=
  !symbol.toList.isEmpty && byteLength symbol ≤ maxSymbolLength && symbol.toList.all symbolChar

inductive OperatorKind
  | list
  | delist
  | rule
  deriving DecidableEq

/-- The first line of the statement. -/
def OperatorKind.firstLine : OperatorKind → String
  | .list => "exchange-operator-list-v1"
  | .delist => "exchange-operator-delist-v1"
  | .rule => "exchange-operator-rule-v1"

def operatorStatement (kind : OperatorKind) (session : String) (fields : List String) : String :=
  "\n".intercalate (kind.firstLine :: session :: fields)

/-- The kind and the field lines an operator message's statement is built from. -/
def kindAndFields (message : OrderMessage) : Option (OperatorKind × List String) :=
  match message.nonce.bind canonicalNonce with
  | none => none
  | some nonceBytes =>
      let nonce := String.ofList (toHex nonceBytes)
      match message with
      | .listSymbol m =>
          if validSymbol m.symbol then
            match toGrid m.priceStep 100, toGrid m.quantityStep 10 with
            | some priceStepCents, some quantityStepTenths =>
                some (.list, [m.symbol, toString priceStepCents, toString quantityStepTenths, nonce])
            | _, _ => none
          else none
      | .delistSymbol m => if validSymbol m.symbol then some (.delist, [m.symbol, nonce]) else none
      | .engineRule m => some (.rule, [toString m.version, nonce])
      | .new _ => none
      | .cancel _ => none

/-- Whether `key` signed this operator message for this session, and the message names `key`. -/
def verify (env : Primitives) (message : OrderMessage) (session : String) (key : Bytes) : Bool :=
  match message.fieldsOf with
  | none => false
  | some (publicKey, signature) =>
      match fromHex 32 (trim publicKey) with
      | none => false
      | some named =>
          if named ≠ key then false
          else
            match fromHex 64 (trim signature), kindAndFields message with
            | some signatureBytes, some (kind, fields) =>
                env.verifyStrict key (operatorStatement kind session fields) signatureBytes
            | _, _ => false

/-- A listing that is signed names a symbol and steps the engine can hold. -/
theorem verify_listSymbol {env : Primitives} {m : ListSymbolMessage} {session : String}
    {key : Bytes} (h : verify env (.listSymbol m) session key = true) :
    validSymbol m.symbol = true ∧ ∃ priceStepCents quantityStepTenths,
      toGrid m.priceStep 100 = some priceStepCents ∧
        toGrid m.quantityStep 10 = some quantityStepTenths := by
  have hstatement : (kindAndFields (.listSymbol m)).isSome = true := by
    simp only [verify, OrderMessage.fieldsOf] at h
    split at h
    · cases h
    · split_ifs at h
      split at h
      · simp only [*, Option.isSome_some]
      · cases h
  unfold kindAndFields at hstatement
  split at hstatement
  · cases hstatement
  · dsimp only at hstatement
    split_ifs at hstatement with hname
    · split at hstatement
      · rename_i price quantity hprice hquantity
        exact ⟨hname, price, quantity, hprice, hquantity⟩
      · cases hstatement
    · cases hstatement

/-- The key an operator message names, whoever signed it. -/
def namedKey (env : Primitives) (message : OrderMessage) : Option Bytes :=
  match message.fieldsOf with
  | none => none
  | some (publicKey, _) =>
      match fromHex 32 (trim publicKey) with
      | some bytes => if env.isVerifyingKey bytes then some bytes else none
      | none => none

/-- A key a message names is 32 bytes. -/
theorem length_namedKey {env : Primitives} {message : OrderMessage} {key : Bytes}
    (h : namedKey env message = some key) : key.length = 32 := by
  unfold namedKey at h
  split at h
  case h_1 => cases h
  case h_2 =>
    split at h
    case h_2 => cases h
    case h_1 hbytes =>
      split_ifs at h
      cases h
      exact length_fromHex hbytes

end Operator

end VerifiableExchange
