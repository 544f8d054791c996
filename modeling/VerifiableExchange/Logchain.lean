import VerifiableExchange.Merkle.Source
import VerifiableExchange.Lib.Encoding

/-!
# Logchain — what the sequencer signs about its log

Every message extends a running hash, and the sequencer signs where the chain and the tree over the
same messages stand. Ed25519 comes as the public key and the function from statements to signatures.
-/

namespace VerifiableExchange
namespace Logchain

open Lib Merkle

/-- One link value of the chain. -/
abbrev Chain := Hash

/-- The chain before any message. -/
def EMPTY_CHAIN : Chain := Vector.replicate 32 0

/-- Extends the chain by the bytes of one message. -/
def extendBytes (sha256 : Bytes → Hash) (chain : Chain) (messageBytes : Bytes) : Chain :=
  sha256 (chain.toList ++ messageBytes)

structure SigningKey where
  verifyingKey : Bytes
  sign : Bytes → Bytes

/-! ## Hex text -/

def toHex (bytes : Bytes) : String := String.ofList (Operator.toHex bytes)

/-- Reads the 32 bytes of a hash. -/
def readHash (hex : String) : Option Hash :=
  match Operator.fromHex 32 hex.toList with
  | none => none
  | some bytes => if h : bytes.length = 32 then some ⟨bytes.toArray, hash_size h⟩ else none

theorem hexByte_hexChar (b : UInt8) :
    Operator.hexByte (Operator.hexChar (b.toNat / 16)) (Operator.hexChar (b.toNat % 16)) = some b ∧
      (Operator.hexChar (b.toNat / 16)).toNat < 128 ∧
      (Operator.hexChar (b.toNat % 16)).toNat < 128 := by
  have hall : ∀ n < 256, Operator.hexByte (Operator.hexChar (n / 16)) (Operator.hexChar (n % 16)) =
      some (UInt8.ofNat n) ∧ (Operator.hexChar (n / 16)).toNat < 128 ∧
        (Operator.hexChar (n % 16)).toNat < 128 := by
    decide +kernel
  have hbyte := hall b.toNat b.toNat_lt
  rwa [UInt8.ofNat_toNat] at hbyte

theorem hexBytes_toHex (bytes : Bytes) : Operator.hexBytes (Operator.toHex bytes) = some bytes := by
  induction bytes with
  | nil => rfl
  | cons b rest ih =>
      rw [Operator.toHex] at ih
      rw [Operator.toHex, List.flatMap_cons, List.cons_append, List.cons_append, List.nil_append,
        Operator.hexBytes, (hexByte_hexChar b).1, ih]

theorem fromHex_toHex (bytes : Bytes) :
    Operator.fromHex bytes.length (Operator.toHex bytes) = some bytes := by
  have hascii : (Operator.toHex bytes).all (fun c => c.toNat < 128) = true := by
    rw [List.all_eq_true]
    intro c hc
    obtain ⟨b, -, hb⟩ := List.mem_flatMap.1 hc
    obtain ⟨-, hhigh, hlow⟩ := hexByte_hexChar b
    rcases List.mem_pair.1 hb with rfl | rfl
    · exact decide_eq_true hhigh
    · exact decide_eq_true hlow
  have hbytes := hexBytes_toHex bytes
  rw [Operator.fromHex, if_pos ⟨Operator.length_hexBytes hbytes, hascii⟩, hbytes]

/-- A printed hash is read back. -/
theorem readHash_toHex (hash : Hash) : readHash (toHex hash.toList) = some hash := by
  have hbytes := fromHex_toHex hash.toList
  rw [Vector.length_toList] at hbytes
  rw [readHash, toHex, String.toList_ofList, hbytes]
  simp [Vector.toArray_toList]

/-! ## Signed statements -/

/-- A statement's lines; the first one says what kind it is. -/
def statement (lines : List String) : Bytes := utf8 ("\n".intercalate lines)

def headStatement (session : String) (lastId : OrderId) (chain : Chain) : Bytes :=
  statement ["exchange-feed-head-v1", session, toString lastId, toHex chain.toList]

def checkpointStatement (session : String) (lastId : OrderId) (chain : Chain) (root : Hash) :
    Bytes :=
  statement ["exchange-feed-checkpoint-v1", session, toString lastId, toHex chain.toList,
    toHex root.toList]

def treeHeadStatement (session : String) (timestampMs : UInt64) (treeSize : Nat) (rootHash : Hash) :
    Bytes :=
  statement ["exchange-feed-sth-v1", session, toString timestampMs, toString treeSize,
    toHex rootHash.toList]

def signHead (key : SigningKey) (session : String) (lastId : OrderId) (chain : Chain) : Bytes :=
  key.sign (headStatement session lastId chain)

def signCheckpoint (key : SigningKey) (session : String) (lastId : OrderId) (chain : Chain)
    (root : Hash) : Bytes :=
  key.sign (checkpointStatement session lastId chain root)

def signTreeHead (key : SigningKey) (session : String) (timestampMs : UInt64) (treeSize : Nat)
    (rootHash : Hash) : Bytes :=
  key.sign (treeHeadStatement session timestampMs treeSize rootHash)

end Logchain
end VerifiableExchange
