import Mathlib.Order.Basic
import VerifiableExchange.Lib.Numeral
import VerifiableExchange.Lib.PrefixMask

/-!
# Address — the addresses callers are told apart by

An IPv4 or an IPv6 address, how a text is read as one, and how one is written. The readers follow
the standard library: each takes what it reads off the front of a text and gives back the rest.
-/

namespace VerifiableExchange
namespace Inbox

open Lib

inductive IpAddr
  | v4 (addr : BitVec 32)
  | v6 (addr : BitVec 128)
  deriving DecidableEq

namespace IpAddr

/-- IPv4 addresses before IPv6 addresses, and each family by its number. -/
def rank : IpAddr → Nat
  | v4 addr => addr.toNat
  | v6 addr => 2 ^ 32 + addr.toNat

theorem rank_injective : Function.Injective rank := by
  intro a b h
  have ofRank : ∀ (x : BitVec 32) (y : BitVec 128), x.toNat ≠ 2 ^ 32 + y.toNat :=
    fun x y hxy => by have := x.isLt; omega
  cases a with
  | v4 x =>
      cases b with
      | v4 y => exact congrArg v4 (BitVec.eq_of_toNat_eq h)
      | v6 y => exact absurd h (ofRank x y)
  | v6 x =>
      cases b with
      | v4 y => exact absurd h.symm (ofRank y x)
      | v6 y => exact congrArg v6 (BitVec.eq_of_toNat_eq (Nat.add_left_cancel h))

instance : LinearOrder IpAddr := LinearOrder.lift' rank rank_injective

/-- How many bits an address of this family has. -/
def bits : IpAddr → Nat
  | v4 _ => 32
  | v6 _ => 128

def family : IpAddr → String
  | v4 _ => "IPv4"
  | v6 _ => "IPv6"

/-- The two addresses are of one family and have the same highest `p` bits. -/
def SameTop (p : Nat) : IpAddr → IpAddr → Prop
  | v4 a, v4 b => Lib.SameTop p a b
  | v6 a, v6 b => Lib.SameTop p a b
  | _, _ => False

instance (p : Nat) : ∀ a b : IpAddr, Decidable (SameTop p a b)
  | v4 a, v4 b => inferInstanceAs (Decidable (Lib.SameTop p a b))
  | v6 a, v6 b => inferInstanceAs (Decidable (Lib.SameTop p a b))
  | v4 _, v6 _ => inferInstanceAs (Decidable False)
  | v6 _, v4 _ => inferInstanceAs (Decidable False)

end IpAddr

/-! ## Reading a text -/

def readGivenChar (target : Char) : List Char → Option (List Char)
  | [] => none
  | c :: rest => if c = target then some rest else none

/-- Reads what `inner` reads, after a separator unless it is the first. -/
def readSeparator {T : Type} (sep : Char) (index : Nat) (inner : List Char → Option (T × List Char))
    (text : List Char) : Option (T × List Char) :=
  if 0 < index then (readGivenChar sep text).bind inner else inner text

/-- Reads a number up to the first character that is not a digit. -/
def readNumber (radix maxDigits bound : Nat) (allowZeroPrefix : Bool) (text : List Char) :
    Option (Nat × List Char) :=
  let isDigit := fun c => (digitOf radix c).isSome
  let digits := (text.takeWhile isDigit).filterMap (digitOf radix)
  let value := numberOf radix digits
  if digits.length = 0 ∨ maxDigits < digits.length then none
  else if allowZeroPrefix = false ∧ text.head? = some '0' ∧ 1 < digits.length then none
  else if value ≤ bound then some (value, text.dropWhile isDigit)
  else none

def readOctet (index : Nat) : List Char → Option (Nat × List Char) :=
  readSeparator '.' index (readNumber 10 3 255 false)

def readIpv4Addr (text : List Char) : Option (BitVec 32 × List Char) := do
  let (one, text) ← readOctet 0 text
  let (two, text) ← readOctet 1 text
  let (three, text) ← readOctet 2 text
  let (four, text) ← readOctet 3 text
  return (BitVec.ofNat 32 (numberOf 256 [one, two, three, four]), text)

/-- Reads groups of an IPv6 address, `left` more at most of `limit`, and says whether an IPv4
address stood for the last two of them. -/
def readGroups (limit : Nat) : Nat → List Char → List Nat × Bool × List Char
  | 0, text => ([], false, text)
  | left + 1, text =>
      let index := limit - (left + 1)
      let ipv4 := if index < limit - 1 then readSeparator ':' index readIpv4Addr text else none
      match ipv4 with
      | some (addr, text) => ([addr.toNat / 65536, addr.toNat % 65536], true, text)
      | none =>
          match readSeparator ':' index (readNumber 16 4 65535 true) text with
          | some (group, text) =>
              let (groups, ipv4, text) := readGroups limit left text
              (group :: groups, ipv4, text)
          | none => ([], false, text)

def readIpv6Addr (text : List Char) : Option (BitVec 128 × List Char) :=
  let (head, headIpv4, text) := readGroups 8 8 text
  if head.length = 8 then some (BitVec.ofNat 128 (numberOf 65536 head), text)
  else if headIpv4 then none
  else do
    -- The `::` stands for at least one group of zeroes.
    let text ← readGivenChar ':' text
    let text ← readGivenChar ':' text
    let limit := 8 - (head.length + 1)
    let (tail, _, text) := readGroups limit limit text
    let zeroes := List.replicate (8 - head.length - tail.length) 0
    return (BitVec.ofNat 128 (numberOf 65536 (head ++ zeroes ++ tail)), text)

/-- The whole text is what `inner` reads. -/
def parseWith {T : Type} (inner : List Char → Option (T × List Char)) (text : List Char) :
    Option T :=
  match inner text with
  | some (value, []) => some value
  | _ => none

def parseIpv4Addr : List Char → Option (BitVec 32) := parseWith readIpv4Addr

def parseIpv6Addr : List Char → Option (BitVec 128) := parseWith readIpv6Addr

def parseIpAddr : List Char → Option IpAddr :=
  parseWith (fun text =>
    match readIpv4Addr text with
    | some (addr, text) => some (.v4 addr, text)
    | none => (readIpv6Addr text).map (fun (addr, text) => (.v6 addr, text)))

example : parseIpAddr "172.17.0.3".toList = some (.v4 0xac110003) := by decide +kernel

example : parseIpAddr "1::ffff:10.0.0.1".toList =
    some (.v6 0x0001_0000_0000_0000_0000_ffff_0a00_0001) := by decide +kernel

/-! ## Writing an address -/

def writeIpv4Addr (addr : BitVec 32) : String :=
  ".".intercalate ([24, 16, 8, 0].map (fun shift => toString ((addr >>> shift).toNat % 256)))

/-- The IPv4 address this IPv6 address stands for, when it is of the form `::ffff:a.b.c.d`. -/
def toIpv4Mapped (addr : BitVec 128) : Option (BitVec 32) :=
  if addr >>> 32 = 0xffff then some (addr.setWidth 32) else none

def segmentsOf (addr : BitVec 128) : List Nat :=
  [112, 96, 80, 64, 48, 32, 16, 0].map (fun shift => (addr >>> shift).toNat % 65536)

/-- The first of the longest runs of zeroes, as where it starts and how long it is. -/
def longestZeroes (segments : List Nat) : Nat × Nat :=
  let step := fun (state : (Nat × Nat) × (Nat × Nat)) (entry : Nat × Nat) =>
    let (longest, current) := state
    let (segment, index) := entry
    if segment = 0 then
      let current := (if current.2 = 0 then index else current.1, current.2 + 1)
      (if longest.2 < current.2 then current else longest, current)
    else (longest, (0, 0))
  (segments.zipIdx.foldl step ((0, 0), (0, 0))).1

def writeSegments (segments : List Nat) : String :=
  ":".intercalate (segments.map (fun segment => String.ofList (Nat.toDigits 16 segment)))

def writeIpv6Addr (addr : BitVec 128) : String :=
  match toIpv4Mapped addr with
  | some mapped => "::ffff:" ++ writeIpv4Addr mapped
  | none =>
      let segments := segmentsOf addr
      let (start, length) := longestZeroes segments
      if 1 < length then
        writeSegments (segments.take start) ++ "::" ++
          writeSegments (segments.drop (start + length))
      else writeSegments segments

instance : ToString IpAddr where
  toString
    | .v4 addr => writeIpv4Addr addr
    | .v6 addr => writeIpv6Addr addr

/-! ## One spelling -/

/-- The one spelling every address is compared in. -/
def canonicalIp : IpAddr → IpAddr
  | .v6 addr =>
      match toIpv4Mapped addr with
      | some mapped => .v4 mapped
      | none => .v6 addr
  | .v4 addr => .v4 addr

/-- An address that is its own one spelling. -/
theorem canonicalIp_canonicalIp (ip : IpAddr) : canonicalIp (canonicalIp ip) = canonicalIp ip := by
  cases ip with
  | v4 addr => rfl
  | v6 addr =>
      cases hmapped : toIpv4Mapped addr with
      | some mapped => simp only [canonicalIp, hmapped]
      | none => simp only [canonicalIp, hmapped]

/-! ## Masks -/

/-- Clears every bit below the prefix. The zero case is written out, as in the source, where a shift
by the whole width is not defined. -/
def maskBits {w : Nat} (addr : BitVec w) (bits : Nat) : BitVec w :=
  if bits = 0 then 0 else addr &&& (BitVec.allOnes w <<< (w - bits))

def maskV4 (ip : BitVec 32) (bits : Nat) : BitVec 32 := maskBits ip bits

def maskV6 (ip : BitVec 128) (bits : Nat) : BitVec 128 := maskBits ip bits

theorem maskBits_eq {w : Nat} (addr : BitVec w) (bits : Nat) :
    maskBits addr bits = keepTop bits addr := by
  unfold maskBits
  split_ifs with h
  · rw [h]
    exact keepTop_zero.symm
  · rfl

end Inbox
end VerifiableExchange
