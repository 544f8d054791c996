import VerifiableExchange.Inbox.Address
import VerifiableExchange.Lib.MachineInt
import VerifiableExchange.Lib.SortedMap

/-!
# Limit — the read budget

One bucket of tokens per caller, refilled all the time and charged before a read. Times are
nanoseconds of a clock that never goes back.
-/

namespace VerifiableExchange
namespace Feed

open Lib Inbox

def READ_BURST : Nat := 50000

def READ_REFILL_PER_SEC : Nat := 5000

def nsPerSec : Nat := 1000000000

def nsPerMs : Nat := 1000000

/-! ## One bucket -/

/-- One caller's remaining read budget. -/
structure Bucket where
  tokens : Nat
  last : Nat
  deriving DecidableEq

namespace Bucket

/-- The bucket of a caller who was not seen before. -/
def fresh (now : Nat) : Bucket := ⟨READ_BURST, now⟩

/-- `as_millis() as u64` of the time since the clock mark. -/
def elapsedMs (bucket : Bucket) (now : Nat) : Nat := (now - bucket.last) / nsPerMs % 2 ^ 64

def refillAt (bucket : Bucket) (now : Nat) : Nat :=
  min (bucket.elapsedMs now * READ_REFILL_PER_SEC) u64Max / 1000

/-- The refill. The clock mark moves only when a token was added. -/
def topUp (bucket : Bucket) (now : Nat) : Bucket :=
  if 0 < bucket.refillAt now then
    ⟨min (min (bucket.tokens + bucket.refillAt now) u64Max) READ_BURST, now⟩
  else bucket

/-- How many seconds the bucket needs to hold this much. -/
def waitFor (bucket : Bucket) (cost : Nat) : Nat :=
  max ((cost - bucket.tokens + (READ_REFILL_PER_SEC - 1)) / READ_REFILL_PER_SEC) 1

def charge (bucket : Bucket) (cost now : Nat) : Except Nat Unit × Bucket :=
  let bucket := bucket.topUp now
  if cost ≤ bucket.tokens then (.ok (), { bucket with tokens := bucket.tokens - cost })
  else (.error (bucket.waitFor cost), bucket)

def refund (bucket : Bucket) (amount : Nat) : Bucket :=
  { bucket with tokens := min (min (bucket.tokens + amount) u64Max) READ_BURST }

end Bucket

/-! ## The limiter -/

structure ReadLimiter where
  seen : SortedMap IpAddr Bucket

namespace ReadLimiter

def new : ReadLimiter := ⟨.empty⟩

/-- Drops the buckets that are full again, once the map has grown. -/
def prune (limiter : ReadLimiter) (now : Nat) : ReadLimiter :=
  if 10000 < limiter.seen.size then
    let full := (READ_BURST + (READ_REFILL_PER_SEC - 1)) / READ_REFILL_PER_SEC * nsPerSec
    ⟨limiter.seen.filter (fun _ bucket => now - bucket.last < full)⟩
  else limiter

/-- Takes `cost` from this caller's bucket, or says how many seconds to wait. -/
def charge (limiter : ReadLimiter) (ip : IpAddr) (cost now : Nat) :
    Except Nat Unit × ReadLimiter :=
  let pruned := limiter.prune now
  let (answer, bucket) := (pruned.seen.getD ip (.fresh now)).charge cost now
  (answer, ⟨pruned.seen.insert ip bucket⟩)

/-- Gives back what a read reserved and did not use. -/
def refund (limiter : ReadLimiter) (ip : IpAddr) (amount : Nat) : ReadLimiter :=
  if amount = 0 then limiter
  else
    match limiter.seen.get? ip with
    | some bucket => ⟨limiter.seen.insert ip (bucket.refund amount)⟩
    | none => limiter

end ReadLimiter

/-! ## Calls -/

/-- A call, by the handler that reads for this address. -/
inductive LimitCall
  | charge (ip : IpAddr) (cost now : Nat)
  | refund (ip : IpAddr) (amount : Nat)
  deriving DecidableEq

namespace ReadLimiter

def step (limiter : ReadLimiter) : LimitCall → ReadLimiter
  | .charge ip cost now => (limiter.charge ip cost now).2
  | .refund ip amount => limiter.refund ip amount

def run (limiter : ReadLimiter) (calls : List LimitCall) : ReadLimiter := calls.foldl step limiter

/-- What a refund puts back into this caller's bucket, which is never more than its amount. -/
def givenBack (limiter : ReadLimiter) (ip : IpAddr) (amount : Nat) : Nat :=
  match limiter.seen.get? ip with
  | some bucket => (bucket.refund amount).tokens - bucket.tokens
  | none => 0

/-- What one call takes from the caller, less what it gives back. -/
def spentBy (ip : IpAddr) (limiter : ReadLimiter) : LimitCall → Int
  | .charge other cost now =>
      if other = ip ∧ (limiter.charge other cost now).1 = .ok () then cost else 0
  | .refund other amount => if other = ip then -limiter.givenBack ip amount else 0

/-- What the caller spent over some calls, net of refunds. -/
def netSpent (ip : IpAddr) : ReadLimiter → List LimitCall → Int
  | _, [] => 0
  | limiter, call :: rest => limiter.spentBy ip call + netSpent ip (limiter.step call) rest

end ReadLimiter

/-! ## The clock -/

/-- The calls come in the order of a clock that shows at least `clock`. -/
def FromClock : Nat → List LimitCall → Prop
  | _, [] => True
  | clock, .charge _ _ now :: rest => clock ≤ now ∧ FromClock now rest
  | clock, .refund _ _ :: rest => FromClock clock rest

/-- What the clock shows after a call. -/
def LimitCall.clockAfter (clock : Nat) : LimitCall → Nat
  | .charge _ _ now => now
  | .refund _ _ => clock

/-- Every charge of the stretch is in this interval. -/
def Within (start stop : Nat) (stretch : List LimitCall) : Prop :=
  ∀ ip cost now, .charge ip cost now ∈ stretch → start ≤ now ∧ now ≤ stop

/-! ## One caller on their own -/

/-- The bucket of a caller after one call, if no bucket were ever dropped and nobody else called. -/
def keptAfter (ip : IpAddr) (kept : Option Bucket) : LimitCall → Option Bucket
  | .charge other cost now =>
      if other = ip then some ((kept.getD (.fresh now)).charge cost now).2 else kept
  | .refund other amount =>
      if other = ip ∧ amount ≠ 0 then kept.map (fun bucket => bucket.refund amount) else kept

/-- What such a bucket answers to a charge. -/
def keptAnswer (kept : Option Bucket) (cost now : Nat) : Except Nat Unit :=
  ((kept.getD (.fresh now)).charge cost now).1

/-- The tokens credited to a bucket since it was created, and whether it stayed below the burst. -/
structure Credit where
  created : Nat
  credited : Nat
  below : Bool
  deriving DecidableEq

/-- What a call does to the credit of the caller's bucket. A charge that finds no bucket creates
one. -/
def creditAfter (ip : IpAddr) (limiter : ReadLimiter) (credit : Credit) : LimitCall → Credit
  | .charge other cost now =>
      if other = ip then
        match (limiter.prune now).seen.get? ip with
        | none => ⟨now, 0, 0 < cost⟩
        | some bucket =>
            let filled := bucket.topUp now
            { credit with credited := credit.credited + (filled.tokens - bucket.tokens),
                          below := credit.below && filled.tokens < READ_BURST }
      else credit
  | .refund other amount =>
      if other = ip ∧ amount ≠ 0 then
        { credit with below := credit.below && (limiter.seen.get? ip).all (fun bucket =>
            (bucket.refund amount).tokens < READ_BURST) }
      else credit

/-- The credit after some calls. -/
def creditOf (ip : IpAddr) : ReadLimiter → Credit → List LimitCall → Credit
  | _, credit, [] => credit
  | limiter, credit, call :: rest =>
      creditOf ip (limiter.step call) (creditAfter ip limiter credit call) rest

end Feed
end VerifiableExchange
