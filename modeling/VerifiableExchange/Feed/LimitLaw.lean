import VerifiableExchange.Feed.Limit

/-!
# LimitLaw — what a caller can spend

A bucket is compared with an ideal one that fills by the nanosecond. The two hold the same whenever
no time is dropped at a refill, and then what a caller spends over a stretch is what the ideal
bucket held at its start and took in during it.
-/

namespace VerifiableExchange
namespace Feed

open Lib Inbox

/-- How long a token takes to come back. -/
def nsPerToken : Nat := nsPerSec / READ_REFILL_PER_SEC

def tokensPerMs : Nat := READ_REFILL_PER_SEC / 1000

namespace Bucket

/-- A charge at this time drops no part of a millisecond: it comes a whole number of milliseconds
after the clock mark, or the refill fills the bucket, or there is no refill and the time passed does
not fill it. -/
def OnTheMark (bucket : Bucket) (now : Nat) : Prop :=
  let gap := now - bucket.last
  gap / nsPerMs < 2 ^ 64 ∧
    (gap % nsPerMs = 0 ∨
      (nsPerMs ≤ gap ∧ READ_BURST ≤ bucket.tokens + tokensPerMs * (gap / nsPerMs)) ∨
      (gap < nsPerMs ∧ bucket.tokens * nsPerToken + gap ≤ READ_BURST * nsPerToken))

/-! ## The refill -/

theorem topUp_eq {bucket : Bucket} {now : Nat} (hfits : (now - bucket.last) / nsPerMs < 2 ^ 64)
    (htokens : bucket.tokens ≤ READ_BURST) :
    bucket.topUp now =
      if nsPerMs ≤ now - bucket.last then
        ⟨min (bucket.tokens + tokensPerMs * ((now - bucket.last) / nsPerMs)) READ_BURST, now⟩
      else bucket := by
  have hrefill : bucket.refillAt now =
      min ((now - bucket.last) / nsPerMs * READ_REFILL_PER_SEC) u64Max / 1000 := by
    unfold refillAt elapsedMs
    rw [Nat.mod_eq_of_lt hfits]
  unfold topUp
  rw [hrefill]
  split_ifs with hsome hgap hgap
  · refine congrArg (fun tokens => (⟨tokens, now⟩ : Bucket)) ?_
    simp only [nsPerMs, READ_REFILL_PER_SEC, READ_BURST, u64Max, tokensPerMs] at *
    omega
  · simp only [nsPerMs, READ_REFILL_PER_SEC, u64Max] at *
    omega
  · simp only [nsPerMs, READ_REFILL_PER_SEC, u64Max] at *
    omega
  · rfl

theorem topUp_last_le {bucket : Bucket} {now : Nat} (hlast : bucket.last ≤ now) :
    (bucket.topUp now).last ≤ now := by
  unfold topUp
  split_ifs
  · exact Nat.le_refl _
  · exact hlast

theorem topUp_tokens_le {bucket : Bucket} {now : Nat} (htokens : bucket.tokens ≤ READ_BURST) :
    (bucket.topUp now).tokens ≤ READ_BURST := by
  unfold topUp
  split_ifs
  · exact Nat.min_le_right _ _
  · exact htokens

/-- A bucket that was left alone for long enough is full, as a fresh one is. -/
theorem topUp_of_full {bucket : Bucket} {now : Nat} (hfits : (now - bucket.last) / nsPerMs < 2 ^ 64)
    (htokens : bucket.tokens ≤ READ_BURST) (hfull : bucket.last + 10 * nsPerSec ≤ now) :
    bucket.topUp now = fresh now := by
  have hgap : nsPerMs ≤ now - bucket.last := by
    simp only [nsPerSec, nsPerMs] at *
    omega
  rw [topUp_eq hfits htokens, if_pos hgap]
  refine congrArg (fun tokens => (⟨tokens, now⟩ : Bucket)) ?_
  simp only [nsPerSec, nsPerMs, tokensPerMs, READ_REFILL_PER_SEC, READ_BURST] at *
  omega

theorem topUp_fresh (now : Nat) : (fresh now).topUp now = fresh now := by
  have hgap : now - (fresh now).last = 0 := Nat.sub_self now
  rw [topUp_eq (by rw [hgap]; decide) (Nat.le_refl _), hgap]
  rfl

/-! ## A charge and a refund -/

theorem charge_ok_iff (bucket : Bucket) (cost now : Nat) :
    (bucket.charge cost now).1 = .ok () ↔ cost ≤ (bucket.topUp now).tokens := by
  unfold charge
  dsimp only
  split_ifs with h
  · exact iff_of_true rfl h
  · exact iff_of_false (by simp) h

theorem charge_bucket (bucket : Bucket) (cost now : Nat) :
    (bucket.charge cost now).2 =
      if cost ≤ (bucket.topUp now).tokens then
        ⟨(bucket.topUp now).tokens - cost, (bucket.topUp now).last⟩
      else bucket.topUp now := by
  unfold charge
  dsimp only
  split_ifs with h
  · rfl
  · rfl

theorem charge_congr {bucket other : Bucket} {now : Nat} (h : bucket.topUp now = other.topUp now)
    (cost : Nat) : bucket.charge cost now = other.charge cost now := by
  unfold charge
  rw [h]

/-- A refusal only refills the bucket. -/
theorem charge_of_refused {bucket : Bucket} {cost now wait : Nat}
    (h : (bucket.charge cost now).1 = .error wait) :
    (bucket.charge cost now).2 = bucket.topUp now ∧ wait = (bucket.topUp now).waitFor cost := by
  unfold charge at *
  dsimp only at *
  split_ifs at h with hcost
  rw [if_neg hcost]
  exact ⟨rfl, (Except.error.inj h).symm⟩

/-- And so does a charge of nothing. -/
theorem charge_zero (bucket : Bucket) (now : Nat) :
    (bucket.charge 0 now).2 = bucket.topUp now := by
  rw [charge_bucket, if_pos (Nat.zero_le _)]
  rfl

theorem charge_last (bucket : Bucket) (cost now : Nat) :
    (bucket.charge cost now).2.last = (bucket.topUp now).last := by
  rw [charge_bucket]
  split_ifs
  · rfl
  · rfl

theorem charge_tokens_le (bucket : Bucket) (cost now : Nat) :
    (bucket.charge cost now).2.tokens ≤ (bucket.topUp now).tokens := by
  rw [charge_bucket]
  split_ifs
  · exact Nat.sub_le _ _
  · exact Nat.le_refl _

/-- A refund raises a bucket by no more than its amount, up to the burst. -/
theorem refund_tokens (bucket : Bucket) (amount : Nat) :
    (bucket.refund amount).tokens = min (bucket.tokens + amount) READ_BURST := by
  simp only [refund, READ_BURST, u64Max]
  omega

/-! ## The ideal bucket -/

/-- What an ideal bucket would hold, in the time its tokens take to come back. Without a bucket it
is full. -/
def level (bucket : Option Bucket) (now : Nat) : Nat :=
  match bucket with
  | some bucket =>
      min (bucket.tokens * nsPerToken + (now - bucket.last)) (READ_BURST * nsPerToken)
  | none => READ_BURST * nsPerToken

theorem level_le (bucket : Option Bucket) (now : Nat) :
    level bucket now ≤ READ_BURST * nsPerToken := by
  cases bucket with
  | none => exact Nat.le_refl _
  | some bucket => exact Nat.min_le_right _ _

/-- The ideal bucket takes in no more than the time that passes. -/
theorem level_mono (bucket : Option Bucket) {now later : Nat} (h : now ≤ later) :
    level bucket later ≤ level bucket now + (later - now) := by
  cases bucket with
  | none => exact Nat.le_add_right _ _
  | some bucket =>
      simp only [level]
      omega

/-- A charge that drops no time takes its cost from the ideal bucket when it is accepted, and
nothing when it is not. -/
theorem level_charge {bucket : Bucket} {now : Nat} (htokens : bucket.tokens ≤ READ_BURST)
    (hlast : bucket.last ≤ now) (hmark : bucket.OnTheMark now) (cost : Nat) :
    level (some (bucket.charge cost now).2) now +
        (if (bucket.charge cost now).1 = .ok () then cost * nsPerToken else 0) =
      level (some bucket) now := by
  obtain ⟨hfits, hexact⟩ := hmark
  have htop : level (some (bucket.topUp now)) now = level (some bucket) now ∧
      (bucket.topUp now).tokens * nsPerToken + (now - (bucket.topUp now).last) ≤
        READ_BURST * nsPerToken := by
    rw [topUp_eq hfits htokens]
    split_ifs with hgap
    · simp only [level, nsPerMs, nsPerToken, tokensPerMs, nsPerSec, READ_REFILL_PER_SEC,
        READ_BURST] at *
      omega
    · refine ⟨rfl, ?_⟩
      simp only [nsPerMs, nsPerToken, nsPerSec, READ_REFILL_PER_SEC, READ_BURST] at *
      omega
  rw [← htop.1, charge_bucket]
  have hfull := htop.2
  simp only [charge_ok_iff]
  split_ifs with hcost
  · -- What is taken was there, so the ideal bucket goes down by all of it.
    simp only [level, nsPerToken, nsPerSec, READ_REFILL_PER_SEC, READ_BURST] at *
    omega
  · exact Nat.add_zero _

theorem onTheMark_fresh (now : Nat) : (fresh now).OnTheMark now := by
  have hgap : now - (fresh now).last = 0 := Nat.sub_self now
  unfold OnTheMark
  rw [hgap]
  exact ⟨by decide, .inl rfl⟩

theorem level_fresh (now : Nat) : level (some (fresh now)) now = level none now :=
  Nat.min_eq_right (Nat.le_add_right _ _)

/-- A refund adds to the ideal bucket no more than it puts back. -/
theorem level_refund (bucket : Bucket) (amount now : Nat) :
    level (some (bucket.refund amount)) now ≤
      level (some bucket) now +
        ((bucket.refund amount).tokens - bucket.tokens) * nsPerToken := by
  have hrefund := refund_tokens bucket amount
  have hlast : (bucket.refund amount).last = bucket.last := rfl
  simp only [level, hrefund, hlast, nsPerToken, nsPerSec, READ_REFILL_PER_SEC, READ_BURST] at *
  omega

end Bucket

/-! ## A run -/

/-- The call is no charge of this caller that drops time from their bucket. -/
def DropsNoTime (ip : IpAddr) (kept : Option Bucket) (call : LimitCall) : Prop :=
  ∀ cost now bucket, call = .charge ip cost now → kept = some bucket → bucket.OnTheMark now

instance (bucket : Bucket) (now : Nat) : Decidable (bucket.OnTheMark now) :=
  inferInstanceAs (Decidable (_ ∧ _))

instance (ip : IpAddr) : ∀ kept call, Decidable (DropsNoTime ip kept call)
  | _, .refund _ _ => isTrue (fun _ _ _ hcall => nomatch hcall)
  | none, .charge _ _ _ => isTrue (fun _ _ _ _ hkept => nomatch hkept)
  | some bucket, .charge other _ now =>
      decidable_of_iff (other = ip → bucket.OnTheMark now) (by
        constructor
        · rintro h cost' now' bucket' ⟨⟩ ⟨⟩
          exact h rfl
        · rintro h rfl
          exact h _ now bucket rfl rfl)

/-- Every charge of this caller that finds a bucket, were none ever dropped, drops no time. -/
def KeepsTime (ip : IpAddr) : Option Bucket → List LimitCall → Prop
  | _, [] => True
  | kept, call :: rest =>
      DropsNoTime ip kept call ∧ KeepsTime ip (keptAfter ip kept call) rest

instance (ip : IpAddr) : ∀ calls kept, Decidable (KeepsTime ip kept calls)
  | [], _ => isTrue trivial
  | call :: rest, kept =>
      have := instDecidableKeepsTime ip rest (keptAfter ip kept call)
      inferInstanceAs (Decidable (_ ∧ _))

def keptOf (ip : IpAddr) (kept : Option Bucket) (calls : List LimitCall) : Option Bucket :=
  calls.foldl (keptAfter ip) kept

def clockOf (clock : Nat) (calls : List LimitCall) : Nat := calls.foldl LimitCall.clockAfter clock

theorem fromClock_cons {clock : Nat} {call : LimitCall} {rest : List LimitCall} :
    FromClock clock (call :: rest) ↔
      FromClock clock [call] ∧ FromClock (call.clockAfter clock) rest := by
  cases call with
  | charge ip cost now => simp only [FromClock, LimitCall.clockAfter, and_true]
  | refund ip amount => simp only [FromClock, LimitCall.clockAfter, true_and]

theorem clock_le_clockAfter {clock : Nat} {call : LimitCall} (h : FromClock clock [call]) :
    clock ≤ call.clockAfter clock := by
  cases call with
  | charge ip cost now => exact h.1
  | refund ip amount => exact Nat.le_refl _

theorem clock_le_clockOf {clock : Nat} {calls : List LimitCall} (h : FromClock clock calls) :
    clock ≤ clockOf clock calls := by
  induction calls generalizing clock with
  | nil => exact Nat.le_refl _
  | cons call rest ih =>
      obtain ⟨hcall, hrest⟩ := fromClock_cons.1 h
      exact (clock_le_clockAfter hcall).trans (ih hrest)

/-- How the limiter stands to the caller's bucket that was never dropped: it holds that bucket, or
none where that one is full by now. -/
structure Tracks (ip : IpAddr) (limiter : ReadLimiter) (kept : Option Bucket) (clock : Nat) :
    Prop where
  tokens : ∀ bucket, kept = some bucket → bucket.tokens ≤ READ_BURST
  last : ∀ bucket, kept = some bucket → bucket.last ≤ clock
  same : ∀ bucket, limiter.seen.get? ip = some bucket → kept = some bucket
  full : limiter.seen.get? ip = none →
    ∀ bucket, kept = some bucket → bucket.last + 10 * nsPerSec ≤ clock

namespace Tracks

variable {ip : IpAddr} {limiter : ReadLimiter} {kept : Option Bucket} {clock : Nat}

theorem start : Tracks ip .new none 0 where
  tokens _ h := nomatch h
  last _ h := nomatch h
  same _ h := nomatch h
  full _ _ h := nomatch h

/-- Time passes. -/
theorem later (h : Tracks ip limiter kept clock) {now : Nat} (hnow : clock ≤ now) :
    Tracks ip limiter kept now where
  tokens := h.tokens
  last bucket hkept := (h.last bucket hkept).trans hnow
  same := h.same
  full hnone bucket hkept := (h.full hnone bucket hkept).trans hnow

/-- What pruning drops is full. -/
theorem prune (h : Tracks ip limiter kept clock) : Tracks ip (limiter.prune clock) kept clock := by
  unfold ReadLimiter.prune
  split_ifs with hsize
  · refine ⟨h.tokens, h.last, fun bucket hbucket => ?_, fun hnone bucket hkept => ?_⟩
    · exact h.same bucket (SortedMap.get?_filter_eq_some.1 hbucket).1
    · rw [SortedMap.get?_filter] at hnone
      cases hseen : limiter.seen.get? ip with
      | none => exact h.full hseen bucket hkept
      | some seen =>
          cases (h.same seen hseen).symm.trans hkept
          rw [hseen, Option.filter_some] at hnone
          split_ifs at hnone with hfull
          replace hfull := of_decide_eq_false (Bool.eq_false_iff.2 hfull)
          simp only [READ_BURST, READ_REFILL_PER_SEC, nsPerSec] at *
          omega
  · exact h

/-- A charge of the caller is answered, and leaves their bucket, as if no bucket were dropped. -/
theorem charge_eq (h : Tracks ip limiter kept clock)
    (hmark : ∀ bucket, kept = some bucket → bucket.OnTheMark clock) (cost : Nat) :
    ((limiter.prune clock).seen.getD ip (.fresh clock)).charge cost clock =
      (kept.getD (.fresh clock)).charge cost clock := by
  have hpruned := h.prune
  unfold SortedMap.getD
  cases hseen : (limiter.prune clock).seen.get? ip with
  | some bucket =>
      rw [hpruned.same bucket hseen, Option.getD_some]
  | none =>
      cases hkept : kept with
      | none => rfl
      | some bucket =>
          refine Bucket.charge_congr ?_ cost
          calc (Bucket.fresh clock).topUp clock = .fresh clock := Bucket.topUp_fresh clock
            _ = bucket.topUp clock :=
              (Bucket.topUp_of_full (hmark bucket hkept).1 (hpruned.tokens bucket hkept)
                (hpruned.full hseen bucket hkept)).symm

/-- The bucket a charge of the caller starts from. -/
theorem getD_fresh (h : Tracks ip limiter kept clock) :
    (kept.getD (.fresh clock)).tokens ≤ READ_BURST ∧ (kept.getD (.fresh clock)).last ≤ clock := by
  cases hkept : kept with
  | none => exact ⟨Nat.le_refl _, Nat.le_refl _⟩
  | some bucket => exact ⟨h.tokens bucket hkept, h.last bucket hkept⟩

theorem charge_own (h : Tracks ip limiter kept clock)
    (hmark : ∀ bucket, kept = some bucket → bucket.OnTheMark clock) (cost : Nat) :
    Tracks ip (limiter.charge ip cost clock).2 (keptAfter ip kept (.charge ip cost clock))
      clock := by
  have heq := h.charge_eq hmark cost
  obtain ⟨htokens, hlast⟩ := h.getD_fresh
  have hget : (limiter.charge ip cost clock).2.seen.get? ip =
      some ((kept.getD (.fresh clock)).charge cost clock).2 := by
    rw [← heq]
    exact SortedMap.get?_insert_self _ _ _
  have hkept : keptAfter ip kept (.charge ip cost clock) =
      some ((kept.getD (.fresh clock)).charge cost clock).2 := if_pos rfl
  rw [hkept]
  refine ⟨?_, ?_, fun bucket hbucket => hget.symm.trans hbucket, fun hnone => ?_⟩
  · rintro bucket ⟨⟩
    exact (Bucket.charge_tokens_le _ _ _).trans (Bucket.topUp_tokens_le htokens)
  · rintro bucket ⟨⟩
    rw [Bucket.charge_last]
    exact Bucket.topUp_last_le hlast
  · exact absurd (hget.symm.trans hnone) (Option.some_ne_none _)

theorem charge_other (h : Tracks ip limiter kept clock) {other : IpAddr} (hother : other ≠ ip)
    (cost : Nat) :
    Tracks ip (limiter.charge other cost clock).2 (keptAfter ip kept (.charge other cost clock))
      clock := by
  have hpruned := h.prune
  have hget : (limiter.charge other cost clock).2.seen.get? ip =
      (limiter.prune clock).seen.get? ip := SortedMap.get?_insert_of_ne _ hother.symm _
  have hkept : keptAfter ip kept (.charge other cost clock) = kept := if_neg hother
  rw [hkept]
  exact ⟨h.tokens, h.last, fun bucket hbucket => hpruned.same bucket (hget.symm.trans hbucket),
    fun hnone => hpruned.full (hget.symm.trans hnone)⟩

theorem refund_own (h : Tracks ip limiter kept clock) (amount : Nat) :
    Tracks ip (limiter.refund ip amount) (keptAfter ip kept (.refund ip amount)) clock := by
  unfold ReadLimiter.refund
  by_cases hzero : amount = 0
  · have hkept : keptAfter ip kept (.refund ip amount) = kept := if_neg (fun hand => hand.2 hzero)
    rw [if_pos hzero, hkept]
    exact h
  have hkept : keptAfter ip kept (.refund ip amount) =
      kept.map (fun bucket => bucket.refund amount) := if_pos ⟨rfl, hzero⟩
  rw [if_neg hzero, hkept]
  have hraised : ∀ bucket, kept.map (fun bucket => bucket.refund amount) = some bucket →
      ∃ before, kept = some before ∧ bucket = before.refund amount := by
    intro bucket hbucket
    obtain ⟨before, hbefore, rfl⟩ := Option.map_eq_some_iff.1 hbucket
    exact ⟨before, hbefore, rfl⟩
  have htokens : ∀ bucket, kept.map (fun bucket => bucket.refund amount) = some bucket →
      bucket.tokens ≤ READ_BURST := by
    intro bucket hbucket
    obtain ⟨before, -, rfl⟩ := hraised bucket hbucket
    exact Nat.min_le_right _ _
  have hlast : ∀ bucket, kept.map (fun bucket => bucket.refund amount) = some bucket →
      bucket.last ≤ clock := by
    intro bucket hbucket
    obtain ⟨before, hbefore, rfl⟩ := hraised bucket hbucket
    exact h.last before hbefore
  cases hseen : limiter.seen.get? ip with
  | none =>
      refine ⟨htokens, hlast, fun bucket hbucket => (nomatch hseen.symm.trans hbucket),
        fun _ bucket hbucket => ?_⟩
      obtain ⟨before, hbefore, rfl⟩ := hraised bucket hbucket
      exact h.full hseen before hbefore
  | some seen =>
      have hget := SortedMap.get?_insert_self limiter.seen ip (seen.refund amount)
      refine ⟨htokens, hlast, fun bucket hbucket => ?_, fun hnone => ?_⟩
      · rw [h.same seen hseen]
        exact hget.symm.trans hbucket
      · exact absurd (hget.symm.trans hnone) (Option.some_ne_none _)

theorem refund_other (h : Tracks ip limiter kept clock) {other : IpAddr} (hother : other ≠ ip)
    (amount : Nat) :
    Tracks ip (limiter.refund other amount) (keptAfter ip kept (.refund other amount)) clock := by
  have hkept : keptAfter ip kept (.refund other amount) = kept :=
    if_neg (fun hand => hother hand.1)
  have hget : (limiter.refund other amount).seen.get? ip = limiter.seen.get? ip := by
    unfold ReadLimiter.refund
    split_ifs
    · rfl
    · cases limiter.seen.get? other with
      | none => rfl
      | some seen => exact SortedMap.get?_insert_of_ne _ hother.symm _
  rw [hkept]
  exact ⟨h.tokens, h.last, fun bucket hbucket => h.same bucket (hget.symm.trans hbucket),
    fun hnone => h.full (hget.symm.trans hnone)⟩

/-- One call, by anyone. -/
theorem step (h : Tracks ip limiter kept clock) {call : LimitCall}
    (hclock : FromClock clock [call])
    (hmark : DropsNoTime ip kept call) :
    Tracks ip (limiter.step call) (keptAfter ip kept call) (call.clockAfter clock) := by
  cases call with
  | charge other cost now =>
      have hnow := h.later hclock.1
      by_cases hother : other = ip
      · subst hother
        exact hnow.charge_own (fun bucket hkept => hmark cost now bucket rfl hkept) cost
      · exact hnow.charge_other hother cost
  | refund other amount =>
      by_cases hother : other = ip
      · subst hother
        exact h.refund_own amount
      · exact h.refund_other hother amount

/-- Where a run is after some of its calls. -/
theorem run (h : Tracks ip limiter kept clock) {before rest : List LimitCall}
    (hclock : FromClock clock (before ++ rest)) (hkeeps : KeepsTime ip kept (before ++ rest)) :
    Tracks ip (limiter.run before) (keptOf ip kept before) (clockOf clock before) ∧
      FromClock (clockOf clock before) rest ∧ KeepsTime ip (keptOf ip kept before) rest := by
  induction before generalizing limiter kept clock with
  | nil => exact ⟨h, hclock, hkeeps⟩
  | cons call before ih =>
      obtain ⟨hcall, hrest⟩ := fromClock_cons.1 hclock
      exact ih (h.step hcall hkeeps.1) hrest hkeeps.2

/-! ## What is spent -/

/-- What one call takes from the ideal bucket, and what the time up to it adds. -/
theorem spentBy_le (h : Tracks ip limiter kept clock) {call : LimitCall}
    (hclock : FromClock clock [call])
    (hmark : DropsNoTime ip kept call) :
    limiter.spentBy ip call * nsPerToken +
        Bucket.level (keptAfter ip kept call) (call.clockAfter clock) ≤
      Bucket.level kept clock + (call.clockAfter clock - clock : Nat) := by
  cases call with
  | charge other cost now =>
      have hpassed := Bucket.level_mono kept hclock.1
      have hnow := h.later hclock.1
      by_cases hother : other = ip
      · subst hother
        have hmark := fun bucket => hmark cost now bucket rfl
        have hanswer : (limiter.charge other cost now).1 =
            ((kept.getD (.fresh now)).charge cost now).1 :=
          congrArg Prod.fst (hnow.charge_eq hmark cost)
        obtain ⟨htokens, hlast⟩ := hnow.getD_fresh
        have hfound : (kept.getD (.fresh now)).OnTheMark now := by
          cases hkept : kept with
          | none => exact Bucket.onTheMark_fresh now
          | some bucket => exact hmark bucket hkept
        have hlevel := Bucket.level_charge htokens hlast hfound cost
        have hstart : Bucket.level (some (kept.getD (.fresh now))) now = Bucket.level kept now := by
          cases kept with
          | none => exact Bucket.level_fresh now
          | some bucket => rfl
        have hkept : keptAfter other kept (.charge other cost now) =
            some ((kept.getD (.fresh now)).charge cost now).2 := if_pos rfl
        rw [hkept]
        simp only [ReadLimiter.spentBy, LimitCall.clockAfter, hanswer, true_and]
        split_ifs at hlevel ⊢
        · omega
        · omega
      · have hkept : keptAfter ip kept (.charge other cost now) = kept := if_neg hother
        rw [hkept]
        simp only [ReadLimiter.spentBy, LimitCall.clockAfter, hother, false_and, if_false]
        omega
  | refund other amount =>
      have hpassed : (LimitCall.refund other amount).clockAfter clock - clock = 0 :=
        Nat.sub_self clock
      rw [hpassed]
      show limiter.spentBy ip (.refund other amount) * nsPerToken +
        Bucket.level (keptAfter ip kept (.refund other amount)) clock ≤ _
      by_cases hown : other = ip ∧ amount ≠ 0
      · obtain ⟨rfl, hzero⟩ := hown
        have hkept : keptAfter other kept (.refund other amount) =
            kept.map (fun bucket => bucket.refund amount) := if_pos ⟨rfl, hzero⟩
        rw [hkept]
        simp only [ReadLimiter.spentBy, ReadLimiter.givenBack, if_true]
        cases hseen : limiter.seen.get? other with
        | some bucket =>
            rw [h.same bucket hseen, Option.map_some]
            have hlevel := Bucket.level_refund bucket amount clock
            simp only [nsPerToken, nsPerSec, READ_REFILL_PER_SEC] at *
            omega
        | none =>
            -- A bucket that was dropped is full by now, so a refund cannot add to it.
            have hfull : Bucket.level kept clock = READ_BURST * nsPerToken := by
              cases hkept : kept with
              | none => rfl
              | some bucket =>
                  have := h.full hseen bucket hkept
                  simp only [Bucket.level, READ_BURST, nsPerToken, nsPerSec,
                    READ_REFILL_PER_SEC] at *
                  omega
            have hle := Bucket.level_le (kept.map (fun bucket => bucket.refund amount)) clock
            rw [hfull]
            show -((0 : Nat) : Int) * (nsPerToken : Int) + _ ≤ _
            omega
      · have hkept : keptAfter ip kept (.refund other amount) = kept := if_neg hown
        rw [hkept]
        simp only [ReadLimiter.spentBy]
        split_ifs
        · push_cast
          have := Int.mul_nonneg (Int.natCast_nonneg (limiter.givenBack ip amount))
            (Int.natCast_nonneg nsPerToken)
          rw [Int.neg_mul]
          omega
        · omega

/-- Over a stretch, the caller spends what the ideal bucket held and took in. -/
theorem netSpent_le (h : Tracks ip limiter kept clock) {stretch : List LimitCall} {stop : Nat}
    (hclock : FromClock clock stretch) (hkeeps : KeepsTime ip kept stretch)
    (hstop : clockOf clock stretch ≤ stop) :
    ReadLimiter.netSpent ip limiter stretch * nsPerToken ≤
      Bucket.level kept clock + (stop - clock : Nat) := by
  induction stretch generalizing limiter kept clock with
  | nil =>
      simp only [ReadLimiter.netSpent]
      omega
  | cons call rest ih =>
      obtain ⟨hcall, hrest⟩ := fromClock_cons.1 hclock
      have hone := h.spentBy_le hcall hkeeps.1
      have hmore := ih (h.step hcall hkeeps.1) hrest hkeeps.2 hstop
      have hpassed := clock_le_clockAfter hcall
      have hlast : call.clockAfter clock ≤ stop := (clock_le_clockOf hrest).trans hstop
      simp only [ReadLimiter.netSpent, Int.add_mul]
      omega

end Tracks

/-! ## The read budget -/

section

variable {ip : IpAddr} {calls : List LimitCall}

/-- Over every stretch the caller spends at most the burst and what is refilled during it. -/
def SpendsWithin (ip : IpAddr) (calls : List LimitCall) : Prop :=
  ∀ before stretch after start elapsed, calls = before ++ (stretch ++ after) →
    Within start (start + elapsed) stretch →
      ReadLimiter.netSpent ip (ReadLimiter.new.run before) stretch * nsPerSec ≤
        READ_BURST * nsPerSec + READ_REFILL_PER_SEC * elapsed

/-- A refused charge takes nothing, and is accepted after the wait it named. -/
def WaitIsEnough (ip : IpAddr) (calls : List LimitCall) : Prop :=
  ∀ before rest cost now wait, calls = before ++ .charge ip cost now :: rest →
    ((ReadLimiter.new.run before).charge ip cost now).1 = .error wait →
      ((ReadLimiter.new.run before).charge ip cost now).2 =
          ((ReadLimiter.new.run before).charge ip 0 now).2 ∧
        ∀ between later after, rest = between ++ .charge ip cost later :: after →
          (∀ other time, .charge ip other time ∉ between) → now + wait * nsPerSec ≤ later →
            ((ReadLimiter.new.run (before ++ .charge ip cost now :: between)).charge
              ip cost later).1 = .ok ()

/-- The caller is answered as if no bucket were ever dropped and nobody else called. -/
def AsIfKept (ip : IpAddr) (calls : List LimitCall) : Prop :=
  ∀ before after cost now, calls = before ++ .charge ip cost now :: after →
    ((ReadLimiter.new.run before).charge ip cost now).1 =
      keptAnswer (keptOf ip none before) cost now

/-- While a bucket stays below the burst, it is credited for every whole millisecond since it was
created. -/
def CreditsEveryMs (ip : IpAddr) (calls : List LimitCall) : Prop :=
  ∀ before after cost now, calls = before ++ .charge ip cost now :: after →
    let credit := creditOf ip .new ⟨0, 0, false⟩ (before ++ [.charge ip cost now])
    credit.below = true →
      credit.credited = tokensPerMs * ((now - credit.created) / nsPerMs)

/-- No charge of the caller is above the burst. -/
def CostsFit (ip : IpAddr) (calls : List LimitCall) : Prop :=
  ∀ cost now, .charge ip cost now ∈ calls → cost ≤ READ_BURST

structure ExactBudget (ip : IpAddr) (calls : List LimitCall) : Prop where
  spends : SpendsWithin ip calls
  waits : WaitIsEnough ip calls
  kept : AsIfKept ip calls
  credits : CreditsEveryMs ip calls

theorem fromClock_max {clock start stop : Nat} {stretch : List LimitCall}
    (h : FromClock clock stretch) (hwithin : Within start stop stretch) :
    FromClock (max clock start) stretch := by
  induction stretch generalizing clock with
  | nil => trivial
  | cons call rest ih =>
      cases call with
      | charge ip cost now =>
          exact ⟨max_le h.1 (hwithin ip cost now List.mem_cons_self).1, h.2⟩
      | refund ip amount =>
          exact ih h (fun ip cost now hmem => hwithin ip cost now (List.mem_cons_of_mem _ hmem))

theorem clockOf_le {clock start stop : Nat} {stretch : List LimitCall} (hclock : clock ≤ stop)
    (hwithin : Within start stop stretch) : clockOf clock stretch ≤ stop := by
  induction stretch generalizing clock with
  | nil => exact hclock
  | cons call rest ih =>
      have hrest : Within start stop rest :=
        fun ip cost now hmem => hwithin ip cost now (List.mem_cons_of_mem _ hmem)
      cases call with
      | charge ip cost now => exact ih (hwithin ip cost now List.mem_cons_self).2 hrest
      | refund ip amount => exact ih hclock hrest

theorem fromClock_of_append {clock : Nat} {xs ys : List LimitCall}
    (h : FromClock clock (xs ++ ys)) : FromClock clock xs := by
  induction xs generalizing clock with
  | nil => trivial
  | cons call xs ih =>
      obtain ⟨hcall, hrest⟩ := fromClock_cons.1 h
      exact fromClock_cons.2 ⟨hcall, ih hrest⟩

theorem keepsTime_of_append {kept : Option Bucket} {xs ys : List LimitCall}
    (h : KeepsTime ip kept (xs ++ ys)) : KeepsTime ip kept xs := by
  induction xs generalizing kept with
  | nil => trivial
  | cons call xs ih => exact ⟨h.1, ih h.2⟩

theorem spendsWithin (hclock : FromClock 0 calls) (hkeeps : KeepsTime ip none calls) :
    SpendsWithin ip calls := by
  rintro before stretch after start elapsed rfl hwithin
  obtain ⟨htracks, hclock, hkeeps⟩ := Tracks.start.run hclock hkeeps
  have hstretch := fromClock_max (fromClock_of_append hclock) hwithin
  have hstop : clockOf (max (clockOf 0 before) start) stretch ≤
      max (max (clockOf 0 before) start) (start + elapsed) :=
    clockOf_le (le_max_left _ _) (fun other cost now hmem =>
      ⟨(hwithin other cost now hmem).1, (hwithin other cost now hmem).2.trans (le_max_right _ _)⟩)
  have hspent := (htracks.later (le_max_left _ start)).netSpent_le hstretch
    (keepsTime_of_append hkeeps) hstop
  have hlevel := Bucket.level_le (keptOf ip none before) (max (clockOf 0 before) start)
  simp only [nsPerToken, nsPerSec, READ_REFILL_PER_SEC, READ_BURST] at *
  omega

theorem asIfKept (hclock : FromClock 0 calls) (hkeeps : KeepsTime ip none calls) :
    AsIfKept ip calls := by
  rintro before after cost now rfl
  obtain ⟨htracks, hclock, hkeeps⟩ := Tracks.start.run hclock hkeeps
  exact congrArg Prod.fst ((htracks.later hclock.1).charge_eq
    (fun bucket hkept => hkeeps.1 cost now bucket rfl hkept) cost)

/-- Without a charge of the caller their bucket only gains, and its clock mark stays. -/
theorem keptOf_of_no_charge {between : List LimitCall} {bucket : Bucket}
    (hnone : ∀ cost now, .charge ip cost now ∉ between) (htokens : bucket.tokens ≤ READ_BURST) :
    ∃ after, keptOf ip (some bucket) between = some after ∧ after.last = bucket.last ∧
      bucket.tokens ≤ after.tokens := by
  induction between generalizing bucket with
  | nil => exact ⟨bucket, rfl, rfl, Nat.le_refl _⟩
  | cons call between ih =>
      have hrest : ∀ cost now, .charge ip cost now ∉ between :=
        fun cost now hmem => hnone cost now (List.mem_cons_of_mem _ hmem)
      cases call with
      | charge other cost now =>
          have hother : other ≠ ip := by
            rintro rfl
            exact hnone cost now List.mem_cons_self
          have hkept : keptAfter ip (some bucket) (.charge other cost now) = some bucket :=
            if_neg hother
          rw [keptOf, List.foldl_cons, hkept]
          exact ih hrest htokens
      | refund other amount =>
          by_cases hown : other = ip ∧ amount ≠ 0
          · have hkept : keptAfter ip (some bucket) (.refund other amount) =
                some (bucket.refund amount) := if_pos hown
            have hrefund := Bucket.refund_tokens bucket amount
            have hburst : (bucket.refund amount).tokens ≤ READ_BURST := by
              rw [hrefund]
              exact Nat.min_le_right _ _
            obtain ⟨after, hafter, hlast, hle⟩ := ih hrest hburst
            rw [keptOf, List.foldl_cons, hkept]
            refine ⟨after, hafter, hlast, ?_⟩
            omega
          · have hkept : keptAfter ip (some bucket) (.refund other amount) = some bucket :=
              if_neg hown
            rw [keptOf, List.foldl_cons, hkept]
            exact ih hrest htokens

/-- The tokens that come back in the time a refusal names make up what was missing. -/
theorem ok_after_wait {bucket after : Bucket} {cost now later : Nat}
    (hcost : cost ≤ READ_BURST) (hlast : bucket.last ≤ now)
    (hsame : after.last = bucket.last) (hmore : bucket.tokens ≤ after.tokens)
    (hle : after.tokens ≤ READ_BURST) (hfits : (later - after.last) / nsPerMs < 2 ^ 64)
    (hlater : now + bucket.waitFor cost * nsPerSec ≤ later) :
    (after.charge cost later).1 = .ok () := by
  rw [Bucket.charge_ok_iff, Bucket.topUp_eq hfits hle]
  simp only [Bucket.waitFor, READ_REFILL_PER_SEC, nsPerSec, READ_BURST] at *
  have hgap : nsPerMs ≤ later - after.last := by
    unfold nsPerMs
    omega
  rw [if_pos hgap]
  simp only [nsPerMs, tokensPerMs, READ_REFILL_PER_SEC] at *
  omega

theorem waitIsEnough (hclock : FromClock 0 calls) (hkeeps : KeepsTime ip none calls)
    (hcosts : CostsFit ip calls) :
    WaitIsEnough ip calls := by
  rintro before rest cost now wait rfl hrefused
  obtain ⟨htracks, hafter, hmarks⟩ := Tracks.start.run hclock hkeeps
  have hnow := htracks.later hafter.1
  have hmark := fun bucket => hmarks.1 cost now bucket rfl
  have heq := hnow.charge_eq hmark
  have hanswer : ((keptOf ip none before).getD (.fresh now) |>.charge cost now).1 = .error wait :=
    (congrArg Prod.fst (heq cost)).symm.trans hrefused
  obtain ⟨htopUp, hwait⟩ := Bucket.charge_of_refused hanswer
  refine ⟨?_, fun between later after hrest hnone hlater => ?_⟩
  · -- The bucket that is stored is the same one.
    unfold ReadLimiter.charge
    dsimp only
    rw [heq cost, heq 0, htopUp, Bucket.charge_zero]
  · subst hrest
    have hlist : before ++ .charge ip cost now :: (between ++ .charge ip cost later :: after) =
        (before ++ .charge ip cost now :: between) ++ .charge ip cost later :: after := by simp
    rw [hlist] at hclock hkeeps
    obtain ⟨htracks', hafter', hmarks'⟩ := Tracks.start.run hclock hkeeps
    have hlater' := htracks'.later hafter'.1
    -- The bucket the refusal left, and what the calls in between made of it.
    have hown := hnow.charge_own hmark cost
    have hleft : keptAfter ip (keptOf ip none before) (.charge ip cost now) =
        some (((keptOf ip none before).getD (.fresh now)).topUp now) := by
      rw [← htopUp]
      exact if_pos rfl
    obtain ⟨bucket, hbucket, hsame, hmore⟩ := keptOf_of_no_charge hnone (hown.tokens _ hleft)
    have hkept : keptOf ip none (before ++ .charge ip cost now :: between) = some bucket := by
      rw [keptOf, List.foldl_append, List.foldl_cons]
      exact (congrArg (fun kept => keptOf ip kept between) hleft).trans hbucket
    have hanswer' := congrArg Prod.fst
      (hlater'.charge_eq (fun bucket => hmarks'.1 cost later bucket rfl) cost)
    refine hanswer'.trans ?_
    rw [hkept]
    rw [hwait] at hlater
    exact ok_after_wait (hcosts cost now (by simp)) (hown.last _ hleft) hsame hmore
      (htracks'.tokens bucket hkept) (hmarks'.1 cost later bucket rfl hkept).1 hlater

/-! ## What is credited -/

/-- What the credit of a bucket below the burst says about its clock mark. -/
def Counts (ip : IpAddr) (limiter : ReadLimiter) (credit : Credit) : Prop :=
  ∀ bucket, limiter.seen.get? ip = some bucket → credit.below = true →
    credit.created ≤ bucket.last ∧ (bucket.last - credit.created) % nsPerMs = 0 ∧
      credit.credited = tokensPerMs * ((bucket.last - credit.created) / nsPerMs)

/-- A refill that drops no time and does not fill the bucket credits every millisecond. -/
theorem counts_topUp {bucket : Bucket} {credit : Credit} {now : Nat}
    (htokens : bucket.tokens ≤ READ_BURST) (hlast : bucket.last ≤ now)
    (hmark : bucket.OnTheMark now) (hbelow : (bucket.topUp now).tokens < READ_BURST)
    (hcreated : credit.created ≤ bucket.last)
    (hwhole : (bucket.last - credit.created) % nsPerMs = 0)
    (hcredited : credit.credited = tokensPerMs * ((bucket.last - credit.created) / nsPerMs)) :
    let credited := credit.credited + ((bucket.topUp now).tokens - bucket.tokens)
    credit.created ≤ (bucket.topUp now).last ∧
      ((bucket.topUp now).last - credit.created) % nsPerMs = 0 ∧
      credited = tokensPerMs * (((bucket.topUp now).last - credit.created) / nsPerMs) ∧
      credited = tokensPerMs * ((now - credit.created) / nsPerMs) := by
  obtain ⟨hfits, hexact⟩ := hmark
  rw [Bucket.topUp_eq hfits htokens] at *
  split_ifs at * with hgap
  · simp only [nsPerMs, tokensPerMs, READ_REFILL_PER_SEC, READ_BURST] at *
    omega
  · simp only [nsPerMs, tokensPerMs, READ_REFILL_PER_SEC, READ_BURST] at *
    omega

theorem get?_of_prune {limiter : ReadLimiter} {now : Nat} {bucket : Bucket}
    (h : (limiter.prune now).seen.get? ip = some bucket) :
    limiter.seen.get? ip = some bucket := by
  unfold ReadLimiter.prune at h
  split_ifs at h
  · exact (SortedMap.get?_filter_eq_some.1 h).1
  · exact h

theorem Counts.charge_own {limiter : ReadLimiter} {kept : Option Bucket} {credit : Credit}
    {now : Nat} (h : Counts ip limiter credit) (htracks : Tracks ip limiter kept now)
    (hmark : ∀ bucket, kept = some bucket → bucket.OnTheMark now) (cost : Nat) :
    Counts ip (limiter.step (.charge ip cost now))
        (creditAfter ip limiter credit (.charge ip cost now)) ∧
      ((creditAfter ip limiter credit (.charge ip cost now)).below = true →
        (creditAfter ip limiter credit (.charge ip cost now)).credited = tokensPerMs *
          ((now - (creditAfter ip limiter credit (.charge ip cost now)).created) / nsPerMs)) := by
  have hstored : (limiter.step (.charge ip cost now)).seen.get? ip =
      some (((limiter.prune now).seen.getD ip (.fresh now)).charge cost now).2 :=
    SortedMap.get?_insert_self _ _ _
  unfold Counts
  simp only [hstored, creditAfter, if_true]
  unfold SortedMap.getD
  cases hseen : (limiter.prune now).seen.get? ip with
  | none =>
      -- The charge creates the bucket, and its clock mark is now.
      refine ⟨?_, fun _ => ?_⟩
      · rintro bucket ⟨⟩ -
        rw [Option.getD_none, Bucket.charge_last, Bucket.topUp_fresh]
        show now ≤ now ∧ (now - now) % nsPerMs = 0 ∧ 0 = tokensPerMs * ((now - now) / nsPerMs)
        rw [Nat.sub_self]
        exact ⟨Nat.le_refl _, rfl, rfl⟩
      · show 0 = tokensPerMs * ((now - now) / nsPerMs)
        rw [Nat.sub_self]
        rfl
  | some found =>
      have hfound := get?_of_prune hseen
      have hkept := htracks.same found hfound
      have hcounts : (credit.below && decide ((found.topUp now).tokens < READ_BURST)) = true →
          _ := fun hbelow =>
        have hparts := Bool.and_eq_true_iff.1 hbelow
        have hbefore := h found hfound hparts.1
        counts_topUp (htracks.tokens found hkept) (htracks.last found hkept) (hmark found hkept)
          (of_decide_eq_true hparts.2) hbefore.1 hbefore.2.1 hbefore.2.2
      refine ⟨?_, fun hbelow => (hcounts hbelow).2.2.2⟩
      rintro bucket ⟨⟩ hbelow
      rw [Option.getD_some, Bucket.charge_last]
      obtain ⟨hcreated, hwhole, hcredited, -⟩ := hcounts hbelow
      exact ⟨hcreated, hwhole, hcredited⟩

theorem Counts.step {limiter : ReadLimiter} {kept : Option Bucket} {credit : Credit}
    {clock : Nat} (h : Counts ip limiter credit) (htracks : Tracks ip limiter kept clock)
    {call : LimitCall} (hclock : FromClock clock [call])
    (hmark : DropsNoTime ip kept call) :
    Counts ip (limiter.step call) (creditAfter ip limiter credit call) := by
  cases call with
  | charge other cost now =>
      by_cases hother : other = ip
      · subst hother
        exact (h.charge_own (htracks.later hclock.1)
          (fun bucket => hmark cost now bucket rfl) cost).1
      · have hcredit : creditAfter ip limiter credit (.charge other cost now) = credit :=
          if_neg hother
        rw [hcredit]
        intro bucket hbucket
        have hpruned : (limiter.prune now).seen.get? ip = some bucket :=
          (SortedMap.get?_insert_of_ne _ (Ne.symm hother) _).symm.trans hbucket
        exact h bucket (get?_of_prune hpruned)
  | refund other amount =>
      intro bucket hbucket hbelow
      have hcredit : (creditAfter ip limiter credit (.refund other amount)).below = true →
          credit.below = true := by
        simp only [creditAfter]
        split_ifs
        · exact fun hand => (Bool.and_eq_true_iff.1 hand).1
        · exact id
      have hsame : (creditAfter ip limiter credit (.refund other amount)).created =
          credit.created ∧
          (creditAfter ip limiter credit (.refund other amount)).credited = credit.credited := by
        simp only [creditAfter]
        split_ifs
        · exact ⟨rfl, rfl⟩
        · exact ⟨rfl, rfl⟩
      -- A refund leaves the clock mark of every bucket.
      obtain ⟨before, hbefore, hlast⟩ : ∃ before, limiter.seen.get? ip = some before ∧
          before.last = bucket.last := by
        have hstored : (limiter.refund other amount).seen.get? ip = some bucket := hbucket
        unfold ReadLimiter.refund at hstored
        split_ifs at hstored with hzero
        · exact ⟨bucket, hstored, rfl⟩
        · cases hseen : limiter.seen.get? other with
          | none =>
              rw [hseen] at hstored
              exact ⟨bucket, hstored, rfl⟩
          | some seen =>
              rw [hseen] at hstored
              dsimp only at hstored
              rw [SortedMap.get?_insert] at hstored
              split_ifs at hstored with hown
              · subst hown
                cases hstored
                exact ⟨seen, hseen, rfl⟩
              · exact ⟨bucket, hstored, rfl⟩
      rw [hsame.1, hsame.2, ← hlast]
      exact h before hbefore (hcredit hbelow)

theorem Counts.run {limiter : ReadLimiter} {kept : Option Bucket} {credit : Credit}
    {clock : Nat} (h : Counts ip limiter credit) (htracks : Tracks ip limiter kept clock)
    {before rest : List LimitCall} (hclock : FromClock clock (before ++ rest))
    (hkeeps : KeepsTime ip kept (before ++ rest)) :
    Counts ip (limiter.run before) (creditOf ip limiter credit before) := by
  induction before generalizing limiter kept credit clock with
  | nil => exact h
  | cons call before ih =>
      obtain ⟨hcall, hrest⟩ := fromClock_cons.1 hclock
      exact ih (h.step htracks hcall hkeeps.1) (htracks.step hcall hkeeps.1) hrest hkeeps.2

theorem creditOf_concat (limiter : ReadLimiter) (credit : Credit) (before : List LimitCall)
    (call : LimitCall) :
    creditOf ip limiter credit (before ++ [call]) =
      creditAfter ip (limiter.run before) (creditOf ip limiter credit before) call := by
  induction before generalizing limiter credit with
  | nil => rfl
  | cons other before ih => exact ih (limiter.step other) (creditAfter ip limiter credit other)

theorem creditsEveryMs (hclock : FromClock 0 calls) (hkeeps : KeepsTime ip none calls) :
    CreditsEveryMs ip calls := by
  rintro before after cost now rfl
  have hstart : Counts ip .new ⟨0, 0, false⟩ := fun _ h => (Option.some_ne_none _ h.symm).elim
  have hcounts := hstart.run Tracks.start hclock hkeeps
  obtain ⟨htracks, hclock, hkeeps⟩ := Tracks.start.run hclock hkeeps
  dsimp only
  rw [creditOf_concat]
  exact (hcounts.charge_own (htracks.later hclock.1)
    (fun bucket => hkeeps.1 cost now bucket rfl) cost).2

/-- The read budget is exact in every run in which no charge of the caller drops a part of a
millisecond. -/
theorem readBudget_exact (hclock : FromClock 0 calls)
    (hcosts : CostsFit ip calls)
    (hkeeps : KeepsTime ip none calls) : ExactBudget ip calls where
  spends := spendsWithin hclock hkeeps
  waits := waitIsEnough hclock hkeeps hcosts
  kept := asIfKept hclock hkeeps
  credits := creditsEveryMs hclock hkeeps

end

/-! ## Time that is lost, and time that is counted twice -/

def sampleCaller : IpAddr := .v4 0xcb007109

/-- Two refills, each after 1.9 milliseconds: the 0.9 of the first is dropped at the refill. -/
def roundedCalls : List LimitCall :=
  [.charge sampleCaller 1000 0, .charge sampleCaller 1 1900000, .charge sampleCaller 1 3800000]

/-- A bucket that is full for 0.9 milliseconds without its clock mark moving is credited for them
again after it was emptied. -/
def aheadCalls : List LimitCall :=
  [.charge sampleCaller 10 0, .refund sampleCaller 10, .charge sampleCaller 50000 900000,
    .charge sampleCaller 5 1000000]

/-- The budget is not exact in every run: a part of a millisecond is rounded away, and another one
is spent twice. -/
theorem budget_is_not_exact :
    (¬∀ ip calls, FromClock 0 calls → CostsFit ip calls → CreditsEveryMs ip calls) ∧
      ¬∀ ip calls, FromClock 0 calls → CostsFit ip calls → SpendsWithin ip calls := by
  refine ⟨fun h => ?_, fun h => ?_⟩
  · have hclock : FromClock 0 roundedCalls := by simp [FromClock, roundedCalls]
    have hcosts : CostsFit sampleCaller roundedCalls := by
      intro cost now hmem
      simp [roundedCalls] at hmem
      unfold READ_BURST
      omega
    have hcredits := h sampleCaller roundedCalls hclock hcosts (roundedCalls.take 2) [] 1 3800000
      rfl (by decide +kernel)
    revert hcredits
    decide +kernel
  · have hclock : FromClock 0 aheadCalls := by simp [FromClock, aheadCalls]
    have hcosts : CostsFit sampleCaller aheadCalls := by
      intro cost now hmem
      simp [aheadCalls] at hmem
      unfold READ_BURST
      omega
    have hwithin : Within 900000 (900000 + 100000) (aheadCalls.drop 2) := by
      intro ip cost now hmem
      simp [aheadCalls] at hmem
      omega
    have hspends := h sampleCaller aheadCalls hclock hcosts (aheadCalls.take 2)
      (aheadCalls.drop 2) [] 900000 100000 rfl hwithin
    revert hspends
    decide +kernel

/-- Charges on whole milliseconds, one of them refused, with another caller in between. -/
def sampleCalls : List LimitCall :=
  [.charge sampleCaller 50000 0, .charge (.v4 1) 7 400000, .charge sampleCaller 5 1000000,
    .charge sampleCaller 100 1000000, .refund sampleCaller 3, .charge sampleCaller 100 1001000000]

theorem readBudget_exact_sample :
    ((ReadLimiter.new.run (sampleCalls.take 3)).charge sampleCaller 100 1000000).1 = .error 1 ∧
      ExactBudget sampleCaller sampleCalls := by
  have hclock : FromClock 0 sampleCalls := by simp [FromClock, sampleCalls]
  have hcosts : CostsFit sampleCaller sampleCalls := by
    intro cost now hmem
    simp [sampleCalls] at hmem
    unfold READ_BURST
    omega
  have hkeeps : KeepsTime sampleCaller none sampleCalls := by decide +kernel
  exact ⟨by decide +kernel, readBudget_exact hclock hcosts hkeeps⟩

end Feed
end VerifiableExchange
