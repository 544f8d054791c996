import VerifiableExchange.Ledger
import VerifiableExchange.Lib.Mutation

/-!
# Calls — the ledger changed in place

The four calls that change a ledger, with their writes where the source makes them. Every check
stands before the first write, so a call either has the outcome of its pure function or leaves the
ledger as it was.
-/

namespace VerifiableExchange
namespace Ledger

open Lib

/-! ## The calls, statement by statement -/

def reserveIn (orderId : OrderId) (account : AccountId) (symbol : String) (side : Side)
    (limitCents qtyTenths : Int) : Mutation Ledger String Unit := do
  let l ← Mutation.get
  if !l.isFunded then return ()
  else do
    let expected ← Mutation.check l.nextSequence
    Mutation.check (require (orderId = expected ∧ l.reservations.get? orderId = none)
      "order reservation would replay an applied sequence")
    let market ← Mutation.check (l.market symbol)
    let asset := reservedAsset market side
    let units ← Mutation.check (reserveUnits side limitCents qtyTenths)
    let key := accountKey account asset
    let before := l.balances.getD key .default
    let available ← Mutation.check (orFail
      ((checkedSub before.available units).filter (fun a => 0 ≤ a))
      s!"insufficient available {asset} for account {account}")
    let reserved ← Mutation.check (orFail (checkedAdd before.reserved units) "reserve overflow")
    let next : Balance := { available, reserved }
    Mutation.check (checkBalance next)
    Mutation.modify (fun l => { l with balances := l.balances.insert key next })
    Mutation.modify (fun l => { l with
      reservations := l.reservations.insert orderId
        { orderId, account, symbol, side, limitCents,
          remainingTenths := qtyTenths, asset, units } })

def settleFillIn (makerOrder takerOrder : OrderId) (priceCents qtyTenths : Int) :
    Mutation Ledger String Unit := do
  let l ← Mutation.get
  if !l.isFunded then return ()
  else do
    let expected ← Mutation.check l.nextSequence
    Mutation.check (require (takerOrder = expected) "fill taker is outside the current sequence")
    Mutation.check (require (makerOrder ≠ takerOrder ∧ 0 < priceCents ∧ 0 < qtyTenths)
      "invalid fill")
    let maker ← Mutation.check
      (orFail (l.reservations.get? makerOrder) "maker reservation missing")
    let taker ← Mutation.check
      (orFail (l.reservations.get? takerOrder) "taker reservation missing")
    Mutation.check (require (maker.symbol = taker.symbol ∧ maker.side ≠ taker.side)
      "fill reservations disagree on market or side")
    let market ← Mutation.check (l.market maker.symbol)
    let buyer := buyerOf maker taker
    let seller := sellerOf maker taker
    Mutation.check (require (priceCents ≤ buyer.limitCents ∧ seller.limitCents ≤ priceCents ∧
        qtyTenths ≤ buyer.remainingTenths ∧ qtyTenths ≤ seller.remainingTenths)
      "fill exceeds reserved terms")
    let base ← Mutation.check (orFail (checkedMul qtyTenths 100) "base fill overflow")
    let cash ← Mutation.check (orFail (checkedMul priceCents qtyTenths) "quote fill overflow")
    let buyerReserved ← Mutation.check
      (orFail (checkedMul buyer.limitCents qtyTenths) "buy reserve overflow")
    let improvement ← Mutation.check
      (orFail (checkedSub buyerReserved cash) "price improvement overflow")
    let deltas := fillDeltas market buyer seller base cash buyerReserved improvement
    let nextBalances ← Mutation.check (deltas.entries.mapM (fun e => l.shifted e.1 e.2))
    let makerNext ← Mutation.check (maker.afterFill qtyTenths)
    let takerNext ← Mutation.check (taker.afterFill qtyTenths)
    -- Everything that can fail is above the writes.
    nextBalances.forM (fun e =>
      Mutation.modify (fun l => { l with balances := l.balances.insert e.1 e.2 }))
    [makerNext, takerNext].forM (fun next =>
      Mutation.modify (fun l => { l with reservations := putReservation l.reservations next }))

def releaseIn (orderId : OrderId) : Mutation Ledger String Bool := do
  let l ← Mutation.get
  match l.reservations.get? orderId with
  | none => return false
  | some reservation => do
      let key := accountKey reservation.account reservation.asset
      let before ← Mutation.check (orFail (l.balances.get? key) "reserved balance missing")
      let available ← Mutation.check
        (orFail (checkedAdd before.available reservation.units) "release overflow")
      let reserved ← Mutation.check
        (orFail (checkedSub before.reserved reservation.units) "release underflow")
      let next : Balance := { available, reserved }
      Mutation.check (checkBalance next)
      Mutation.modify (fun l => { l with balances := l.balances.insert key next })
      Mutation.modify (fun l => { l with reservations := l.reservations.erase orderId })
      return true

def finishSequenceIn (sequence : OrderId) : Mutation Ledger String Unit := do
  let l ← Mutation.get
  let expected ← Mutation.check l.nextSequence
  Mutation.check (require (sequence = expected) "ledger sequence out of order")
  Mutation.modify (fun l => { l with lastSequence := sequence })

/-! ## Each is its pure function, or nothing -/

/-- A pure call's answer beside the ledger it leaves. -/
def answering {α : Type} (a : α) (x : Except String Ledger) : Except String (Ledger × α) :=
  x >>= fun l => .ok (l, a)

open Mutation (outcome check_bind)

theorem reserveIn_eq (l : Ledger) (orderId : OrderId) (account : AccountId) (symbol : String)
    (side : Side) (limitCents qtyTenths : Int) :
    reserveIn orderId account symbol side limitCents qtyTenths l =
      outcome l (answering () (l.reserve orderId account symbol side limitCents qtyTenths)) := by
  unfold reserveIn reserve answering
  rw [Mutation.get_bind]
  split_ifs with hfunded
  · rfl
  · simp only [bind_assoc]
    refine check_bind (fun expected => check_bind (fun _ => check_bind (fun market =>
      check_bind (fun units => check_bind (fun available => check_bind (fun reserved =>
        check_bind (fun _ => ?_)))))))
    rfl

theorem foldl_balances (written : List (AccountKey × Balance)) : ∀ l : Ledger,
    written.foldl (fun l e => { l with balances := l.balances.insert e.1 e.2 }) l =
      { l with
        balances := written.foldl (fun balances e => balances.insert e.1 e.2) l.balances } := by
  induction written with
  | nil => exact fun l => rfl
  | cons e rest ih => exact fun l => ih _

theorem settleFillIn_eq (l : Ledger) (makerOrder takerOrder : OrderId)
    (priceCents qtyTenths : Int) :
    settleFillIn makerOrder takerOrder priceCents qtyTenths l =
      outcome l (answering () (l.settleFill makerOrder takerOrder priceCents qtyTenths)) := by
  unfold settleFillIn settleFill answering
  rw [Mutation.get_bind]
  split_ifs with hfunded
  · rfl
  · simp only [bind_assoc]
    refine check_bind (fun expected => check_bind (fun _ => check_bind (fun _ =>
      check_bind (fun maker => check_bind (fun taker => check_bind (fun _ =>
        check_bind (fun market => check_bind (fun _ => check_bind (fun base =>
          check_bind (fun cash => check_bind (fun buyerReserved =>
            check_bind (fun improvement => check_bind (fun nextBalances =>
              check_bind (fun makerNext => check_bind (fun takerNext => ?_)))))))))))))))
    refine (Mutation.bind_of_ok (Mutation.forM_modify
      (fun e l => { l with balances := l.balances.insert e.1 e.2 }) nextBalances l)).trans ?_
    rw [foldl_balances]
    rfl

theorem releaseIn_eq (l : Ledger) (orderId : OrderId) :
    releaseIn orderId l = outcome l (l.release orderId) := by
  unfold releaseIn release
  rw [Mutation.get_bind]
  cases l.reservations.get? orderId with
  | none => rfl
  | some reservation =>
      refine check_bind (fun before => check_bind (fun available => check_bind (fun reserved =>
        check_bind (fun _ => ?_))))
      rfl

theorem finishSequenceIn_eq (l : Ledger) (sequence : OrderId) :
    finishSequenceIn sequence l = outcome l (answering () (l.finishSequence sequence)) := by
  unfold finishSequenceIn finishSequence answering
  rw [Mutation.get_bind]
  simp only [bind_assoc]
  refine check_bind (fun expected => check_bind (fun _ => ?_))
  rfl

/-! ## Any call -/

inductive Call where
  | reserve (orderId : OrderId) (account : AccountId) (symbol : String) (side : Side)
      (limitCents qtyTenths : Int)
  | settleFill (makerOrder takerOrder : OrderId) (priceCents qtyTenths : Int)
  | release (orderId : OrderId)
  | finishSequence (sequence : OrderId)
  deriving DecidableEq

/-- What a call answers when it does not fail. -/
inductive Answer where
  | done
  | released (held : Bool)
  deriving DecidableEq

namespace Call

/-- The call on a ledger in place. -/
def perform : Call → Mutation Ledger String Answer
  | .reserve orderId account symbol side limitCents qtyTenths => do
      reserveIn orderId account symbol side limitCents qtyTenths
      return .done
  | .settleFill makerOrder takerOrder priceCents qtyTenths => do
      settleFillIn makerOrder takerOrder priceCents qtyTenths
      return .done
  | .release orderId => do
      let held ← releaseIn orderId
      return .released held
  | .finishSequence sequence => do
      finishSequenceIn sequence
      return .done

/-- The call as a function from the ledger to the next one. -/
def next (l : Ledger) : Call → Except String (Ledger × Answer)
  | .reserve orderId account symbol side limitCents qtyTenths =>
      answering .done (l.reserve orderId account symbol side limitCents qtyTenths)
  | .settleFill makerOrder takerOrder priceCents qtyTenths =>
      answering .done (l.settleFill makerOrder takerOrder priceCents qtyTenths)
  | .release orderId => (l.release orderId).map (fun result => (result.1, .released result.2))
  | .finishSequence sequence => answering .done (l.finishSequence sequence)

/-- A call that answers nothing is done. -/
theorem done_outcome {l : Ledger} {x : Except String Ledger} {prog : Mutation Ledger String Unit}
    (h : prog l = outcome l (answering () x)) :
    (prog >>= fun _ => pure Answer.done) l = outcome l (answering Answer.done x) := by
  cases x with
  | ok l' => exact Mutation.bind_of_ok h
  | error reason => exact Mutation.bind_of_error h

/-- A release answers whether the order held anything. -/
theorem released_outcome {l : Ledger} {x : Except String (Ledger × Bool)}
    {prog : Mutation Ledger String Bool} (h : prog l = outcome l x) :
    (prog >>= fun held => pure (Answer.released held)) l =
      outcome l (x.map (fun result => (result.1, Answer.released result.2))) := by
  cases x with
  | ok result => exact Mutation.bind_of_ok h
  | error reason => exact Mutation.bind_of_error h

/-- Every call is all or nothing. -/
theorem perform_eq (l : Ledger) (call : Call) : call.perform l = outcome l (call.next l) := by
  cases call with
  | reserve orderId account symbol side limitCents qtyTenths =>
      exact done_outcome (reserveIn_eq l orderId account symbol side limitCents qtyTenths)
  | settleFill makerOrder takerOrder priceCents qtyTenths =>
      exact done_outcome (settleFillIn_eq l makerOrder takerOrder priceCents qtyTenths)
  | release orderId => exact released_outcome (releaseIn_eq l orderId)
  | finishSequence sequence => exact done_outcome (finishSequenceIn_eq l sequence)

/-- A refused call leaves the ledger as it was. -/
theorem perform_refused {l : Ledger} {call : Call} {reason : String}
    (h : (call.perform l).1 = .error reason) : (call.perform l).2 = l := by
  rw [perform_eq] at h ⊢
  exact Mutation.snd_outcome_error h

end Call

/-- The ledger a call leaves, whether it is refused or not. -/
def after (l : Ledger) (call : Call) : Ledger := (call.perform l).2

def run (l : Ledger) (calls : List Call) : Ledger := calls.foldl after l

/-- What the calls of a run that were not refused add to a record, in order. -/
def recorded {α : Type} (record : Ledger → Call → List α) (l : Ledger) : List Call → List α
  | [] => []
  | call :: rest =>
      (if (call.next l).toOption.isSome then record l call else []) ++
        recorded record (l.after call) rest

theorem after_of_ok {l l' : Ledger} {call : Call} {answer : Answer}
    (h : call.next l = .ok (l', answer)) : l.after call = l' := by
  unfold after
  rw [Call.perform_eq, h]
  rfl

theorem after_of_error {l : Ledger} {call : Call} {reason : String}
    (h : call.next l = .error reason) : l.after call = l := by
  unfold after
  rw [Call.perform_eq, h]
  rfl

end Ledger
end VerifiableExchange
