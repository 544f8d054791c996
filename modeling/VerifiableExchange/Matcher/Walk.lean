import VerifiableExchange.Lib.Greedy
import VerifiableExchange.Matcher.Resting
import VerifiableExchange.Matcher.Trades

/-!
# Walk — a match is one greedy walk of a sorted queue

The resting orders an order faces, best price first and by arrival within a price, are one queue.
The fills of a match are what a greedy walk takes off that queue until a position would overflow,
and the book keeps what the walk leaves.
-/

namespace VerifiableExchange
namespace Matcher

open Lib

/-! ## The queue an order faces -/

/-- A resting order with the price it waits at. -/
abbrev Waiting := Int × RestingOrder

namespace Waiting

def size (w : Waiting) : Int := w.2.qtyTenths

/-- The same order with another quantity left. -/
def shrink (w : Waiting) (qtyTenths : Int) : Waiting := (w.1, { w.2 with qtyTenths := qtyTenths })

@[simp] theorem size_shrink (w : Waiting) (qtyTenths : Int) : (w.shrink qtyTenths).size = qtyTenths :=
  rfl

@[simp] theorem shrink_shrink (w : Waiting) (first second : Int) :
    (w.shrink first).shrink second = w.shrink second := rfl

/-- The fill that takes a quantity off it. -/
def fill (w : Waiting) (qtyTenths : Int) : PlannedFill where
  makerOrder := w.2.id
  makerAccount := w.2.account
  priceCents := w.1
  qtyTenths := qtyTenths

/-- One resting order comes before another: at a better price, or earlier at the same one. -/
def Before (side : Side) (a b : Waiting) : Prop :=
  match side with
  | .buy => a.1 < b.1 ∨ (a.1 = b.1 ∧ a.2.id < b.2.id)
  | .sell => b.1 < a.1 ∨ (a.1 = b.1 ∧ a.2.id < b.2.id)

end Waiting

/-- The orders of one level, each with the level's price. -/
def atPrice (entry : Int × Level) : List Waiting := entry.2.map (fun o => (entry.1, o))

/-- Every order an order of this side faces. -/
def waiting (book : Book) (side : Side) : List Waiting := (facing book side).flatMap atPrice

/-- Of these, the ones priced at the limit or better. -/
def queue (book : Book) (side : Side) (limitCents : Int) : List Waiting :=
  (waiting book side).filter (fun w => crosses side w.1 limitCents)

theorem mem_waiting {book : Book} {side : Side} {w : Waiting} :
    w ∈ waiting book side ↔
      ∃ level, (book.levels side.opposite).get? w.1 = some level ∧ w.2 ∈ level := by
  simp only [waiting, atPrice, List.mem_flatMap, List.mem_map, Prod.exists, mem_facing]
  constructor
  · rintro ⟨price, level, hlevel, o, ho, rfl⟩
    exact ⟨level, hlevel, ho⟩
  · rintro ⟨level, hlevel, ho⟩
    exact ⟨w.1, level, hlevel, w.2, ho, rfl⟩

/-- The faced prices come best first, each once. -/
theorem facing_sorted (book : Book) (side : Side) :
    (facing book side).Pairwise (fun a b => match side with
      | .buy => a.1 < b.1
      | .sell => b.1 < a.1) := by
  cases side with
  | buy => exact book.asks.sorted
  | sell => exact List.pairwise_reverse.2 book.bids.sorted

/-- In a well-formed book the queue is sorted: best price first, and by arrival at one price. -/
theorem waiting_sorted {book : Book} {side : Side}
    (h : ∀ price level, (book.levels side.opposite).get? price = some level → Increasing level) :
    (waiting book side).Pairwise (Waiting.Before side) := by
  refine List.pairwise_flatMap.2 ⟨?_, ?_⟩
  · rintro ⟨price, level⟩ hentry
    refine List.pairwise_map.2 ((h price level (mem_facing.1 hentry)).imp ?_)
    intro a b hid
    cases side
    · exact Or.inr ⟨rfl, hid⟩
    · exact Or.inr ⟨rfl, hid⟩
  · refine (facing_sorted book side).imp ?_
    intro a b hprice x hx y hy
    obtain ⟨o, -, rfl⟩ := List.mem_map.1 hx
    obtain ⟨o', -, rfl⟩ := List.mem_map.1 hy
    cases side
    · exact Or.inl hprice
    · exact Or.inl hprice

/-- The front of the queue is the front order of the best level. -/
theorem waiting_of_facing {book : Book} {side : Side} {price : Int} {maker : RestingOrder}
    {rest : Level} {others : List (Int × Level)}
    (h : facing book side = (price, maker :: rest) :: others) :
    waiting book side = (price, maker) :: (atPrice (price, rest) ++ others.flatMap atPrice) := by
  simp [waiting, h, atPrice]

/-! ## One fill takes from the front -/

/-- What is behind the order that trades. -/
theorem FillEvent.Enabled.waiting_eq {order : IncomingOrder} {remaining : Int}
    {before : BookAndTrades} {e : FillEvent} (h : e.Enabled order remaining before) :
    ∃ behind, waiting before.book order.side = (e.price, e.maker) :: behind ∧
      waiting (e.result order remaining before).book order.side =
        if e.makerLeft remaining = 0 then behind
        else Waiting.shrink (e.price, e.maker) (e.makerLeft remaining) :: behind := by
  obtain ⟨others, hbest⟩ := h.best
  refine ⟨atPrice (e.price, e.rest) ++ others.flatMap atPrice, waiting_of_facing hbest, ?_⟩
  have hput := facing_put hbest (levelAfter e.maker (e.makerLeft remaining) e.rest)
  unfold levelAfter at hput
  by_cases hdone : e.makerLeft remaining = 0
  · rw [if_pos hdone] at hput ⊢
    simp only [FillEvent.result, levelAfter, if_pos hdone, waiting, hput]
    split_ifs with hrest
    · simp [atPrice, hrest]
    · simp
  · rw [if_neg hdone] at hput ⊢
    simp only [FillEvent.result, levelAfter, if_neg hdone, waiting, hput]
    simp [atPrice, Waiting.shrink]

/-- A fill is what a greedy walk takes first, and leaves what the walk leaves. -/
theorem FillEvent.Enabled.greedy {order : IncomingOrder} {remaining : Int} {before : BookAndTrades}
    {e : FillEvent} (h : e.Enabled order remaining before) (hmaker : 0 < e.maker.qtyTenths) :
    Greedy.fills Waiting.size remaining (queue before.book order.side order.limitCents) =
        ((e.price, e.maker), e.qty remaining) ::
          Greedy.fills Waiting.size (remaining - e.qty remaining)
            (queue (e.result order remaining before).book order.side order.limitCents) ∧
      waiting (e.result order remaining before).book order.side =
        Greedy.leave Waiting.size Waiting.shrink (e.qty remaining)
          (waiting before.book order.side) := by
  obtain ⟨behind, hwaiting, hafter⟩ := h.waiting_eq
  have hwanted := h.wanted
  have hqty : e.qty remaining = min remaining e.maker.qtyTenths := rfl
  have hleft : e.makerLeft remaining = e.maker.qtyTenths - e.qty remaining := rfl
  have hsize : Waiting.size (e.price, e.maker) = e.maker.qtyTenths := rfl
  -- The maker crosses, so it heads the queue within the price as it heads the whole one.
  have hfront : queue before.book order.side order.limitCents = (e.price, e.maker) ::
      behind.filter (fun w => crosses order.side w.1 order.limitCents) := by
    rw [queue, hwaiting, List.filter_cons_of_pos (by simpa using h.cross)]
  rw [hfront, Greedy.fills_cons _ _ hwanted, queue, hafter, hwaiting, hsize, ← hqty]
  by_cases hdone : e.makerLeft remaining = 0
  · rw [if_pos hdone, Greedy.leave_cons_of_le (by omega) (by omega),
      Greedy.leave_of_nonpos (by omega)]
    exact ⟨rfl, rfl⟩
  · -- The order that trades keeps a part, so the arriving one has all it wanted.
    have hfilled : remaining - e.qty remaining ≤ 0 := by omega
    rw [if_neg hdone, Greedy.fills_of_nonpos hfilled, Greedy.fills_of_nonpos hfilled,
      Greedy.leave_cons_of_lt (by omega) (by omega), hsize, ← hleft]
    exact ⟨rfl, rfl⟩

theorem FillEvent.Enabled.size_pos {order : IncomingOrder} {remaining : Int} {before : BookAndTrades}
    {e : FillEvent} (h : e.Enabled order remaining before)
    (hpos : ∀ w ∈ waiting before.book order.side, 0 < w.size) :
    0 < e.maker.qtyTenths ∧
      ∀ w ∈ waiting (e.result order remaining before).book order.side, 0 < w.size := by
  obtain ⟨behind, hwaiting, hafter⟩ := h.waiting_eq
  rw [hwaiting] at hpos
  obtain ⟨hmaker, hbehind⟩ := List.forall_mem_cons.1 hpos
  refine ⟨hmaker, ?_⟩
  rw [hafter]
  split_ifs with hdone
  · exact hbehind
  · refine List.forall_mem_cons.2 ⟨?_, hbehind⟩
    have hleft : e.makerLeft remaining = e.maker.qtyTenths - min remaining e.maker.qtyTenths := rfl
    show 0 < e.makerLeft remaining
    omega

/-! ## A whole match -/

/-- The fills of a walk that book both positions, up to the first that would leave a range. -/
def booked (order : IncomingOrder) :
    SortedMap AccountKey Position → List (Waiting × Int) → List (Waiting × Int)
  | _, [] => []
  | positions, (w, qty) :: rest =>
      match positionsOf order (w.fill qty) positions with
      | none => []
      | some next =>
          (w, qty) :: booked order (positionsAfter positions order (w.fill qty) next.1 next.2) rest

/-- The fills of a walk, as a plan lists them. -/
def plannedOf (made : List (Waiting × Int)) : List PlannedFill := made.map (fun f => f.1.fill f.2)

/-- The trades of fills in order, numbered from the one after `total`. -/
def tradeRows (order : IncomingOrder) : Nat → List PlannedFill → List TradeRow
  | _, [] => []
  | total, fill :: rest => tradeOf order fill (total + 1) :: tradeRows order (total + 1) rest

/-- The quantity of these fills together. -/
def filled (made : List (Waiting × Int)) : Int := (made.map Prod.snd).sum

/-- The fills `made` are the start of the walk, and everything else a match does follows from them. -/
structure Made (order : IncomingOrder) (remaining : Int) (before : BookAndTrades) (left : Int)
    (after : BookAndTrades) (made : List (Waiting × Int)) : Prop where
  walk : Greedy.fills Waiting.size remaining (queue before.book order.side order.limitCents) =
    made ++ Greedy.fills Waiting.size left (queue after.book order.side order.limitCents)
  left_le : left ≤ remaining
  filled_eq : filled made = remaining - left
  waiting_eq : waiting after.book order.side =
    Greedy.leave Waiting.size Waiting.shrink (remaining - left) (waiting before.book order.side)
  booked_append : ∀ later, booked order before.positions (made ++ later) =
    made ++ booked order after.positions later
  own_eq : after.book.levels order.side = before.book.levels order.side
  trades : before.pending.isSome = true → recordedTrades after.pending =
    recordedTrades before.pending ++ tradeRows order before.tradesTotal (plannedOf made)

/-- The fills of a match are the start of the greedy walk. -/
theorem Fills.made {order : IncomingOrder} {remaining left : Int} {before after : BookAndTrades}
    (h : Fills order remaining before left after)
    (hpos : ∀ w ∈ waiting before.book order.side, 0 < w.size) :
    ∃ made, Made order remaining before left after made := by
  induction h with
  | done remaining into =>
      refine ⟨[], ⟨rfl, le_rfl, by simp [filled], ?_, fun _ => rfl, rfl, fun _ => ?_⟩⟩
      · rw [sub_self, Greedy.leave_of_nonpos le_rfl]
      · simp [tradeRows, plannedOf]
  | @step remaining left before after e enabled _ ih =>
      obtain ⟨hmaker, hpos'⟩ := enabled.size_pos hpos
      obtain ⟨made, hmade⟩ := ih hpos'
      obtain ⟨hwalk, hwaiting⟩ := enabled.greedy hmaker
      have hleft := hmade.left_le
      have hqty : 0 ≤ e.qty remaining := le_min enabled.wanted.le hmaker.le
      -- One event more in front; each field follows from the same field behind it.
      refine ⟨((e.price, e.maker), e.qty remaining) :: made, ?_⟩
      constructor
      case walk => rw [hwalk, hmade.walk, List.cons_append]
      case left_le => omega
      case filled_eq =>
        have hfilled := hmade.filled_eq
        simp only [filled, List.map_cons, List.sum_cons] at hfilled ⊢
        omega
      case waiting_eq =>
        rw [hmade.waiting_eq, hwaiting, Greedy.leave_add Waiting.size_shrink Waiting.shrink_shrink hpos hqty
          (by omega)]
        congr 1
        omega
      case booked_append =>
        intro later
        have hfirst : positionsOf order (Waiting.fill (e.price, e.maker) (e.qty remaining))
            before.positions = some e.next := enabled.booked
        simp only [List.cons_append, booked, hfirst]
        exact congrArg _ (hmade.booked_append later)
      case own_eq =>
        rw [hmade.own_eq]
        exact Book.levels_setLevels_of_ne _ (Side.opposite_ne _).symm _
      case trades =>
        intro hkept
        rw [hmade.trades (e.isSome_pending_result hkept), e.recordedTrades_result hkept,
          List.append_assoc]
        rfl

/-! ## Where a match ends -/

/-- A match that ended on its own left nothing of the walk. -/
theorem fills_of_stopped {order : IncomingOrder} {left : Int} {after : BookAndTrades}
    (hlevels : NoEmptyLevel (facing after.book order.side)) (hstopped : Stopped order left after) :
    Greedy.fills Waiting.size left (queue after.book order.side order.limitCents) = [] := by
  rcases le_or_gt left 0 with hleft | hleft
  · exact Greedy.fills_of_nonpos hleft
  · have hempty : queue after.book order.side order.limitCents = [] := by
      refine List.filter_eq_nil_iff.2 ?_
      intro w hw
      obtain ⟨level, hlevel, -⟩ := mem_waiting.1 hw
      simpa using not_crosses_of_stopped hlevels hleft hstopped hlevel
    rw [hempty]
    rfl

/-- The next fill is the next of the walk. -/
theorem fills_of_nextFill {order : IncomingOrder} {left : Int} {book : Book} {fill : PlannedFill}
    (hleft : 0 < left) (h : nextFill order book left = some fill) :
    ∃ w later, Greedy.fills Waiting.size left (queue book order.side order.limitCents) =
        (w, fill.qtyTenths) :: later ∧ fill = w.fill fill.qtyTenths := by
  obtain ⟨maker, rest, others, hfacing, hcross, hfill⟩ := facing_of_nextFill h
  have hqty : fill.qtyTenths = min left (Waiting.size (fill.priceCents, maker)) := by
    rw [hfill]
    rfl
  have hqueue : ∃ behind, queue book order.side order.limitCents =
      (fill.priceCents, maker) :: behind := by
    rw [queue, waiting_of_facing hfacing, List.filter_cons_of_pos (by simpa using hcross)]
    exact ⟨_, rfl⟩
  obtain ⟨behind, hqueue⟩ := hqueue
  have hwalk : Greedy.fills Waiting.size left ((fill.priceCents, maker) :: behind) = _ :=
    Greedy.fills_cons _ _ hleft
  rw [← hqueue, ← hqty] at hwalk
  exact ⟨_, _, hwalk, hfill.trans (by rw [hqty]; rfl)⟩

/-- Why a loop stops before its order is filled and while something crosses. -/
theorem executeLoop_overflowed {order : IncomingOrder} :
    ∀ (fuel : Nat) (remaining left : Int) (into after : BookAndTrades),
      executeLoop order fuel remaining into = .ok (.overflowed left, after) →
      ∃ fill, nextFill order after.book left = some fill ∧
        (positionsOf order fill after.positions = none ∨
          checkedAddU64 after.tradesTotal 1 = none)
  | 0, _, _, _, _, h => by cases h
  | fuel + 1, remaining, left, into, after, h => by
      unfold executeLoop at h
      split_ifs at h
      · cases h
      split at h
      · cases h
      rename_i fill hfill
      split at h
      · split at h
        · cases h
        · exact executeLoop_overflowed fuel _ _ _ _ h
      · -- The loop stopped here, so one of the two conversions failed.
        rename_i hstuck
        cases h
        refine ⟨fill, hfill, ?_⟩
        cases hnext : positionsOf order fill into.positions with
        | none => exact Or.inl rfl
        | some next =>
            cases hid : checkedAddU64 into.tradesTotal 1 with
            | none => exact Or.inr rfl
            | some tradeId => exact absurd hid (hstuck next tradeId hnext)

theorem runMatch_overflowed {order : IncomingOrder} {staged : Option (FokPlan × Ledger)}
    {left : Int} {into after : BookAndTrades}
    (h : MatcherState.runMatch order staged into = .ok (.overflowed left, after)) :
    ∃ fill, nextFill order after.book left = some fill ∧
      (positionsOf order fill after.positions = none ∨ checkedAddU64 after.tradesTotal 1 = none) := by
  unfold MatcherState.runMatch at h
  split at h
  · simp only [executeFok, bind_eq_ok] at h
    obtain ⟨_, -, h⟩ := h
    cases h
  · simp only [bind_eq_ok] at h
    obtain ⟨_, -, h⟩ := h
    exact executeLoop_overflowed _ _ _ _ _ h

end Matcher
end VerifiableExchange
