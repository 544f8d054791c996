import VerifiableExchange.Matcher.Refusal

/-!
# Trades — which trades a message makes

A trade is recorded where it is made, so the trades of a message are the traded rows among its
changes. Only an order that was accepted makes any, and it makes those of its fills.
-/

namespace VerifiableExchange
namespace Matcher

open Lib

/-! ## The traded rows of a record -/

/-- The row a change stores, when the change is a trade. -/
def Change.trade? : Change → Option TradeRow
  | .traded row => some row
  | _ => none

/-- The traded rows among these changes, in order. -/
def tradesOf (changes : List Change) : List TradeRow := changes.filterMap Change.trade?

/-- The traded rows of a record. -/
def recordedTrades (pending : Option (List Change)) : List TradeRow := tradesOf (pending.getD [])

/-- The trades one message makes. -/
def MatcherState.Effect.trades (e : MatcherState.Effect) : List TradeRow := tradesOf e.changes

/-- A change that is no trade adds none. -/
@[simp] theorem recordedTrades_record {pending : Option (List Change)} {change : Change}
    (h : change.trade? = none) :
    recordedTrades (record pending change) = recordedTrades pending := by
  cases pending with
  | none => rfl
  | some changes => simp [recordedTrades, record, tradesOf, h]

/-- A trade goes to the end of a record that is kept. -/
theorem recordedTrades_record_traded {pending : Option (List Change)} (h : pending.isSome = true)
    (row : TradeRow) :
    recordedTrades (record pending (.traded row)) = recordedTrades pending ++ [row] := by
  obtain ⟨changes, rfl⟩ := Option.isSome_iff_exists.1 h
  simp [recordedTrades, record, tradesOf, Change.trade?]

theorem trade?_makerChange (makerOrder : OrderId) (makerLeft : Int) :
    (makerChange makerOrder makerLeft).trade? = none := by
  unfold makerChange
  split_ifs <;> rfl

/-- What one fill adds to the record: its trade, then what it leaves of the maker. -/
theorem FillEvent.recordedTrades_result {order : IncomingOrder} {remaining : Int}
    {before : BookAndTrades} (e : FillEvent) (h : before.pending.isSome = true) :
    recordedTrades (e.result order remaining before).pending =
      recordedTrades before.pending ++
        [tradeOf order (e.planned remaining) (before.tradesTotal + 1)] := by
  rw [FillEvent.result, recordedTrades_record (trade?_makerChange _ _),
    recordedTrades_record_traded h]

theorem FillEvent.isSome_pending_result {order : IncomingOrder} {remaining : Int}
    {before : BookAndTrades} (e : FillEvent) (h : before.pending.isSome = true) :
    (e.result order remaining before).pending.isSome = true := by
  simp [FillEvent.result, record, h]

namespace MatcherState

/-! ## What each message records -/

/-- Closing orders records no trade. -/
theorem recordedTrades_closed (pending : Option (List Change)) (ids : List OrderId) :
    recordedTrades (pending.map (fun changes => changes ++ ids.map Change.orderClosed)) =
      recordedTrades pending := by
  cases pending with
  | none => rfl
  | some changes =>
      simp [recordedTrades, tradesOf, List.filterMap_append, List.filterMap_map, Change.trade?,
        Function.comp_def]

theorem Finished.recordedTrades_eq {s t : MatcherState} {order : IncomingOrder} {left : Int}
    {after : BookAndTrades} (h : Finished s order left after t) :
    recordedTrades t.pending = recordedTrades after.pending := by
  cases h with
  | overflowed => rfl
  | filled => rfl
  | rested => exact recordedTrades_record rfl
  | cancelled => rfl

/-- A message records the trades of its match, and nothing when no order matched. -/
theorem Dispatched.recordedTrades_eq {env : Primitives} {s t : MatcherState}
    {message : OrderMessage} (h : Dispatched env s message t) :
    recordedTrades t.pending = recordedTrades s.pending ∨
      ∃ m order left after, message = .new m ∧ s.Accepted m order ∧ s.Executed order left after ∧
        Finished s order left after t := by
  cases h with
  | refused | refusedOnBook | cancelIgnored | cancelRejected | ignored | ruled => exact .inl rfl
  | matched m order left after _ haccepted hexecuted hfinished =>
      exact .inr ⟨m, order, left, after, rfl, haccepted, hexecuted, hfinished⟩
  | cancelled | listed => exact .inl (recordedTrades_record rfl)
  | delisted _ _ _ _ _ cleared _ hcleared =>
      have hclosed : recordedTrades cleared.pending = recordedTrades s.pending := by
        rcases clearBook_eq_ok hcleared with ⟨-, rfl⟩ | ⟨_, _, -, -, rfl⟩
        · rfl
        · exact recordedTrades_closed s.pending _
      exact .inl ((recordedTrades_record rfl).trans hclosed)

theorem recordedTrades_consume {env : Primitives} {s t : MatcherState} {message : OrderMessage}
    {received : Option Bytes} (h : consume env s message received = .ok t) :
    recordedTrades t.pending = recordedTrades s.pending := by
  simp only [consume, bind_eq_ok] at h
  obtain ⟨_, -, h⟩ := h
  cases h
  exact recordedTrades_record rfl

/-! ## The trades of a message -/

/-- A match of an accepted order, with everything the engine did around it. -/
structure Traded (s : MatcherState) (m : NewMessage) (order : IncomingOrder) (left : Int)
    (after : BookAndTrades) (t : MatcherState) : Prop where
  accepted : s.Accepted m order
  executed : s.Executed order left after
  finished : Finished s order left after t

/-- An effect is read off an engine that started its record for the message. -/
theorem exists_apply_of_effect {env : Primitives} {s : MatcherState} {message : OrderMessage}
    {received : Option Bytes} {e : Effect} (h : s.effect env message received = .ok e) :
    ∃ after, s.observed.apply env message received = .ok after ∧ recorded after = e := by
  unfold effect at h
  cases hrun : s.observed.apply env message received with
  | error fault =>
      rw [hrun] at h
      cases h
  | ok after =>
      rw [hrun] at h
      cases h
      exact ⟨after, rfl, rfl⟩

/-- What a message did when it did not fail: an order was accepted and matched, or nothing traded. -/
theorem effect_eq_ok {env : Primitives} {s : MatcherState} (hs : s.WellFormed)
    {message : OrderMessage} {received : Option Bytes} {e : Effect}
    (h : s.effect env message received = .ok e) :
    e.trades = [] ∨
      ∃ m order left after t, message = .new m ∧ s.observed.Traded m order left after t ∧
        e.trades = recordedTrades after.pending := by
  obtain ⟨after, happly, rfl⟩ := exists_apply_of_effect h
  obtain ⟨-, t, hdispatch, hconsume⟩ := apply_eq_ok happly
  have htrades : (recorded after).trades = recordedTrades t.pending :=
    recordedTrades_consume hconsume
  rcases (dispatch_cases hs.observed.noEmptyLevel hdispatch).recordedTrades_eq with hsame |
    ⟨m, order, left, into, rfl, haccepted, hexecuted, hfinished⟩
  · exact Or.inl (htrades.trans hsame)
  · exact Or.inr ⟨m, order, left, into, t, rfl, ⟨haccepted, hexecuted, hfinished⟩,
      htrades.trans hfinished.recordedTrades_eq⟩

end MatcherState

end Matcher
end VerifiableExchange
