import VerifiableExchange.Matcher.CandleHistory
import VerifiableExchange.Poller.Restore

/-!
# Charts — the chart view of a run, across restarts

A started engine replays its stored trades into an empty view, and goes on recording the new ones.
So whatever it was started from, its view is the one all its trades give.
-/

namespace VerifiableExchange
namespace Matcher

open Lib

namespace Charted

/-- Rebuilds an engine and its chart view. The stored trades pass both, one at a time. -/
def restore (env : Primitives) (snapshot : Store.Snapshot) (trades : List TradeRow) :
    Except MatcherState.NotResumed Charted := do
  let engine ← MatcherState.restore env snapshot trades
  return { engine := engine, candles := Chart.replay trades }

/-- The engines that run with a chart view, from a new run or a stored one, and their trades. -/
inductive Recorded (env : Primitives) : Charted → List TradeRow → Prop
  | genesis {genesis : ExecutionGenesis} {session pubkey : Option String} {recording : Bool}
      {s : MatcherState} (h : genesis.opening session pubkey recording = .ok s) :
      Recorded env ⟨s, .default⟩ []
  | restored {snapshot : Store.Snapshot} {stored : List TradeRow} {c : Charted}
      (h : restore env snapshot stored = .ok c) : Recorded env c stored
  | applied {c c' : Charted} {rows : List TradeRow} {message : OrderMessage}
      {received : Option Bytes} {done : MatcherState.Effect} (hc : Recorded env c rows)
      (h : c.apply env message received = .ok c')
      (hdone : c.engine.effect env message received = .ok done) :
      Recorded env c' (rows ++ done.trades)

/-- Nothing but a trade moves the view. -/
theorem foldl_follow (changes : List Change) (cache : CandleCache) :
    changes.foldl CandleCache.follow cache = (tradesOf changes).foldl Chart.recordRow cache := by
  induction changes generalizing cache with
  | nil => rfl
  | cons change rest ih =>
      rw [List.foldl_cons, ih]
      cases change <;> rfl

/-- The view is what all trades of the run give. -/
theorem Recorded.candles_eq {env : Primitives} {c : Charted} {rows : List TradeRow}
    (h : Recorded env c rows) : c.candles = Chart.replay rows := by
  induction h with
  | genesis h => rfl
  | restored h =>
      simp only [restore, bind_eq_ok] at h
      obtain ⟨engine, -, h⟩ := h
      cases h
      rfl
  | applied hc h hdone ih =>
      obtain ⟨done, -, heffect, hcandles⟩ := apply_eq_ok h
      cases hdone.symm.trans heffect
      rw [hcandles, ih, foldl_follow, Chart.replay, Chart.replay, List.foldl_append]
      rfl

/-- The candles of every sequence of trades, and of every run, meet their definition. -/
theorem candles_meet_definition (env : Primitives) :
    (∀ rows, Chart.Meets (Chart.replay rows) rows) ∧
      (∀ stored later, Chart.Meets (later.foldl Chart.recordRow (Chart.replay stored))
        (stored ++ later)) ∧
      ∀ c rows, Recorded env c rows → Chart.Meets c.candles rows := by
  refine ⟨Chart.meets_replay, fun stored later => ?_, fun c rows h => ?_⟩
  · have hmeets := Chart.meets_replay (stored ++ later)
    rwa [Chart.replay, List.foldl_append] at hmeets
  · rw [h.candles_eq]
    exact Chart.meets_replay rows

end Charted

end Matcher
end VerifiableExchange
