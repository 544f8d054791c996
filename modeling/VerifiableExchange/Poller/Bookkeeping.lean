import VerifiableExchange.Lib.Window
import VerifiableExchange.Matcher.Priority
import VerifiableExchange.Poller.Resume

/-!
# Bookkeeping — what an engine keeps of its trades

Positions, totals per symbol, the window of newest trades and the trade count are kept trade by
trade. A match keeps them as a restart does, so at every point of a run they are what the run's
trades give, replayed in order from nothing.
-/

namespace VerifiableExchange
namespace Matcher

open Lib

/-! ## The kept parts -/

/-- The parts of an engine only trades change. -/
structure Totals where
  positions : SortedMap AccountKey Position
  aggregates : SortedMap String SymbolAgg
  trades : List TradeRow
  tradesTotal : Nat

namespace Totals

def empty : Totals := ⟨.empty, .empty, [], 0⟩

/-- Both sides of a trade, the maker's first. -/
def legs (row : TradeRow) : List (AccountId × Side) :=
  [(row.makerAccount, row.takerSide.opposite), (row.takerAccount, row.takerSide)]

/-- The parts after one more trade. -/
def replay (t : Totals) (row : TradeRow) : Totals where
  positions := (legs row).foldl (MatcherState.replayFill row) t.positions
  aggregates :=
    let agg := t.aggregates.getD row.symbol .default
    t.aggregates.insert row.symbol
      { lastTradeCents := row.priceCents
        volumeTenths := saturatingAdd agg.volumeTenths row.qtyTenths
        tradeCount := saturatingAddU64 agg.tradeCount 1 }
  trades := pushCapped tradeWindow t.trades row
  tradesTotal := saturatingAddU64 t.tradesTotal 1

/-- The parts after these trades, from nothing. -/
def of (rows : List TradeRow) : Totals := rows.foldl replay empty

theorem of_concat (rows : List TradeRow) (row : TradeRow) :
    of (rows ++ [row]) = (of rows).replay row := List.foldl_append

end Totals

def BookAndTrades.totals (into : BookAndTrades) : Totals :=
  ⟨into.positions, into.aggregates, into.trades, into.tradesTotal⟩

def MatcherState.totals (s : MatcherState) : Totals :=
  ⟨s.positions, s.aggregates, s.trades, s.tradesTotal⟩

/-! ## What the trades of a run are -/

/-- A trade at a price and a quantity the grid has. -/
structure TradeRow.OnGrid (row : TradeRow) : Prop where
  price : 0 < row.priceCents ∧ row.priceCents ≤ maxGridUnits
  quantity : 0 < row.qtyTenths ∧ row.qtyTenths ≤ maxGridUnits

/-- The parts are kept of exactly these trades, numbered from one. -/
structure Totals.Kept (t : Totals) (rows : List TradeRow) : Prop where
  replayed : t = .of rows
  numbered : rows.map TradeRow.tradeId = List.range' 1 rows.length
  onGrid : ∀ row ∈ rows, row.OnGrid
  count : t.tradesTotal = rows.length

namespace Totals

theorem kept_empty : Kept empty [] where
  replayed := rfl
  numbered := rfl
  onGrid := List.forall_mem_nil _
  count := rfl

/-- One more trade with the next number. -/
theorem Kept.replay {t : Totals} {rows : List TradeRow} (h : Kept t rows) {row : TradeRow}
    (hid : row.tradeId = t.tradesTotal + 1) (hroom : t.tradesTotal + 1 ≤ u64Max)
    (hgrid : row.OnGrid) : Kept (t.replay row) (rows ++ [row]) where
  replayed := by rw [of_concat, h.replayed]
  numbered := by
    rw [List.map_append, h.numbered, List.length_append, List.length_singleton, List.range'_concat,
      List.map_singleton, hid, h.count, Nat.one_mul, Nat.add_comm]
  onGrid := by
    intro r hr
    rcases List.mem_append.1 hr with hr | hr
    · exact h.onGrid r hr
    · rw [List.mem_singleton.1 hr]
      exact hgrid
  count := by
    have hnext : (t.replay row).tradesTotal = t.tradesTotal + 1 := min_eq_left hroom
    rw [hnext, h.count, List.length_append, List.length_singleton]

end Totals

/-! ## A match keeps them -/

/-- The positions a fill stores are those of its two legs. -/
theorem positionsAfter_eq {order : IncomingOrder} {fill : PlannedFill} {tradeId : Nat}
    {positions : SortedMap AccountKey Position} {next : Position × Position}
    (h : positionsOf order fill positions = some next) :
    positionsAfter positions order fill next.1 next.2 =
      (Totals.legs (tradeOf order fill tradeId)).foldl
        (MatcherState.replayFill (tradeOf order fill tradeId)) positions := by
  simp only [positionsOf, Position.afterBothFills, Option.bind_eq_bind, Option.bind_eq_some_iff,
    Option.pure_def, Option.some.injEq] at h
  obtain ⟨makerNext, hmaker, takerNext, htaker, rfl⟩ := h
  simp only [Totals.legs, List.foldl_cons, List.foldl_nil, MatcherState.replayFill, tradeOf, hmaker,
    Option.getD_some, positionsAfter]
  by_cases hself : fill.makerAccount = order.account
  · -- The taker's fill of a self-trade starts from the maker's.
    simp only [hself, decide_true, if_true] at htaker
    rw [if_neg (not_not.2 hself), hself, SortedMap.getD_insert, if_pos rfl, htaker,
      Option.getD_some]
    refine SortedMap.ext (fun key => ?_)
    rw [SortedMap.get?_insert, SortedMap.get?_insert, SortedMap.get?_insert]
    split_ifs <;> rfl
  · have hkeys : Ledger.accountKey order.account order.symbol ≠
        Ledger.accountKey fill.makerAccount order.symbol :=
      fun heq => hself (accountKey_inj.1 heq).symm
    simp only [hself, decide_false, Bool.false_eq_true, if_false] at htaker
    rw [if_pos hself, SortedMap.getD_insert, if_neg hkeys, htaker, Option.getD_some]

theorem FillEvent.Enabled.totals_result {order : IncomingOrder} {remaining : Int}
    {before : BookAndTrades} {e : FillEvent} (h : e.Enabled order remaining before) :
    (e.result order remaining before).totals =
      before.totals.replay (tradeOf order (e.planned remaining) (before.tradesTotal + 1)) := by
  have hpositions := @positionsAfter_eq order (e.planned remaining) (before.tradesTotal + 1) _ _
    h.booked
  have hcount : before.tradesTotal + 1 = saturatingAddU64 before.tradesTotal 1 :=
    (min_eq_left h.counted).symm
  simp only [BookAndTrades.totals, FillEvent.result, Totals.replay, hpositions, ← hcount]
  rfl

/-- A fill of a sound book is at a price and a quantity of the grid. -/
theorem MatchInv.onGrid {symbols : SymbolRegistry} {last : OrderId} {books : Books}
    {order : IncomingOrder} {remaining : Int} {into : BookAndTrades} {e : FillEvent}
    (h : MatchInv symbols last books order remaining into)
    (enabled : e.Enabled order remaining into) (tradeId : Nat) :
    (tradeOf order (e.planned remaining) tradeId).OnGrid := by
  have hlevel : levelAt (books.insert order.symbol into.book) order.symbol order.side.opposite
      e.price = some (e.maker :: e.rest) := levelAt_eq_some.2 ⟨into.book, by simp, enabled.level⟩
  have hsound := h.books.sound hlevel e.maker List.mem_cons_self
  have hwanted := enabled.wanted
  have hpos := hsound.qty_pos
  have hmax := hsound.qty_le
  refine ⟨⟨hsound.price_pos, hsound.price_le⟩, ?_⟩
  show 0 < min remaining e.maker.qtyTenths ∧ min remaining e.maker.qtyTenths ≤ maxGridUnits
  omega

/-- What a match keeps and records of the trades it made. -/
structure KeptAfter (rows : List TradeRow) (before into : BookAndTrades) (made : List TradeRow) :
    Prop where
  kept : into.totals.Kept (rows ++ made)
  records : into.pending.isSome = before.pending.isSome
  recorded : before.pending.isSome = true →
    recordedTrades into.pending = recordedTrades before.pending ++ made

theorem Fills.keptAfter {symbols : SymbolRegistry} {last : OrderId} {books : Books}
    {order : IncomingOrder} {remaining left : Int} {before after : BookAndTrades}
    {rows : List TradeRow} (hfills : Fills order remaining before left after)
    (hbooks : MatchInv symbols last books order remaining before) (h : before.totals.Kept rows) :
    ∃ made, KeptAfter rows before after made := by
  have hboth := hfills.invariant
    (P := fun remaining into => MatchInv symbols last books order remaining into ∧
      ∃ made, KeptAfter rows before into made) ?_ ⟨hbooks, [], ?_⟩
  · exact hboth.2
  · rintro remaining into e enabled ⟨hinto, made, hmade⟩
    refine ⟨hinto.fill enabled,
      made ++ [tradeOf order (e.planned remaining) (into.tradesTotal + 1)], ?_, ?_, ?_⟩
    · rw [enabled.totals_result, ← List.append_assoc]
      exact hmade.kept.replay rfl enabled.counted (hinto.onGrid enabled _)
    · rw [← hmade.records]
      exact Option.isSome_map.trans Option.isSome_map
    · intro hstart
      have hkept : into.pending.isSome = true := hmade.records.trans hstart
      rw [e.recordedTrades_result hkept, hmade.recorded hstart, List.append_assoc]
  · refine ⟨?_, rfl, fun _ => (List.append_nil _).symm⟩
    rw [List.append_nil]
    exact h

/-! ## A run keeps them -/

namespace MatcherState

/-- The engine keeps what these trades give, and where it keeps a record they are its trades. -/
structure KeepsTrades (s : MatcherState) (rows : List TradeRow) : Prop where
  kept : s.totals.Kept rows
  recorded : s.pending.isSome = true → recordedTrades s.pending = rows

theorem Finished.totals_eq {s t : MatcherState} {order : IncomingOrder} {left : Int}
    {after : BookAndTrades} (h : Finished s order left after t) :
    t.totals = after.totals ∧ t.pending.isSome = after.pending.isSome := by
  cases h with
  | overflowed => exact ⟨rfl, rfl⟩
  | filled => exact ⟨rfl, rfl⟩
  | rested => exact ⟨rfl, Option.isSome_map⟩
  | cancelled => exact ⟨rfl, rfl⟩

variable {env : Primitives} {s t : MatcherState} {rows : List TradeRow}

/-- What trades nothing keeps the same trades. -/
theorem KeepsTrades.of_same (h : s.KeepsTrades rows) (htotals : t.totals = s.totals)
    (hrecord : t.pending.isSome = s.pending.isSome)
    (htrades : recordedTrades t.pending = recordedTrades s.pending) : t.KeepsTrades rows where
  kept := by
    rw [htotals]
    exact h.kept
  recorded := by
    rw [hrecord, htrades]
    exact h.recorded

theorem KeepsTrades.dispatch (h : s.KeepsTrades rows) (hs : s.WellFormed) {message : OrderMessage}
    (hdispatch : dispatch env s message = .ok t) : ∃ made, t.KeepsTrades (rows ++ made) := by
  have hsame : t.totals = s.totals → t.pending.isSome = s.pending.isSome →
      recordedTrades t.pending = recordedTrades s.pending →
      ∃ made, t.KeepsTrades (rows ++ made) := by
    intro htotals hrecord htrades
    refine ⟨[], ?_⟩
    rw [List.append_nil]
    exact h.of_same htotals hrecord htrades
  cases dispatch_cases hs.noEmptyLevel hdispatch with
  | refused | refusedOnBook | cancelIgnored | cancelRejected | ignored | ruled =>
      exact hsame rfl rfl rfl
  | cancelled => exact hsame rfl Option.isSome_map (recordedTrades_record rfl)
  | listed => exact hsame rfl Option.isSome_map (recordedTrades_record rfl)
  | delisted m key count hkey listing cleared hlisting hcleared =>
      rcases clearBook_eq_ok hcleared with ⟨-, rfl⟩ | ⟨_, _, -, -, rfl⟩
      · exact hsame rfl Option.isSome_map (recordedTrades_record rfl)
      · refine hsame rfl ?_ ((recordedTrades_record rfl).trans (recordedTrades_closed s.pending _))
        exact Option.isSome_map.trans Option.isSome_map
  | matched m order left after t haccepted hexecuted hfinished =>
      -- The match starts from what the engine keeps, with the order's funds set aside.
      obtain ⟨reserved, -, hfills⟩ := hexecuted.filled
      obtain ⟨made, hmade⟩ := hfills.keptAfter (hs.matchInv haccepted) h.kept
      obtain ⟨htotals, hpending⟩ := hfinished.totals_eq
      refine ⟨made, by rw [htotals]; exact hmade.kept, fun hsome => ?_⟩
      have hstart : s.pending.isSome = true := hmade.records.symm.trans (hpending.symm.trans hsome)
      rw [hfinished.recordedTrades_eq, hmade.recorded hstart]
      exact congrArg (· ++ made) (h.recorded hstart)

/-- Every run keeps what its trades give. -/
theorem Reachable.keepsTrades (hs : Reachable env s) : ∃ rows, s.KeepsTrades rows := by
  induction hs with
  | genesis h =>
      obtain ⟨_, -, -, rfl⟩ := ExecutionGenesis.opening_eq_ok h
      refine ⟨[], Totals.kept_empty, fun _ => ?_⟩
      dsimp only
      split_ifs <;> rfl
  | applied hs happly ih =>
      obtain ⟨rows, hrows⟩ := ih
      obtain ⟨-, t, hdispatch, hconsume⟩ := apply_eq_ok happly
      obtain ⟨made, hmade⟩ := hrows.dispatch hs.wellFormed hdispatch
      refine ⟨rows ++ made, hmade.of_same ?_ ?_ (recordedTrades_consume hconsume)⟩
      · simp only [consume, bind_eq_ok] at hconsume
        obtain ⟨_, -, hconsume⟩ := hconsume
        cases hconsume
        rfl
      · simp only [consume, bind_eq_ok] at hconsume
        obtain ⟨_, -, hconsume⟩ := hconsume
        cases hconsume
        exact Option.isSome_map

theorem totals_foldl_replayTrade (s : MatcherState) (rows : List TradeRow) :
    (rows.foldl replayTrade s).totals = rows.foldl Totals.replay s.totals :=
  (List.foldl_hom totals (fun _ _ => rfl)).symm

theorem totals_foldl_replaceOrder (s : MatcherState) (orders : List OrderRow) :
    (orders.foldl replaceOrder s).totals = s.totals := by
  induction orders generalizing s with
  | nil => rfl
  | cons _ orders ih => exact ih _

/-- A restart replays the stored trades into the same parts. -/
theorem totals_of_restore {snapshot : Store.Snapshot} {stored : List TradeRow}
    (h : restore env snapshot stored = .ok s) : s.totals = .of stored := by
  obtain ⟨limits, mids, ledger, -, rfl⟩ := restore_eq_ok h
  have hstart : (snapshot.orders.foldl replaceOrder
      (restoreCounters env snapshot limits mids)).totals = .empty :=
    totals_foldl_replaceOrder _ _
  exact (totals_foldl_replayTrade _ stored).trans (congrArg (stored.foldl Totals.replay) hstart)

end MatcherState

/-! ## What the kept parts are -/

namespace Totals

/-- The price of a symbol's newest trade. -/
def newestPrice (rows : List TradeRow) (symbol : String) : Option Int :=
  (rows.filter (fun row => row.symbol = symbol)).getLast?.map TradeRow.priceCents

/-- That price, zero before the symbol's first trade. -/
def lastPrice (rows : List TradeRow) (symbol : String) : Int := (newestPrice rows symbol).getD 0

theorem newestPrice_concat (rows : List TradeRow) (row : TradeRow) (symbol : String) :
    newestPrice (rows ++ [row]) symbol =
      if row.symbol = symbol then some row.priceCents else newestPrice rows symbol := by
  unfold newestPrice
  rw [List.filter_append]
  split_ifs with hsymbol
  · have hone : [row].filter (fun r => r.symbol = symbol) = [row] :=
      List.filter_cons_of_pos (decide_eq_true hsymbol)
    rw [hone, List.getLast?_concat, Option.map_some]
  · have hnone : [row].filter (fun r => r.symbol = symbol) = [] :=
      List.filter_cons_of_neg (by simpa using hsymbol)
    rw [hnone, List.append_nil]

theorem lastTradeCents_of (rows : List TradeRow) (symbol : String) :
    ((of rows).aggregates.get? symbol).map SymbolAgg.lastTradeCents = newestPrice rows symbol := by
  induction rows using List.reverseRecOn with
  | nil => rfl
  | append_singleton rows row ih =>
      rw [of_concat, newestPrice_concat, Totals.replay, SortedMap.get?_insert]
      by_cases hsymbol : row.symbol = symbol
      · rw [if_pos hsymbol, if_pos hsymbol.symm, Option.map_some]
      · rw [if_neg hsymbol, if_neg (fun heq => hsymbol heq.symm), ih]

theorem pushCapped_newest {α : Type} {cap : Nat} (hcap : 0 < cap) (all : List α) (a : α) :
    pushCapped cap (newest cap all) a = newest cap (all ++ [a]) := by
  have hfull : cap ≤ (newest cap all).length ↔ (newest cap all).length = cap := by
    rw [length_newest]
    omega
  rw [newest_concat hcap, pushCapped]
  simp only [hfull]

theorem trades_of (rows : List TradeRow) : (of rows).trades = newest tradeWindow rows := by
  induction rows using List.reverseRecOn with
  | nil => rfl
  | append_singleton rows row ih =>
      rw [of_concat, Totals.replay, ih]
      exact pushCapped_newest (by decide) rows row

end Totals

end Matcher
end VerifiableExchange
