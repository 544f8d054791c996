import VerifiableExchange.Poller.TradeList
import VerifiableExchange.Poller.Tracked

/-!
# TradeLaw — what is answered over the record of a run

The trades table of a run is its whole record: processes only ever add to it. A page of trades and
a profit series read the memory window of one moment and the table of a later one, and answer as a
walk of the whole record at the first moment would.
-/

namespace VerifiableExchange

open Lib Matcher Store

namespace Matcher

variable {t t' : Tables} {run : Int} {rows rows' : List TradeRow}

/-- A table that has more trades has the earlier ones first. -/
theorem HasTrades.front (h : HasTrades t run rows) (h' : HasTrades t' run rows')
    (hgrown : Tables.Grown t t') : ∃ later, rows' = rows ++ later := by
  obtain ⟨more, hmore⟩ := hgrown run
  have hrows : ∀ rows : List TradeRow,
      (rows.map (fun row => (asI64 row.tradeId, row))).map Prod.snd = rows := by
    intro rows
    rw [List.map_map]
    exact List.map_id rows
  refine ⟨more.map Prod.snd, ?_⟩
  calc
    rows' = (Tables.rowsOf t'.trades run).map Prod.snd := by rw [h', hrows]
    _ = (Tables.rowsOf t.trades run).map Prod.snd ++ more.map Prod.snd := by
        rw [hmore, List.map_append]
    _ = rows ++ more.map Prod.snd := by rw [h, hrows]

namespace Totals

/-- What an engine keeps is what it keeps with the newest trades of its record in memory. -/
theorem Kept.window {t : Totals} (h : t.Kept rows) :
    t = t.withWindow rows (rows.length - tradeWindow) := by
  have htrades : t.trades = newest tradeWindow rows := by
    rw [h.replayed, trades_of]
  rw [withWindow, ← newest, ← htrades]

/-- An engine without trades answers an empty page. -/
theorem getTrades_nil {t : Totals} (h : t.Kept []) {symbols : SymbolRegistry}
    {history : TradeHistory} {params : TradesQuery}
    (hlisted : ∀ symbol, params.symbol = some symbol → symbols.contains symbol = true) :
    t.getTrades symbols history params = .ok (tailOf [] params) := by
  have hnone : t.trades = [] := by
    rw [h.replayed]
    rfl
  have hbelow : t.topUp history params [] = .ok [] := by
    unfold topUp
    split
    · rw [if_neg]
      rw [oldestHeld, hnone]
      exact fun hroom => absurd hroom.2 (by decide)
    · rfl
  rw [getTrades_listed hlisted, tailOf_eq_nil (fun row hrow => by cases hrow)]
  split_ifs
  · rfl
  · rw [hnone, List.reverse_nil, List.filter_nil, List.take_nil]
    exact bind_eq_ok.2 ⟨[], hbelow, rfl⟩

end Totals
end Matcher

namespace Poller

/-! ## The record of a run -/

/-- These trades are the record of the run: the table has each of them under its number. -/
structure RecordOf (tables : Tables) (run : Int) (rows : List TradeRow) : Prop where
  has : HasTrades tables run rows
  numbered : Numbered rows
  fits : (rows.length : Int) ≤ i64Max

variable {env : Primitives} {start : Tables} {disk : Disk} {run : Int}

theorem Backed.record (h : Backed env start disk) (run : Int) :
    ∃ rows, (disk.standing run).totals.Kept rows ∧ RecordOf disk.tables run rows := by
  obtain ⟨rows, hkept, hfits, hhas⟩ := (h.backs run).trades
  exact ⟨rows, hkept, hhas, hkept.numbered, hfits⟩

/-- Later processes keep every trade an earlier one stored, and number theirs on from there. -/
theorem trades_are_kept (env : Primitives)
    (earlier later : List (Lifetime × List (Fate Int StoreError))) (run : Int) :
    ∃ rows more, RecordOf (Disk.after env earlier).tables run rows ∧
      RecordOf (Disk.after env (earlier ++ later)).tables run (rows ++ more) := by
  have hearlier := backed_after env earlier
  have hlater : Backed env (Disk.after env earlier).tables (Disk.after env (earlier ++ later)) := by
    have hafter := hearlier.rebased.serve_all later
    unfold Disk.after at hafter ⊢
    rwa [List.foldl_append]
  obtain ⟨rows, -, hrows⟩ := hearlier.record run
  obtain ⟨all, -, hall⟩ := hlater.record run
  obtain ⟨more, rfl⟩ := hrows.has.front hall.has hlater.grown
  exact ⟨rows, more, hrows, hall⟩

/-! ## What is answered -/

/-- What the API answers from the state of one moment and the tables of another. -/
structure Answers (s : MatcherState) (rows : List TradeRow) (run : Int) (tables : Tables) :
    Prop where
  /-- A page of trades is the tail of the record. -/
  trades : ∀ params,
    (∀ symbol, params.symbol = some symbol → s.symbols.contains symbol = true) →
      s.totals.getTrades s.symbols ⟨some run, some (.ok tables)⟩ params =
        .ok (Totals.tailOf rows params)
  /-- The profit series of an account that traded is a full replay of the record. -/
  profits : ∀ order params, (∃ row ∈ rows, row.Involves params.account) →
    (∀ k ∈ pnlSampleIds rows.length (params.points.getD 200),
      Totals.SumsWithin params.account (rows.take k)) →
    s.totals.getPnl order
        ⟨some run, some ((Tables.rowsOf tables.trades run).map Prod.snd)⟩ params =
      .ok [fullReplay rows params]

theorem answers_of_record {s : MatcherState} {rows later : List TradeRow} {tables : Tables}
    (h : s.totals.Kept rows) (hrecord : RecordOf tables run (rows ++ later))
    (hlater : (Totals.of (rows ++ later)).Kept (rows ++ later)) : Answers s rows run tables := by
  by_cases hnil : rows = []
  · subst hnil
    refine ⟨fun params hlisted => Totals.getTrades_nil h hlisted, fun order params htraded => ?_⟩
    obtain ⟨row, hrow, -⟩ := htraded
    cases hrow
  · have hbelow : rows.length - tradeWindow < rows.length :=
      Nat.sub_lt (List.length_pos_of_ne_nil hnil) (by decide)
    constructor
    · intro params hlisted
      rw [h.window]
      exact (Totals.tradesLaw h hbelow hrecord.has hrecord.numbered hrecord.fits s.symbols).tail
        params hlisted
    · intro order params htraded hsums
      have hstored : (Tables.rowsOf tables.trades run).map Prod.snd = rows ++ later := by
        rw [hrecord.has, List.map_map]
        exact List.map_id _
      rw [h.window, hstored]
      refine ((profitLaw h hbelow).series order _ params ?_ htraded hsums _).2 ⟨.inr ?_, rfl⟩
      · intro stored hsome
        cases hsome
        exact ⟨later, (rows ++ later).length, (List.take_length ..).symm, hlater⟩
      · refine ⟨run, _, rfl, ?_⟩
        rw [List.length_append]
        exact (Nat.sub_le _ _).trans (Nat.le_add_right _ _)

/-- Whatever processes wrote the database before, a page that is read while the poller goes on is
answered over the whole record of the moment its memory window was read. -/
theorem answers_over_the_record (env : Primitives)
    (earlier : List (Lifetime × List (Fate Int StoreError))) (life : Lifetime) :
    Durable.Ensures (life.live env) (Disk.after env earlier)
      (Backed env (Disk.after env earlier).tables) (fun p disk =>
        ∀ run, p.published.runId = some run → ∃ rows, RecordOf disk.tables run rows ∧
          ∀ turns : List (Answer × Bool),
            Durable.Ensures (turns.foldlM (fun p turn =>
                p.poll env life.sign life.settings.pid turn.1 turn.2) p) disk
              (fun disk' => Answers p.published.matcher rows run disk'.tables)
              (fun _ _ => True)) := by
  refine .mono (tracked_live (backed_after env earlier).rebased) (fun p disk h run hname => ?_)
  obtain ⟨rows, hkept, hrecord⟩ := h.base.record run
  have hserved : p.published.matcher.totals.Kept rows := by
    rw [(h.engine run hname).market.totals]
    exact hkept
  refine ⟨rows, hrecord, fun turns => ?_⟩
  have hturns : Tracked env disk.tables p disk := { h with base := h.base.rebased }
  refine .weaken (tracked_turns hturns) (fun disk' hbase => ?_) (fun _ _ _ => trivial)
  obtain ⟨all, hall, hrecord'⟩ := hbase.record run
  obtain ⟨later, rfl⟩ := hrecord.has.front hrecord'.has hbase.grown
  exact answers_of_record hserved hrecord' (hall.replayed ▸ hall)

end Poller
end VerifiableExchange
