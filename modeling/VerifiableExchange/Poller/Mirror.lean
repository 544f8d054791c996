import VerifiableExchange.Poller.Delta
import VerifiableExchange.Poller.PnlReads
import VerifiableExchange.Store.Claims

/-!
# Mirror — the tables hold the rows of a run

The statement of each change edits the tables as the change edits the rows of its run, so a batch
that went in leaves the tables with the rows its changes add up to. No statement takes a stored
trade away.
-/

namespace VerifiableExchange
namespace Store

open Lib Matcher

/-! ## Keys -/

theorem asI64_of_le {value : Nat} (h : (value : Int) ≤ i64Max) : asI64 value = value := by
  unfold i64Max at h
  unfold asI64
  omega

/-- Two ids a column can hold are stored under different keys. -/
theorem asI64_inj {a b : Nat} (ha : a ≤ u64Max) (hb : b ≤ u64Max) (h : asI64 a = asI64 b) :
    a = b := by
  unfold u64Max at ha hb
  unfold asI64 at h
  omega

namespace Tables

/-! ## The rows of one run -/

/-- The tables hold these rows under this run. -/
structure Holds (t : Tables) (run : Int) (r : RunRows) : Prop where
  orders : ∀ id ≤ u64Max, t.openOrders.get? (toLex (run, asI64 id)) = r.orders id
  keyed : ∀ {key row}, t.openOrders.get? (toLex (run, key)) = some row → key = asI64 row.orderId
  named : ∀ {key row}, t.openOrders.get? (toLex (run, key)) = some row → row.orderId ≤ u64Max
  listings : ∀ symbol, t.listings.get? (toLex (run, symbol)) = r.listings symbol
  trades : rowsOf t.trades run = r.trades.map (fun row => (asI64 row.tradeId, row))

/-- One table has every trade of another, and more behind them. -/
def Grown (t t' : Tables) : Prop :=
  ∀ run, ∃ more, rowsOf t'.trades run = rowsOf t.trades run ++ more

theorem Grown.refl (t : Tables) : Grown t t := fun _ => ⟨[], (List.append_nil _).symm⟩

theorem Grown.trans {t u v : Tables} (h : Grown t u) (h' : Grown u v) : Grown t v := by
  intro run
  obtain ⟨more, hmore⟩ := h run
  obtain ⟨later, hlater⟩ := h' run
  exact ⟨more ++ later, by rw [hlater, hmore, List.append_assoc]⟩

namespace Holds

variable {t t' : Tables} {run : Int} {r : RunRows}

/-- A statement that leaves the rows of the run leaves what the tables hold of it. -/
theorem of_untouched (h : Holds t run r) (hrows : Untouched t t' run) : Holds t' run r where
  orders id hid := (hrows.openOrders _).trans (h.orders id hid)
  keyed hrow := h.keyed ((hrows.openOrders _).symm.trans hrow)
  named hrow := h.named ((hrows.openOrders _).symm.trans hrow)
  listings symbol := (hrows.listings symbol).trans (h.listings symbol)
  trades := (rowsOf_congr hrows.trades).trans h.trades

/-- A run without rows holds none. -/
theorem of_unclaimed (h : Unclaimed t run) : Holds t run .empty where
  orders id _ := h.openOrders _
  keyed hrow := by
    rw [h.openOrders] at hrow
    cases hrow
  named hrow := by
    rw [h.openOrders] at hrow
    cases hrow
  listings := h.listings
  trades := rowsOf_eq_nil h.trades

/-- A row of the open orders is put or taken away under the key of its order. -/
theorem of_order (h : Holds t run r) {id : OrderId} (hid : id ≤ u64Max) {row : Option OrderRow}
    (hrow : ∀ found, row = some found → found.orderId = id)
    {table : SortedMap (RunKey Int) OrderRow}
    (htable : ∀ key, table.get? (toLex (run, key)) =
      if key = asI64 id then row else t.openOrders.get? (toLex (run, key))) :
    Holds { t with openOrders := table } run
      { r with orders := Function.update r.orders id row } where
  orders other hother := by
    rw [htable]
    by_cases hsame : other = id
    · subst hsame
      rw [if_pos rfl]
      exact (Function.update_self other row r.orders).symm
    · rw [if_neg (fun heq => hsame (asI64_inj hother hid heq)), h.orders other hother]
      exact (Function.update_of_ne hsame ..).symm
  keyed {key found} hfound := by
    rw [htable] at hfound
    split_ifs at hfound with hkey
    · rw [hkey, hrow found hfound]
    · exact h.keyed hfound
  named {key found} hfound := by
    rw [htable] at hfound
    split_ifs at hfound
    · rw [hrow found hfound]
      exact hid
    · exact h.named hfound
  listings := h.listings
  trades := h.trades

theorem get?_key_insert {K V : Type} [LinearOrder K] (table : SortedMap (RunKey K) V) (k : K)
    (v : V) (q : K) : (table.insert (toLex (run, k)) v).get? (toLex (run, q)) =
      if q = k then some v else table.get? (toLex (run, q)) := by
  rw [SortedMap.get?_insert]
  by_cases hq : q = k
  · rw [hq, if_pos rfl, if_pos rfl]
  · rw [if_neg hq, if_neg (fun heq => hq (congrArg (fun key => (ofLex key).2) heq))]

theorem get?_key_erase {K V : Type} [LinearOrder K] (table : SortedMap (RunKey K) V) (k q : K) :
    (table.erase (toLex (run, k))).get? (toLex (run, q)) =
      if q = k then none else table.get? (toLex (run, q)) := by
  rw [SortedMap.get?_erase]
  by_cases hq : q = k
  · rw [hq, if_pos rfl, if_pos rfl]
  · rw [if_neg hq, if_neg (fun heq => hq (congrArg (fun key => (ofLex key).2) heq))]

/-- The row of a market. -/
theorem of_listing (h : Holds t run r) {symbol : String} {row : ListingRow} :
    Holds { t with listings := t.listings.insert (toLex (run, symbol)) row } run
      { r with listings := Function.update r.listings symbol (some row) } where
  orders := h.orders
  keyed := h.keyed
  named := h.named
  listings q := by
    rw [get?_key_insert]
    by_cases hq : q = symbol
    · rw [hq, if_pos rfl]
      exact (Function.update_self symbol (some row) r.listings).symm
    · rw [if_neg hq, h.listings q]
      exact (Function.update_of_ne hq ..).symm
  trades := h.trades

/-- The next trade goes behind the others. -/
theorem of_trade (h : Holds t run r) {row : TradeRow} (hrows : Numbered (r.trades ++ [row]))
    (hfits : (row.tradeId : Int) ≤ i64Max) :
    Holds { t with trades := t.trades.insert (toLex (run, asI64 row.tradeId)) row } run
      { r with trades := r.trades ++ [row] } where
  orders := h.orders
  keyed := h.keyed
  named := h.named
  listings := h.listings
  trades := by
    have hid := hrows.id_of_append
    have hbelow : ∀ e ∈ rowsOf t.trades run, e.1 < asI64 row.tradeId := by
      intro e he
      rw [h.trades] at he
      obtain ⟨other, hother, rfl⟩ := List.mem_map.1 he
      have hfront : other ∈ (r.trades ++ [row]).take r.trades.length := by simpa using hother
      have hle := hrows.le_of_mem_take hfront
      have hlt : other.tradeId < row.tradeId := by omega
      rw [asI64_of_le hfits, asI64_of_le (by omega)]
      exact Nat.cast_lt.2 hlt
    rw [rowsOf_insert_last hbelow, h.trades, List.map_append]
    rfl

/-- One statement of a batch edits the rows as its change does. -/
theorem writeChange (h : Holds t run r) {change : Change} (hids : ∀ id ∈ change.order?, id ≤ u64Max)
    (htrade : ∀ row ∈ change.trade?, Numbered (r.trades ++ [row]) ∧ (row.tradeId : Int) ≤ i64Max)
    (hwrite : Tables.writeChange run t change = .ok t') : Holds t' run (r.write change) := by
  cases change with
  | executionState execution =>
      simp only [Tables.writeChange] at hwrite
      split at hwrite
      all_goals
        cases hwrite
        exact ⟨h.orders, h.keyed, h.named, h.listings, h.trades⟩
  | orderRested row =>
      simp only [Tables.writeChange, bind_eq_ok] at hwrite
      obtain ⟨_, -, hwrite⟩ := hwrite
      cases hwrite
      exact h.of_order (hids row.orderId rfl) (fun found hfound => by cases hfound; rfl)
        (get?_key_insert _ _ _)
  | orderReduced orderId qtyTenths =>
      have hid : orderId ≤ u64Max := hids orderId rfl
      have hget := h.orders orderId hid
      simp only [Tables.writeChange] at hwrite
      split at hwrite
      · rename_i row hrow
        simp only [bind_eq_ok] at hwrite
        obtain ⟨_, -, hwrite⟩ := hwrite
        cases hwrite
        have hname : row.orderId = orderId :=
          (asI64_inj hid (h.named hrow) (h.keyed hrow)).symm
        have hsame : r.write (.orderReduced orderId qtyTenths) = { r with
            orders := Function.update r.orders orderId
              (some { row with qtyTenths := qtyTenths }) } := by
          simp only [RunRows.write]
          rw [← hget, hrow]
          rfl
        rw [hsame]
        exact h.of_order hid (fun found hfound => by cases hfound; exact hname)
          (get?_key_insert _ _ _)
      · rename_i hnone
        cases hwrite
        have hsame : r.write (.orderReduced orderId qtyTenths) = r := by
          simp only [RunRows.write]
          rw [← hget, hnone, Option.map_none]
          have hnone' : r.orders orderId = none := hget.symm.trans hnone
          rw [← hnone', Function.update_eq_self]
        rw [hsame]
        exact h
  | orderClosed orderId =>
      cases hwrite
      exact h.of_order (hids orderId rfl) (fun found hfound => by cases hfound)
        (get?_key_erase _ _)
  | traded row =>
      simp only [Tables.writeChange, bind_eq_ok] at hwrite
      obtain ⟨_, -, hwrite⟩ := hwrite
      cases hwrite
      obtain ⟨hrows, hfits⟩ := htrade row rfl
      exact h.of_trade hrows hfits
  | symbolListed row =>
      simp only [Tables.writeChange, bind_eq_ok] at hwrite
      obtain ⟨_, -, hwrite⟩ := hwrite
      cases hwrite
      exact h.of_listing
  | symbolDelisted symbol =>
      have hget := h.listings symbol
      simp only [Tables.writeChange] at hwrite
      split at hwrite
      · rename_i row hrow
        cases hwrite
        have hsame : r.write (.symbolDelisted symbol) = { r with
            listings := Function.update r.listings symbol
              (some { row with listed := false }) } := by
          simp only [RunRows.write]
          rw [← hget, hrow]
          rfl
        rw [hsame]
        exact h.of_listing
      · rename_i hnone
        cases hwrite
        have hsame : r.write (.symbolDelisted symbol) = r := by
          have hnone' : r.listings symbol = none := hget.symm.trans hnone
          simp only [RunRows.write, hnone', Option.map_none]
          rw [← hnone', Function.update_eq_self]
        rw [hsame]
        exact h
  | consumed message =>
      cases hwrite
      exact ⟨h.orders, h.keyed, h.named, h.listings, h.trades⟩

end Holds

/-! ## A batch -/

theorem trades_foldl_write (changes : List Change) (r : RunRows) :
    (changes.foldl RunRows.write r).trades = r.trades ++ tradesOf changes := by
  induction changes generalizing r with
  | nil => exact (List.append_nil _).symm
  | cons change changes ih =>
      rw [List.foldl_cons, ih]
      cases change with
      | traded row => exact List.append_assoc r.trades [row] (tradesOf changes)
      | executionState | orderRested | orderReduced | orderClosed | consumed | symbolListed |
        symbolDelisted => rfl

variable {t t' : Tables} {run : Int} {r : RunRows}

/-- The statements of a batch edit the rows as its changes do, one after the other. -/
theorem Holds.foldlM_writeChange (hfits : (r.trades.length : Int) ≤ i64Max) :
    ∀ {changes : List Change} {t : Tables} {before : RunRows}, Holds t run before →
      IdsFit (some changes) → changes.foldl RunRows.write before = r → Numbered r.trades →
      changes.foldlM (Tables.writeChange run) t = .ok t' → Holds t' run r
  | [], t, before, h, _, hrows, _, hwrite => by
      cases hwrite
      cases hrows
      exact h
  | change :: changes, t, before, h, hids, hrows, hnumbered, hwrite => by
      rw [List.foldlM_cons, bind_eq_ok] at hwrite
      obtain ⟨u, hu, hwrite⟩ := hwrite
      refine Holds.foldlM_writeChange hfits (h.writeChange (hids change List.mem_cons_self)
        (fun row hrow => ?_) hu) (fun other hother => hids other (List.mem_cons_of_mem _ hother))
          hrows hnumbered hwrite
      -- A trade of the batch is one of the trades the run has at its end.
      have htraded : tradesOf (change :: changes) = row :: tradesOf changes := by
        rw [tradesOf, List.filterMap_cons, hrow]
        rfl
      have hall : before.trades ++ [row] ++ tradesOf changes = r.trades := by
        rw [← hrows, trades_foldl_write, htraded, List.append_assoc]
        rfl
      have hlength := congrArg List.length hall
      simp only [List.length_append, List.length_singleton] at hlength
      have hfront : Numbered (before.trades ++ [row]) := by
        have htake := hnumbered.take (before.trades ++ [row]).length
        rwa [← hall, List.take_left' rfl] at htake
      refine ⟨hfront, ?_⟩
      rw [hfront.id_of_append]
      omega

/-- A batch that went in leaves the rows its changes add up to. -/
theorem Holds.commit {store : Handle} {now : Int} {changes : List Change} {counters : Counters}
    {claim : Option ClaimRow} (h : Holds t store.runId r) (hids : IdsFit (some changes))
    (hnumbered : Numbered (r.after (some changes)).trades)
    (hfits : ((r.after (some changes)).trades.length : Int) ≤ i64Max)
    (hcommit : t.commit store now changes counters claim = .ok t') :
    Holds t' store.runId (r.after (some changes)) := by
  obtain ⟨u, hu, hwritten⟩ := commit_written hcommit
  have hrows := Holds.foldlM_writeChange hfits h hids rfl hnumbered hu
  exact {
    orders := fun id hid => by
      rw [hwritten.openOrders]
      exact hrows.orders id hid
    keyed := fun hrow => by
      rw [hwritten.openOrders] at hrow
      exact hrows.keyed hrow
    named := fun hrow => by
      rw [hwritten.openOrders] at hrow
      exact hrows.named hrow
    listings := fun symbol => by
      rw [hwritten.listings]
      exact hrows.listings symbol
    trades := by
      rw [hwritten.trades]
      exact hrows.trades }

/-- It also leaves every trade that was there, in every run. -/
theorem Holds.grown_commit {store : Handle} {now : Int} {changes : List Change}
    {counters : Counters} {claim : Option ClaimRow} (h : Holds t store.runId r)
    (hids : IdsFit (some changes)) (hnumbered : Numbered (r.after (some changes)).trades)
    (hfits : ((r.after (some changes)).trades.length : Int) ≤ i64Max)
    (hcommit : t.commit store now changes counters claim = .ok t') : Grown t t' := by
  intro run
  by_cases hrun : run = store.runId
  · subst hrun
    have hafter := (h.commit hids hnumbered hfits hcommit).trades
    rw [RunRows.after_some, trades_foldl_write, List.map_append, ← h.trades] at hafter
    exact ⟨_, hafter⟩
  · exact ⟨[], by rw [List.append_nil, rowsOf_congr (commit_untouched hcommit hrun).trades]⟩

theorem Grown.of_untouched (h : ∀ run, Untouched t t' run) : Grown t t' := fun run =>
  ⟨[], by rw [List.append_nil, rowsOf_congr (h run).trades]⟩

end Tables
end Store
end VerifiableExchange
