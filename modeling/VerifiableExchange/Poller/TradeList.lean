import VerifiableExchange.Poller.Mirror
import VerifiableExchange.Poller.PnlLaw

/-!
# TradeList — the newest trades of a run

A request for trades walks the memory window back from the newest trade and tops up from the
trades table below the window. Both reads take the newest trades a filter lets through, so together
they are the tail of the whole record.
-/

namespace VerifiableExchange

open Lib Matcher

namespace Store

/-! ## The trades table -/

/-- One limited read of the rows of a run, the newest first. -/
def newestFirst (rows : List (Int × TradeRow)) (limit : Nat) (holds : Int × TradeRow → Bool) :
    List (Int × TradeRow) :=
  (rows.reverse.filter holds).take limit

/-- The newest rows of two reads. A row that both reads find is one row. -/
def newestOfBoth (rows : List (Int × TradeRow)) (limit : Nat)
    (made taken : List (Int × TradeRow)) : List (Int × TradeRow) :=
  newestFirst rows limit (fun e => e ∈ made ∨ e ∈ taken)

namespace Tables

/-- The newest trades of a run below a trade id, the newest first. The trades of one account are
the union of two reads, one for each side of a fill. -/
def tradesBefore (t : Tables) (runId : Int) (before : Nat) (symbol : Option String)
    (account : Option AccountId) (limit : Nat) : List TradeRow :=
  let rows := rowsOf t.trades runId
  List.map Prod.snd <|
    match symbol, account with
    | none, none => newestFirst rows limit (fun e => e.1 < asI64 before)
    | some symbol, none =>
        newestFirst rows limit (fun e => e.1 < asI64 before ∧ e.2.symbol = symbol)
    | none, some account =>
        newestOfBoth rows limit
          (newestFirst rows limit (fun e => e.2.makerAccount = account ∧ e.1 < asI64 before))
          (newestFirst rows limit (fun e => e.2.takerAccount = account ∧ e.1 < asI64 before))
    | some symbol, some account =>
        newestOfBoth rows limit
          (newestFirst rows limit (fun e =>
            e.2.makerAccount = account ∧ e.2.symbol = symbol ∧ e.1 < asI64 before))
          (newestFirst rows limit (fun e =>
            e.2.takerAccount = account ∧ e.2.symbol = symbol ∧ e.1 < asI64 before))

end Tables
end Store

namespace Matcher

open Store

/-! ## A request for trades -/

/-- One trade, as the API shows it. -/
structure Trade where
  tradeId : Nat
  symbol : String
  price : F64
  quantity : F64
  makerOrder : OrderId
  makerAccount : AccountId
  takerOrder : OrderId
  takerAccount : AccountId
  takerSide : Side
  timestamp : Nat
  deriving DecidableEq

def Trade.of (row : TradeRow) : Trade where
  tradeId := row.tradeId
  symbol := row.symbol
  price := centsToF64 row.priceCents
  quantity := tenthsToF64 row.qtyTenths
  makerOrder := row.makerOrder
  makerAccount := row.makerAccount
  takerOrder := row.takerOrder
  takerAccount := row.takerAccount
  takerSide := row.takerSide
  timestamp := row.timestamp

structure TradesQuery where
  /-- Only this symbol. -/
  symbol : Option String
  /-- Only the trades this account took part in, on either side. -/
  account : Option AccountId
  /-- How many of the newest trades. -/
  n : Option Nat

namespace TradesQuery

def PAGE_LIMIT : Nat := 1000

def limit (params : TradesQuery) : Nat := min (params.n.getD 20) PAGE_LIMIT

def passes (params : TradesQuery) (row : TradeRow) : Bool :=
  params.symbol.all (fun symbol => symbol = row.symbol) &&
    params.account.all (fun account => row.makerAccount = account ∨ row.takerAccount = account)

end TradesQuery

/-- Why no trades are answered. -/
inductive TradesError
  | unlisted (symbol : String)
  | unread (error : StoreError)
  deriving DecidableEq

/-- The state database behind a request: the run of the engine, and what the reader finds in the
database, where a reader is open. -/
structure TradeHistory where
  runId : Option Int
  reader : Option (Except StoreError Tables)

namespace Totals

/-- The account has an entry in the positions. -/
def knows (t : Totals) (account : AccountId) : Bool :=
  t.positions.entries.any (fun e => (ofLex e.1).1 = account)

/-- The id of the oldest trade in memory, zero without one. -/
def oldestHeld (t : Totals) : Nat := (t.trades.head?.map TradeRow.tradeId).getD 0

/-- The trades below the window that a page still has room for. -/
def topUp (t : Totals) (history : TradeHistory) (params : TradesQuery) (held : List TradeRow) :
    Except TradesError (List TradeRow) :=
  match history.reader with
  | some read =>
      if held.length < params.limit ∧ 1 < t.oldestHeld then
        match history.runId with
        | none => .ok []
        | some runId => do
            let tables ← read.mapError TradesError.unread
            return tables.tradesBefore runId t.oldestHeld params.symbol params.account
              (params.limit - held.length)
      else .ok []
  | none => .ok []

def getTrades (t : Totals) (symbols : SymbolRegistry) (history : TradeHistory)
    (params : TradesQuery) : Except TradesError (List Trade) :=
  match params.symbol.filter (fun symbol => !symbols.contains symbol) with
  | some symbol => .error (.unlisted symbol)
  | none =>
      if params.account.any (fun account => !t.knows account) then .ok []
      else do
        let held := (t.trades.reverse.filter params.passes).take params.limit
        let below ← t.topUp history params held
        return ((held ++ below).map Trade.of).reverse

end Totals

/-! ## The two reads -/

/-- Two limited reads and a limit over both of them find what one limited read finds. -/
theorem filter_union_take {α : Type} [BEq α] [LawfulBEq α] (p q : α → Bool) (rows : List α)
    (limit : Nat) :
    (rows.filter (fun a => a ∈ (rows.filter p).take limit ∨
      a ∈ (rows.filter q).take limit)).take limit =
        (rows.filter (fun a => p a || q a)).take limit := by
  have hfound : ∀ a, a ∈ (rows.filter p).take limit ∨ a ∈ (rows.filter q).take limit →
      (p a || q a) = true := by
    rintro a (ha | ha)
    · rw [(List.mem_filter.1 (List.mem_of_mem_take ha)).2, Bool.true_or]
    · rw [(List.mem_filter.1 (List.mem_of_mem_take ha)).2, Bool.or_true]
  have hnarrow : rows.filter (fun a => a ∈ (rows.filter p).take limit ∨
      a ∈ (rows.filter q).take limit) = (rows.filter (fun a => p a || q a)).filter
        (fun a => a ∈ (rows.filter p).take limit ∨ a ∈ (rows.filter q).take limit) := by
    rw [List.filter_filter]
    refine List.filter_congr (fun a _ => ?_)
    by_cases ha : a ∈ (rows.filter p).take limit ∨ a ∈ (rows.filter q).take limit
    · rw [decide_eq_true ha, hfound a ha]
      rfl
    · rw [decide_eq_false ha]
      rfl
  -- What is among the first of the wide read is among the first of its side.
  have hside : ∀ (side : α → Bool), (∀ a, side a = true → (p a || q a) = true) →
      ∀ a ∈ (rows.filter (fun a => p a || q a)).take limit, side a = true →
        a ∈ (rows.filter side).take limit := by
    intro side hwide a ha hone
    have hsame : (rows.filter (fun a => p a || q a)).filter side = rows.filter side := by
      rw [List.filter_filter]
      refine List.filter_congr (fun b _ => ?_)
      cases hb : side b with
      | false => rfl
      | true => exact (Bool.true_and _).trans (hwide b hb)
    rw [← hsame]
    exact mem_take_filter ha hone
  rw [hnarrow]
  refine take_filter_of_forall (fun a ha => decide_eq_true ?_)
  rcases Bool.or_eq_true_iff.1 (List.mem_filter.1 (List.mem_of_mem_take ha)).2 with hp | hq
  · exact .inl (hside p (fun b hb => by rw [hb, Bool.true_or]) a ha hp)
  · exact .inr (hside q (fun b hb => by rw [hb, Bool.or_true]) a ha hq)

theorem newestOfBoth_eq (rows : List (Int × TradeRow)) (limit : Nat)
    (p q : Int × TradeRow → Bool) :
    newestOfBoth rows limit (newestFirst rows limit p) (newestFirst rows limit q) =
      newestFirst rows limit (fun e => p e || q e) :=
  filter_union_take p q rows.reverse limit

/-- The table has these trades of the run, each under its id. -/
def HasTrades (t : Tables) (run : Int) (rows : List TradeRow) : Prop :=
  Tables.rowsOf t.trades run = rows.map (fun row => (asI64 row.tradeId, row))

section Reads

variable {t : Tables} {run : Int} {rows : List TradeRow}

theorem newestFirst_eq (h : HasTrades t run rows) (hrows : Numbered rows) {below : Nat}
    (limit : Nat) {holds : Int × TradeRow → Bool} {p : TradeRow → Bool}
    (hholds : ∀ row ∈ rows, holds (asI64 row.tradeId, row) =
      (p row && decide (row.tradeId ≤ below))) :
    (newestFirst (Tables.rowsOf t.trades run) limit holds).map Prod.snd =
      ((rows.take below).filter p).reverse.take limit := by
  have hkept : rows.filter (holds ∘ fun row => (asI64 row.tradeId, row)) =
      (rows.take below).filter p := by
    rw [← hrows.filter_le, List.filter_filter]
    exact List.filter_congr hholds
  unfold newestFirst
  rw [h, ← List.map_reverse, List.filter_map, List.filter_reverse, hkept, List.map_take,
    List.map_map]
  congr 1
  exact List.map_id _

/-- A read below a trade id finds the newest of the trades before it that pass. -/
theorem tradesBefore_eq (h : HasTrades t run rows) (hrows : Numbered rows)
    (hfits : (rows.length : Int) ≤ i64Max) {below : Nat} (hbelow : below < rows.length)
    (params : TradesQuery) (limit : Nat) :
    t.tradesBefore run (below + 1) params.symbol params.account limit =
      ((rows.take below).filter params.passes).reverse.take limit := by
  have hkey : ∀ row ∈ rows, (asI64 row.tradeId < asI64 (below + 1) ↔ row.tradeId ≤ below) := by
    intro row hrow
    have hle := hrows.le_of_mem_take (show row ∈ rows.take rows.length by
      rwa [List.take_length])
    rw [asI64_of_le (by omega), asI64_of_le (by omega)]
    omega
  unfold Tables.tradesBefore
  obtain ⟨symbol, account, n⟩ := params
  cases symbol with
  | none =>
      cases account with
      | none =>
          refine newestFirst_eq h hrows limit (fun row hrow => ?_)
          simp [TradesQuery.passes, hkey row hrow]
      | some account =>
          dsimp only
          rw [newestOfBoth_eq]
          refine newestFirst_eq h hrows limit (fun row hrow => ?_)
          simp [TradesQuery.passes, hkey row hrow, Bool.decide_and, Bool.decide_or,
            Bool.and_or_distrib_right]
  | some symbol =>
      cases account with
      | none =>
          refine newestFirst_eq h hrows limit (fun row hrow => ?_)
          simp [TradesQuery.passes, hkey row hrow, eq_comm, Bool.and_comm]
      | some account =>
          dsimp only
          rw [newestOfBoth_eq]
          refine newestFirst_eq h hrows limit (fun row hrow => ?_)
          simp only [TradesQuery.passes, hkey row hrow, Option.all_some, Bool.decide_and,
            Bool.decide_or, ← Bool.and_or_distrib_right, ← Bool.and_assoc]
          rw [Bool.and_comm (decide (symbol = row.symbol)),
            decide_eq_decide.2 (@eq_comm _ symbol _)]

end Reads

/-! ## The answer -/

namespace Totals

/-- The newest trades that pass, the oldest of them first. -/
def tailOf (rows : List TradeRow) (params : TradesQuery) : List Trade :=
  (newest params.limit (rows.filter params.passes)).map Trade.of

variable {t : Totals} {rows later : List TradeRow} {below : Nat} {symbols : SymbolRegistry}
  {run : Int} {tables : Tables} {params : TradesQuery}

theorem knows_iff (h : t.Kept rows) (account : AccountId) :
    t.knows account = true ↔ ∃ row ∈ rows, row.Involves account := by
  have hheld (symbol : String) : t.positions.contains (Ledger.accountKey account symbol) = true ↔
      ∃ row ∈ rows, row.symbol = symbol ∧ row.Involves account := by
    rw [h.replayed]
    exact isSome_position_iff account rows symbol
  rw [knows, List.any_eq_true]
  constructor
  · rintro ⟨⟨key, p⟩, he, haccount⟩
    obtain rfl : (ofLex key).1 = account := of_decide_eq_true haccount
    have hcontains : t.positions.contains key = true :=
      SortedMap.contains_iff.2 ⟨p, SortedMap.mem_entries.1 he⟩
    obtain ⟨row, hrow, -, hinvolves⟩ := (hheld (ofLex key).2).1 hcontains
    exact ⟨row, hrow, hinvolves⟩
  · rintro ⟨row, hrow, hinvolves⟩
    obtain ⟨p, hp⟩ := SortedMap.contains_iff.1 ((hheld row.symbol).2 ⟨row, hrow, rfl, hinvolves⟩)
    exact ⟨_, SortedMap.mem_entries.2 hp, decide_eq_true rfl⟩

theorem tailOf_eq_nil (h : ∀ row ∈ rows, params.passes row = false) : tailOf rows params = [] := by
  have hnone : rows.filter params.passes = [] :=
    List.filter_eq_nil_iff.2 (fun row hrow => by rw [h row hrow]; decide)
  rw [tailOf, hnone, newest_nil, List.map_nil]

/-- Walked back and turned round, a limited walk is the tail. -/
theorem map_reverse_take (rows : List TradeRow) (params : TradesQuery) :
    (((rows.filter params.passes).reverse.take params.limit).map Trade.of).reverse =
      tailOf rows params := by
  rw [List.take_reverse, List.map_reverse, List.reverse_reverse]
  rfl

theorem oldestHeld_withWindow (h : t.Kept rows) (hbelow : below < rows.length) :
    (t.withWindow rows below).oldestHeld = below + 1 := by
  have hnumbered : Numbered rows := h.numbered
  rw [oldestHeld, withWindow, List.head?_drop, List.getElem?_eq_getElem hbelow, Option.map_some,
    Option.getD_some]
  exact hnumbered.tradeId_eq (List.getElem?_eq_getElem hbelow)

/-- The window and what tops it up are one limited walk of the whole record. -/
theorem held_append_topUp (h : t.Kept rows) (hbelow : below < rows.length)
    (hstored : HasTrades tables run (rows ++ later)) (hnumbered : Numbered (rows ++ later))
    (hfits : ((rows ++ later).length : Int) ≤ i64Max) (params : TradesQuery) :
    ∃ found, (t.withWindow rows below).topUp ⟨some run, some (.ok tables)⟩ params
        (((rows.drop below).reverse.filter params.passes).take params.limit) = .ok found ∧
      ((rows.drop below).reverse.filter params.passes).take params.limit ++ found =
        (rows.filter params.passes).reverse.take params.limit := by
  have hsplit : (rows.filter params.passes).reverse =
      (rows.drop below).reverse.filter params.passes ++
        ((rows.take below).filter params.passes).reverse := by
    rw [List.filter_reverse, ← List.reverse_append, ← List.filter_append, List.take_append_drop]
  have hread : (rows ++ later).take below = rows.take below :=
    List.take_append_of_le_length hbelow.le
  rw [hsplit, List.take_append]
  generalize (rows.drop below).reverse.filter params.passes = walked
  unfold topUp
  rw [oldestHeld_withWindow h hbelow]
  dsimp only
  split_ifs with hroom
  · -- The whole window is on the page, and there is room for more.
    obtain ⟨hshort, -⟩ := hroom
    have hall : (walked.take params.limit).length = walked.length := by
      rw [List.length_take] at hshort ⊢
      omega
    refine ⟨_, rfl, ?_⟩
    rw [hall, tradesBefore_eq hstored hnumbered hfits (hbelow.trans_le (by simp)), hread]
  · refine ⟨[], rfl, ?_⟩
    rw [not_and_or, not_lt, not_lt] at hroom
    have hnothing : ((rows.take below).filter params.passes).reverse.take
        (params.limit - walked.length) = [] := by
      rcases hroom with hfull | hwhole
      · have hlong : params.limit ≤ walked.length := by
          rw [List.length_take] at hfull
          omega
        rw [Nat.sub_eq_zero_of_le hlong, List.take_zero]
      · obtain rfl : below = 0 := by omega
        rw [List.take_zero, List.filter_nil, List.reverse_nil, List.take_nil]
    rw [hnothing]

/-- What is answered while the trades above `below` are in memory. -/
structure TradesLaw (t : Totals) (symbols : SymbolRegistry) (rows : List TradeRow) (below : Nat)
    (run : Int) (tables : Tables) : Prop where
  /-- Where the database can be read, a page is the tail of the whole record. -/
  tail : ∀ params, (∀ symbol, params.symbol = some symbol → symbols.contains symbol = true) →
    (t.withWindow rows below).getTrades symbols ⟨some run, some (.ok tables)⟩ params =
      .ok (tailOf rows params)
  /-- Without a reader, it is the tail of the window. -/
  windowOnly : ∀ params, (∀ symbol, params.symbol = some symbol → symbols.contains symbol = true) →
    (t.withWindow rows below).getTrades symbols ⟨some run, none⟩ params =
      .ok (tailOf (rows.drop below) params)
  /-- A symbol the log never listed is refused. -/
  unlisted : ∀ history params symbol, params.symbol = some symbol →
    symbols.contains symbol = false →
      (t.withWindow rows below).getTrades symbols history params = .error (.unlisted symbol)

theorem getTrades_listed {history : TradeHistory}
    (hlisted : ∀ symbol, params.symbol = some symbol → symbols.contains symbol = true) :
    t.getTrades symbols history params =
      if params.account.any (fun account => !t.knows account) then .ok []
      else do
        let held := (t.trades.reverse.filter params.passes).take params.limit
        let below ← t.topUp history params held
        return ((held ++ below).map Trade.of).reverse := by
  have hnone : params.symbol.filter (fun symbol => !symbols.contains symbol) = none := by
    refine Option.filter_eq_none_iff.2 (fun symbol hsymbol => ?_)
    rw [hlisted symbol hsymbol]
    decide
  rw [getTrades, hnone]

/-- An account without a position is in no trade. -/
theorem passes_unknown (h : t.Kept rows)
    (hunknown : params.account.any (fun account => !t.knows account) = true) :
    ∀ row ∈ rows, params.passes row = false := by
  intro row hrow
  obtain ⟨account, haccount, hnot⟩ := (Option.any_eq_true _ _).1 hunknown
  rw [TradesQuery.passes, haccount, Bool.and_eq_false_iff]
  refine .inr (decide_eq_false (fun hinvolves => ?_))
  rw [(knows_iff h account).2 ⟨row, hrow, hinvolves⟩] at hnot
  cases hnot

theorem tradesLaw (h : t.Kept rows) (hbelow : below < rows.length)
    (hstored : HasTrades tables run (rows ++ later)) (hnumbered : Numbered (rows ++ later))
    (hfits : ((rows ++ later).length : Int) ≤ i64Max) (symbols : SymbolRegistry) :
    TradesLaw t symbols rows below run tables where
  tail params hlisted := by
    rw [getTrades_listed hlisted]
    split_ifs with hunknown
    · rw [tailOf_eq_nil (passes_unknown h hunknown)]
    · obtain ⟨found, hfound, hwalk⟩ := held_append_topUp h hbelow hstored hnumbered hfits params
      rw [← map_reverse_take, ← hwalk]
      exact bind_eq_ok.2 ⟨found, hfound, rfl⟩
  windowOnly params hlisted := by
    rw [getTrades_listed hlisted]
    split_ifs with hunknown
    · have hnone := passes_unknown h hunknown
      rw [tailOf_eq_nil (fun row hrow => hnone row (List.mem_of_mem_drop hrow))]
    · rw [← map_reverse_take, ← List.filter_reverse]
      refine bind_eq_ok.2 ⟨[], rfl, ?_⟩
      rw [List.append_nil]
      rfl
  unlisted history params symbol hsymbol hnot := by
    have hsome : params.symbol.filter (fun symbol => !symbols.contains symbol) = some symbol := by
      rw [hsymbol, Option.filter_some, hnot]
      rfl
    rw [getTrades, hsome]

end Totals
end Matcher
end VerifiableExchange
