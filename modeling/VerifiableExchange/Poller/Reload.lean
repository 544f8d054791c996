import VerifiableExchange.Poller.Mirror

/-!
# Reload — a run that is read back

The rows of a run put its orders back in their books in the order of their ids, its markets in the
registry and its trades in the totals. Where the rows are what an engine left, the engine read back
from them has that engine's books, markets and trades.
-/

namespace VerifiableExchange
namespace Matcher

open Lib MatcherState

/-! ## Books from rows -/

/-- Where the order of a row waits. -/
def placeOf (row : OrderRow) : OrderRef := ⟨row.symbol, row.side, row.priceCents⟩

def orderOf (row : OrderRow) : RestingOrder := ⟨row.orderId, row.account, row.qtyTenths⟩

/-- The orders of one place, in the order of their rows. -/
def levelOf (rows : List OrderRow) (ref : OrderRef) : Level :=
  (rows.filter (fun row => placeOf row = ref)).map orderOf

theorem levelOf_concat (rows : List OrderRow) (row : OrderRow) (ref : OrderRef) :
    levelOf (rows ++ [row]) ref =
      if placeOf row = ref then levelOf rows ref ++ [orderOf row] else levelOf rows ref := by
  unfold levelOf
  rw [List.filter_append, List.map_append, List.filter_singleton]
  by_cases hplace : placeOf row = ref
  · rw [if_pos hplace, decide_eq_true hplace]
    rfl
  · rw [if_neg hplace, decide_eq_false hplace]
    exact List.append_nil _

theorem levelEdit_replaceOrder (s : MatcherState) (row : OrderRow) :
    ∃ old, LevelEdit s.books (s.replaceOrder row).books (placeOf row) old
      (old ++ [orderOf row]) := by
  refine ⟨_, levelEdit_of_put (placeOf row) _ rfl ?_ (fun symbol hsymbol => ?_)⟩
  · exact (SortedMap.get?_insert_self ..).trans (by rw [Levels.pushBack_eq_put]; rfl)
  · exact SortedMap.get?_insert_of_ne _ hsymbol _

/-- Put back into empty books, the orders of a place stand there in the order of their rows. -/
theorem levelAt_putBack {s : MatcherState} (hs : s.books = .empty) (rows : List OrderRow)
    (ref : OrderRef) :
    levelAt (rows.foldl replaceOrder s).books ref.symbol ref.side ref.priceCents =
      if levelOf rows ref = [] then none else some (levelOf rows ref) := by
  induction rows using List.reverseRecOn with
  | nil =>
      rw [List.foldl_nil, hs]
      rfl
  | append_singleton rows row ih =>
      rw [List.foldl_append, List.foldl_cons, List.foldl_nil, levelOf_concat]
      obtain ⟨old, hedit⟩ := levelEdit_replaceOrder (rows.foldl replaceOrder s) row
      by_cases hplace : placeOf row = ref
      · subst hplace
        have hold : old = levelOf rows (placeOf row) := by
          rw [← hedit.before, ih]
          split_ifs with hnil
          · exact hnil.symm
          · rfl
        rw [if_pos rfl, hedit.here, hold]
      · rw [if_neg hplace, ← ih]
        refine hedit.elsewhere _ _ _ ?_
        rintro ⟨hsymbol, hside, hprice⟩
        refine hplace ?_
        calc
          placeOf row = ⟨ref.symbol, ref.side, ref.priceCents⟩ := by rw [hsymbol, hside, hprice]
          _ = ref := rfl

theorem Book.isEmpty_iff (book : Book) :
    book.isEmpty = true ↔ ∀ side price, (book.levels side).get? price = none := by
  rw [Book.isEmpty, Bool.and_eq_true, SortedMap.isEmpty_iff, SortedMap.isEmpty_iff]
  constructor
  · rintro ⟨hbids, hasks⟩ side price
    cases side with
    | buy => exact hbids price
    | sell => exact hasks price
  · exact fun h => ⟨h .buy, h .sell⟩

theorem noEmptyBook_putBack {s : MatcherState} (hs : s.books = .empty) (rows : List OrderRow) :
    NoEmptyBook (rows.foldl replaceOrder s).books := by
  induction rows using List.reverseRecOn with
  | nil =>
      intro symbol book hbook
      rw [List.foldl_nil, hs] at hbook
      cases hbook
  | append_singleton rows row ih =>
      rw [List.foldl_append, List.foldl_cons, List.foldl_nil]
      intro symbol book hbook
      rw [replaceOrder, SortedMap.get?_insert] at hbook
      split_ifs at hbook with hsymbol
      · obtain rfl := Option.some.inj hbook
        rw [Bool.eq_false_iff]
        intro hempty
        have hnone := (Book.isEmpty_iff _).1 hempty row.side row.priceCents
        rw [Book.levels_setLevels, Levels.pushBack, SortedMap.get?_insert_self] at hnone
        cases hnone
      · exact ih symbol book hbook

/-- Books without an empty one are told apart by their levels. -/
theorem books_ext {a b : Books} (ha : NoEmptyBook a) (hb : NoEmptyBook b)
    (h : ∀ symbol side price, levelAt a symbol side price = levelAt b symbol side price) :
    a = b := by
  have hkept : ∀ {a b : Books} {symbol : String} {book : Book}, NoEmptyBook a →
      (∀ symbol side price, levelAt a symbol side price = levelAt b symbol side price) →
      a.get? symbol = some book → b.get? symbol ≠ none := by
    intro a b symbol book ha h hbook hnone
    have hempty : book.isEmpty = true := (Book.isEmpty_iff book).2 (fun side price => by
      have hlevel := h symbol side price
      rwa [levelAt, levelAt, hbook, hnone] at hlevel)
    rw [ha symbol book hbook] at hempty
    cases hempty
  refine SortedMap.ext (fun symbol => ?_)
  cases hbook : a.get? symbol with
  | none =>
      cases hother : b.get? symbol with
      | none => rfl
      | some book => exact absurd hbook (hkept hb (fun _ _ _ => (h _ _ _).symm) hother)
  | some book =>
      obtain ⟨other, hother⟩ := Option.ne_none_iff_exists'.1 (hkept ha h hbook)
      have hlevels : ∀ side, book.levels side = other.levels side := fun side => by
        refine SortedMap.ext (fun price => ?_)
        have hlevel := h symbol side price
        rwa [levelAt, levelAt, hbook, hother] at hlevel
      have hbids : book.bids = other.bids := hlevels .buy
      have hasks : book.asks = other.asks := hlevels .sell
      rw [hother]
      cases book
      cases other
      cases hbids
      cases hasks
      rfl

/-! ## The rows an engine left -/

/-- The rows are the orders of these books, in the order of their ids. -/
structure RowsOfBooks (rows : List OrderRow) (books : Books) : Prop where
  inOrder : rows.Pairwise (fun a b => a.orderId < b.orderId)
  waiting : ∀ row, row ∈ rows ↔ row ∈ restingRows books

section Books

variable {symbols : SymbolRegistry} {last : OrderId} {books : Books}
  {openOrders : SortedMap OrderId OrderRef} {rows : List OrderRow}

theorem RowsOfBooks.mem_levelOf (h : RowsOfBooks rows books) {ref : OrderRef} {o : RestingOrder} :
    o ∈ levelOf rows ref ↔ Rests books ref o := by
  rw [levelOf, List.mem_map]
  constructor
  · rintro ⟨row, hrow, rfl⟩
    obtain ⟨hmem, hplace⟩ := List.mem_filter.1 hrow
    obtain rfl := of_decide_eq_true hplace
    exact mem_restingRows.1 ((h.waiting row).1 hmem)
  · intro hrests
    refine ⟨rowOf ref.symbol ref.side ref.priceCents o, List.mem_filter.2 ⟨?_, ?_⟩, rfl⟩
    · exact (h.waiting _).2 (rowOf_mem_restingRows.2 hrests)
    · exact decide_eq_true rfl

/-- Both a level of the books and its rows go by the ids of their orders. -/
theorem RowsOfBooks.levelOf_eq (h : RowsOfBooks rows books)
    (hbooks : BookInv symbols last books openOrders) (ref : OrderRef) :
    levelOf rows ref = (levelAt books ref.symbol ref.side ref.priceCents).getD [] := by
  have hantisymm : Std.Antisymm (fun a b : RestingOrder => a.id < b.id) :=
    ⟨fun _ _ hab hba => absurd hab hba.asymm⟩
  have hirrefl : Std.Irrefl (fun a b : RestingOrder => a.id < b.id) := ⟨fun _ => lt_irrefl _⟩
  refine List.Pairwise.eq_of_mem_iff (r := fun a b : RestingOrder => a.id < b.id) ?_ ?_ ?_
  · exact List.pairwise_map.2 (h.inOrder.filter _)
  · cases hlevel : levelAt books ref.symbol ref.side ref.priceCents with
    | none => exact .nil
    | some level => exact hbooks.increasing hlevel
  · intro o
    rw [h.mem_levelOf, Rests]
    cases levelAt books ref.symbol ref.side ref.priceCents <;> simp

theorem RowsOfBooks.books_putBack (h : RowsOfBooks rows books)
    (hbooks : BookInv symbols last books openOrders) (hempty : NoEmptyBook books)
    {s : MatcherState} (hs : s.books = .empty) : (rows.foldl replaceOrder s).books = books := by
  refine books_ext (noEmptyBook_putBack hs rows) hempty (fun symbol side price => ?_)
  have hlevel := levelAt_putBack hs rows ⟨symbol, side, price⟩
  rw [h.levelOf_eq hbooks] at hlevel
  refine hlevel.trans ?_
  cases hthere : levelAt books symbol side price with
  | none => exact if_pos rfl
  | some level => exact if_neg (hbooks.level_ne hthere)

theorem openOrders_putBack {s : MatcherState} (hs : s.openOrders = .empty)
    (rows : List OrderRow) : (rows.foldl replaceOrder s).openOrders =
      SortedMap.ofList (rows.map (fun row => (row.orderId, placeOf row))) := by
  rw [SortedMap.ofList, List.foldl_map, ← hs]
  exact (List.foldl_hom MatcherState.openOrders (fun _ _ => rfl)).symm

theorem RowsOfBooks.openOrders_putBack (h : RowsOfBooks rows books)
    (hbooks : BookInv symbols last books openOrders) {s : MatcherState}
    (hs : s.openOrders = .empty) : (rows.foldl replaceOrder s).openOrders = openOrders := by
  have hnodup : ((rows.map (fun row => (row.orderId, placeOf row))).map Prod.fst).Nodup := by
    rw [List.map_map]
    exact List.pairwise_map.2 (h.inOrder.imp ne_of_lt)
  rw [Matcher.openOrders_putBack hs]
  refine SortedMap.ext (fun id => Option.ext (fun ref => ?_))
  rw [SortedMap.get?_ofList_iff hnodup, hbooks.indexed, List.mem_map]
  constructor
  · rintro ⟨row, hrow, heq⟩
    cases heq
    obtain ⟨level, hlevel, hmem⟩ := mem_restingRows.1 ((h.waiting row).1 hrow)
    exact ⟨level, hlevel, _, hmem, rfl⟩
  · rintro ⟨level, hlevel, o, ho, rfl⟩
    refine ⟨rowOf ref.symbol ref.side ref.priceCents o, ?_, rfl⟩
    exact (h.waiting _).2 (rowOf_mem_restingRows.2 ⟨level, hlevel, ho⟩)

end Books

open Store in
/-- The listings of a run are its registry. -/
theorem registry_fromRows {table : SortedMap (RunKey String) ListingRow} {run : Int}
    {symbols : SymbolRegistry} (h : ∀ symbol, table.get? (toLex (run, symbol)) =
      (symbols.get? symbol).map (listingRowOf symbol)) :
    SymbolRegistry.fromRows ((Tables.rowsOf table run).map Prod.snd) = symbols := by
  have hrow : ∀ {symbol row}, (symbol, row) ∈ Tables.rowsOf table run ↔
      ∃ listing, symbols.get? symbol = some listing ∧ listingRowOf symbol listing = row := by
    intro symbol row
    rw [Tables.mem_rowsOf, h, Option.map_eq_some_iff]
  have hkeys : ((((Tables.rowsOf table run).map Prod.snd).map (fun row => (row.symbol,
      (⟨row.priceStepCents, row.quantityStepTenths, row.listed, row.listedBy⟩ : Listing)))).map
        Prod.fst).Nodup := by
    have hsame : (((Tables.rowsOf table run).map Prod.snd).map (fun row => (row.symbol,
        (⟨row.priceStepCents, row.quantityStepTenths, row.listed, row.listedBy⟩ : Listing)))).map
          Prod.fst = (Tables.rowsOf table run).map Prod.fst := by
      rw [List.map_map, List.map_map]
      refine List.map_congr_left (fun e he => ?_)
      obtain ⟨listing, -, hlisting⟩ := hrow.1 he
      exact congrArg ListingRow.symbol hlisting.symm
    rw [hsame]
    exact List.pairwise_map.2 (Tables.sorted_rowsOf.imp ne_of_lt)
  refine SortedMap.ext (fun symbol => Option.ext (fun listing => ?_))
  rw [SymbolRegistry.fromRows, SortedMap.get?_ofList_iff hkeys, List.mem_map]
  constructor
  · rintro ⟨row, hmem, heq⟩
    obtain ⟨⟨key, _⟩, he, rfl⟩ := List.mem_map.1 hmem
    obtain ⟨found, hfound, rfl⟩ := hrow.1 he
    cases heq
    exact hfound
  · intro hlisting
    exact ⟨listingRowOf symbol listing, List.mem_map.2 ⟨_, hrow.2 ⟨listing, hlisting, rfl⟩, rfl⟩,
      rfl⟩

/-! ## The engine read back -/

namespace MatcherState

/-- The two engines have the same books, markets, trades and cursor. -/
structure SameMarket (s t : MatcherState) : Prop where
  books : t.books = s.books
  openOrders : t.openOrders = s.openOrders
  symbols : t.symbols = s.symbols
  totals : t.totals = s.totals
  lastSeen : t.lastSeen = s.lastSeen

variable {env : Primitives} {s t : MatcherState} {r : RunRows}

theorem Shows.of_same (h : Shows r s) (hsame : SameMarket s t) : Shows r t where
  orders := by
    rw [hsame.books]
    exact h.orders
  listings := by
    rw [hsame.symbols]
    exact h.listings
  trades := by
    rw [hsame.totals]
    exact h.trades

theorem Steady.of_same (h : s.Steady) (hsame : SameMarket s t) : t.Steady := by
  have hbooks := h.books.books
  have htotal : t.tradesTotal = s.tradesTotal := congrArg Totals.tradesTotal hsame.totals
  refine ⟨⟨?_, ?_, ?_⟩, ?_⟩
  · rw [hsame.symbols, hsame.lastSeen, hsame.books, hsame.openOrders]
    exact h.books.books
  · rw [hsame.books]
    exact h.books.noEmptyBook
  · rw [hsame.symbols]
    exact h.books.registry
  · unfold Counted
    rw [htotal, hsame.openOrders, hsame.lastSeen]
    exact h.counted

theorem market_foldl_replayTrade (s : MatcherState) (rows : List TradeRow) :
    (rows.foldl replayTrade s).books = s.books ∧
      (rows.foldl replayTrade s).openOrders = s.openOrders ∧
      (rows.foldl replayTrade s).symbols = s.symbols := by
  induction rows generalizing s with
  | nil => exact ⟨rfl, rfl, rfl⟩
  | cons _ rows ih => exact ih _

theorem symbols_foldl_replaceOrder (s : MatcherState) (rows : List OrderRow) :
    (rows.foldl replaceOrder s).symbols = s.symbols := by
  induction rows generalizing s with
  | nil => rfl
  | cons _ rows ih => exact ih _

end MatcherState
end Matcher

namespace Store

open Lib Matcher MatcherState

namespace Tables

variable {env : Primitives} {t : Tables} {run : Int} {r : RunRows} {s restored : MatcherState}
  {snapshot : Snapshot}

/-- The stored orders of a run are those of the books they were written from. -/
theorem Holds.rowsOfBooks (h : Holds t run r) (hshows : Shows r s) (hs : s.Steady)
    (hfits : (s.lastSeen : Int) ≤ i64Max) :
    RowsOfBooks ((rowsOf t.openOrders run).map Prod.snd) s.books := by
  have hid : ∀ row ∈ restingRows s.books, (row.orderId : Int) ≤ i64Max := fun row hrow => by
    have hpast := (hs.books.books.sound_of_rests (mem_restingRows.1 hrow)).past
    exact (Int.ofNat_le.2 hpast).trans hfits
  have hstored : ∀ e, e ∈ rowsOf t.openOrders run ↔
      e.1 = asI64 e.2.orderId ∧ e.2 ∈ restingRows s.books := by
    rintro ⟨key, row⟩
    rw [mem_rowsOf]
    constructor
    · intro hrow
      have hkey := h.keyed hrow
      refine ⟨hkey, hshows.orders.waiting.1 ?_⟩
      rw [← h.orders _ (h.named hrow), ← hkey, hrow]
    · rintro ⟨hkey, hrow⟩
      have hkey : key = asI64 row.orderId := hkey
      have hroom : i64Max ≤ (u64Max : Int) := by decide
      have hmax : row.orderId ≤ u64Max := Int.ofNat_le.1 ((hid row hrow).trans hroom)
      rw [hkey, h.orders _ hmax, hshows.orders.waiting]
      exact hrow
  refine ⟨List.pairwise_map.2 (sorted_rowsOf.imp_of_mem (fun {a b} ha hb hlt => ?_)),
    fun row => ?_⟩
  · obtain ⟨hkeyA, hrowA⟩ := (hstored a).1 ha
    obtain ⟨hkeyB, hrowB⟩ := (hstored b).1 hb
    rw [hkeyA, hkeyB, asI64_of_le (hid _ hrowA), asI64_of_le (hid _ hrowB)] at hlt
    exact Int.ofNat_lt.1 hlt
  · rw [List.mem_map]
    constructor
    · rintro ⟨e, he, rfl⟩
      exact ((hstored e).1 he).2
    · exact fun hrow => ⟨(asI64 row.orderId, row), (hstored _).2 ⟨rfl, hrow⟩, rfl⟩

/-- The engine read back from the rows of another has its books, markets and trades. -/
theorem Holds.reloaded (h : Holds t run r) (hshows : Shows r s) (hs : s.Steady)
    (hfits : (s.lastSeen : Int) ≤ i64Max)
    (hcursor : ∀ point, t.resumePoint.get? run = some point → point.lastSeen.val = s.lastSeen)
    (hload : t.load run = .ok snapshot)
    (hrestore : MatcherState.restore env snapshot ((rowsOf t.trades run).map Prod.snd) =
      .ok restored) : SameMarket s restored := by
  obtain ⟨point, row, hloaded⟩ := load_eq_ok hload
  have hseen : snapshot.counters.lastSeen = s.lastSeen :=
    (loadCounters_eq_ok hloaded.counters).1.trans
      (Poller.asU64_natCast (hcursor point hloaded.hasPoint))
  have hrows : (rowsOf t.trades run).map Prod.snd = r.trades := by
    rw [h.trades, List.map_map]
    exact List.map_id r.trades
  have htotals : restored.totals = s.totals := by
    rw [totals_of_restore hrestore, hrows, hshows.trades.replayed]
  have hbooks := h.rowsOfBooks hshows hs hfits
  obtain ⟨limits, mids, ledger, -, rfl⟩ := restore_eq_ok hrestore
  obtain ⟨hlast, -, -⟩ := restored_fields env snapshot limits mids snapshot.orders
    ((rowsOf t.trades run).map Prod.snd)
  obtain ⟨hsameBooks, hsameIndex, hsameSymbols⟩ := market_foldl_replayTrade
    (snapshot.orders.foldl replaceOrder (restoreCounters env snapshot limits mids))
    ((rowsOf t.trades run).map Prod.snd)
  refine ⟨?_, ?_, ?_, htotals, hlast.trans hseen⟩
  · refine hsameBooks.trans ?_
    rw [hloaded.orders]
    exact hbooks.books_putBack hs.books.books hs.books.noEmptyBook rfl
  · refine hsameIndex.trans ?_
    rw [hloaded.orders]
    exact hbooks.openOrders_putBack hs.books.books rfl
  · refine (hsameSymbols.trans (symbols_foldl_replaceOrder _ _)).trans ?_
    show SymbolRegistry.fromRows snapshot.listings = s.symbols
    rw [hloaded.listings]
    exact registry_fromRows (fun symbol => (h.listings symbol).trans (hshows.listings symbol))

end Tables
end Store
end VerifiableExchange
