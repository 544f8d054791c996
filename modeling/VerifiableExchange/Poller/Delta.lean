import Mathlib.Logic.Function.Basic
import VerifiableExchange.Matcher.Funded
import VerifiableExchange.Poller.Bookkeeping

/-!
# Delta — the rows a run's changes write

A run on disk is its resting orders by id, its markets by symbol and its trades in order. Every
change is one edit of these rows. The changes an engine recorded, written over the rows it started
from, give the rows of the engine as it stands.
-/

namespace VerifiableExchange
namespace Matcher

open Lib

/-! ## The rows of a run -/

structure RunRows where
  orders : OrderId → Option OrderRow
  listings : String → Option ListingRow
  trades : List TradeRow

namespace RunRows

/-- A run that has written nothing. -/
def empty : RunRows := ⟨fun _ => none, fun _ => none, []⟩

/-- The rows after one change. -/
def write (r : RunRows) : Change → RunRows
  | .orderRested row => { r with orders := Function.update r.orders row.orderId (some row) }
  | .orderReduced orderId qtyTenths =>
      { r with
        orders := Function.update r.orders orderId
          ((r.orders orderId).map (fun row => { row with qtyTenths := qtyTenths })) }
  | .orderClosed orderId => { r with orders := Function.update r.orders orderId none }
  | .traded row => { r with trades := r.trades ++ [row] }
  | .symbolListed row => { r with listings := Function.update r.listings row.symbol (some row) }
  | .symbolDelisted symbol =>
      { r with
        listings := Function.update r.listings symbol
          ((r.listings symbol).map (fun row => { row with listed := false })) }
  | .executionState _ | .consumed _ => r

/-- The rows after the changes of a record. -/
def after (r : RunRows) (pending : Option (List Change)) : RunRows :=
  (pending.getD []).foldl write r

theorem after_some (r : RunRows) (changes : List Change) :
    r.after (some changes) = changes.foldl write r := rfl

theorem after_record (r : RunRows) {pending : Option (List Change)} (h : pending.isSome = true)
    (change : Change) : r.after (record pending change) = (r.after pending).write change := by
  obtain ⟨changes, rfl⟩ := Option.isSome_iff_exists.1 h
  exact List.foldl_append

/-- Closing orders leaves the rows of the others. -/
theorem foldl_closed (ids : List OrderId) (r : RunRows) :
    (ids.map Change.orderClosed).foldl write r =
      { r with orders := fun id => if id ∈ ids then none else r.orders id } := by
  induction ids generalizing r with
  | nil => simp
  | cons id ids ih =>
      rw [List.map_cons, List.foldl_cons, ih]
      simp only [write, mk.injEq, and_self, and_true]
      funext other
      by_cases hother : other = id
      · simp [hother]
      · simp [hother]

theorem after_closed (r : RunRows) {pending : Option (List Change)} (h : pending.isSome = true)
    (ids : List OrderId) :
    r.after (pending.map (fun changes => changes ++ ids.map Change.orderClosed)) =
      { r.after pending with
        orders := fun id => if id ∈ ids then none else (r.after pending).orders id } := by
  obtain ⟨changes, rfl⟩ := Option.isSome_iff_exists.1 h
  rw [Option.map_some, after_some, List.foldl_append, foldl_closed]
  rfl

end RunRows

/-- The order a change names, where its row is under an id. -/
def Change.order? : Change → Option OrderId
  | .orderRested row => some row.orderId
  | .orderReduced orderId _ | .orderClosed orderId => some orderId
  | _ => none

/-- No change of the record names an order a column cannot tell from another. -/
def IdsFit (pending : Option (List Change)) : Prop :=
  ∀ change ∈ pending.getD [], ∀ id ∈ change.order?, id ≤ u64Max

namespace IdsFit

variable {pending : Option (List Change)}

theorem record (h : IdsFit pending) {change : Change} (hid : ∀ id ∈ change.order?, id ≤ u64Max) :
    IdsFit (Matcher.record pending change) := by
  cases pending with
  | none => exact h
  | some changes =>
      intro c hc
      rcases List.mem_append.1 hc with hc | hc
      · exact h c hc
      · rw [List.mem_singleton.1 hc]
        exact hid

theorem closed (h : IdsFit pending) {ids : List OrderId} (hids : ∀ id ∈ ids, id ≤ u64Max) :
    IdsFit (pending.map (fun changes => changes ++ ids.map Change.orderClosed)) := by
  cases pending with
  | none => exact h
  | some changes =>
      intro c hc
      rcases List.mem_append.1 hc with hc | hc
      · exact h c hc
      · obtain ⟨id, hid, rfl⟩ := List.mem_map.1 hc
        intro other hother
        cases hother
        exact hids id hid

theorem makerChange (h : IdsFit pending) {maker : OrderId} (hid : maker ≤ u64Max) (left : Int) :
    IdsFit (Matcher.record pending (Matcher.makerChange maker left)) := by
  refine h.record (fun id hmem => ?_)
  unfold Matcher.makerChange at hmem
  split_ifs at hmem
  all_goals
    cases hmem
    exact hid

end IdsFit

/-! ## The rows of the books -/

open MatcherState

/-- These rows, by id, are the orders that wait in these books. -/
structure Lists (books : Books) (orders : OrderId → Option OrderRow) : Prop where
  named : ∀ {id row}, orders id = some row → row.orderId = id
  waiting : ∀ {row}, orders row.orderId = some row ↔ row ∈ restingRows books

theorem rowOf_mem_restingRows {books : Books} {ref : OrderRef} {o : RestingOrder} :
    rowOf ref.symbol ref.side ref.priceCents o ∈ restingRows books ↔ Rests books ref o :=
  mem_restingRows

namespace Lists

variable {symbols : SymbolRegistry} {last : OrderId} {books books' : Books}
  {openOrders : SortedMap OrderId OrderRef} {orders orders' : OrderId → Option OrderRow}
  {ref : OrderRef} {old new : Level}

theorem empty : Lists .empty (fun _ => none) where
  named h := by cases h
  waiting := by simp [restingRows]

theorem congr_levels (h : Lists books orders)
    (hlevels : ∀ symbol side price, levelAt books' symbol side price =
      levelAt books symbol side price) : Lists books' orders where
  named := h.named
  waiting {row} := by
    rw [h.waiting, mem_restingRows, mem_restingRows]
    exact (rests_congr hlevels).symm

theorem get (h : Lists books orders) {o : RestingOrder} (ho : Rests books ref o) :
    orders o.id = some (rowOf ref.symbol ref.side ref.priceCents o) :=
  h.waiting.2 (rowOf_mem_restingRows.2 ho)

/-- One level is replaced, and the rows follow. -/
theorem edit (h : Lists books orders) (hbooks : BookInv symbols last books openOrders)
    (hedit : LevelEdit books books' ref old new)
    (hnew : ∀ o ∈ new, orders' o.id = some (rowOf ref.symbol ref.side ref.priceCents o))
    (hgone : ∀ o ∈ old, o.id ∉ new.map RestingOrder.id → orders' o.id = none)
    (hkept : ∀ id, id ∉ new.map RestingOrder.id → id ∉ old.map RestingOrder.id →
      orders' id = orders id)
    (hfresh : ∀ o ∈ new, o.id ∈ old.map RestingOrder.id ∨ orders o.id = none) :
    Lists books' orders' where
  named {id row} hrow := by
    by_cases hin : id ∈ new.map RestingOrder.id
    · obtain ⟨o, ho, rfl⟩ := List.mem_map.1 hin
      obtain rfl := Option.some.inj ((hnew o ho).symm.trans hrow)
      rfl
    · by_cases hwas : id ∈ old.map RestingOrder.id
      · obtain ⟨o, ho, rfl⟩ := List.mem_map.1 hwas
        rw [hgone o ho hin] at hrow
        cases hrow
      · exact h.named ((hkept id hin hwas).symm.trans hrow)
  waiting {row} := by
    rw [mem_restingRows]
    constructor
    · intro hrow
      by_cases hin : row.orderId ∈ new.map RestingOrder.id
      · obtain ⟨o, ho, hid⟩ := List.mem_map.1 hin
        rw [← hid, hnew o ho] at hrow
        cases hrow
        exact hedit.rests_here.2 ho
      · by_cases hwas : row.orderId ∈ old.map RestingOrder.id
        · obtain ⟨o, ho, hid⟩ := List.mem_map.1 hwas
          rw [← hid, hgone o ho (hid ▸ hin)] at hrow
          cases hrow
        · rw [hkept _ hin hwas] at hrow
          have hrests := mem_restingRows.1 (h.waiting.1 hrow)
          refine (hedit.rests_elsewhere (fun hplace => hwas ?_)).2 hrests
          rw [hplace] at hrests
          exact List.mem_map_of_mem (hedit.mem_old.2 hrests)
    · intro hrests
      by_cases hplace : (⟨row.symbol, row.side, row.priceCents⟩ : OrderRef) = ref
      · subst hplace
        exact hnew _ (hedit.rests_here.1 hrests)
      · have hbefore := (hedit.rests_elsewhere hplace).1 hrests
        have hrow := h.get hbefore
        -- An order that waits elsewhere is in neither of the two levels.
        have hold : row.orderId ∉ old.map RestingOrder.id := fun hin => by
          obtain ⟨o, ho, hid⟩ := List.mem_map.1 hin
          exact hplace (hbooks.rests_unique hbefore (hedit.mem_old.1 ho) hid.symm).1
        have hother : row.orderId ∉ new.map RestingOrder.id := fun hin => by
          obtain ⟨o, ho, hid⟩ := List.mem_map.1 hin
          rcases hfresh o ho with hwas | hnone
          · exact hold (hid ▸ hwas)
          · rw [hid, hrow] at hnone
            cases hnone
        rw [hkept _ hother hold]
        exact hrow

/-- One order leaves its level. -/
theorem close (h : Lists books orders) (hbooks : BookInv symbols last books openOrders)
    (hedit : LevelEdit books books' ref old new) (id : OrderId)
    (hnew : ∀ o, o ∈ new ↔ o ∈ old ∧ o.id ≠ id) (hold : ∃ o ∈ old, o.id = id) :
    Lists books' (Function.update orders id none) := by
  refine h.edit hbooks hedit (fun o ho => ?_) (fun o ho hnot => ?_) (fun other _ hnot => ?_)
    (fun o ho => .inl (List.mem_map_of_mem ((hnew o).1 ho).1))
  · obtain ⟨hmem, hne⟩ := (hnew o).1 ho
    rw [Function.update_of_ne hne]
    exact h.get (hedit.mem_old.1 hmem)
  · have hid : o.id = id := by
      by_contra hne
      exact hnot (List.mem_map_of_mem ((hnew o).2 ⟨ho, hne⟩))
    rw [hid, Function.update_self]
  · refine Function.update_of_ne ?_ _ _
    rintro rfl
    obtain ⟨o, ho, hid⟩ := hold
    exact hnot (List.mem_map.2 ⟨o, ho, hid⟩)

/-- The rows a fill leaves: its maker shrinks, or leaves. -/
theorem fill {maker : RestingOrder} {rest : Level} {left : Int} (h : Lists books orders)
    (hbooks : BookInv symbols last books openOrders)
    (hedit : LevelEdit books books' ref (maker :: rest) (levelAfter maker left rest))
    (hincreasing : Increasing (maker :: rest)) (r : RunRows) (hr : r.orders = orders) :
    Lists books' (r.write (makerChange maker.id left)).orders := by
  obtain ⟨hhead, -⟩ := List.pairwise_cons.1 hincreasing
  have hbehind : ∀ o ∈ rest, o.id ≠ maker.id := fun o ho => (ne_of_lt (hhead o ho)).symm
  unfold makerChange
  by_cases hleft : left = 0
  · rw [if_pos hleft]
    have hclosed := h.close hbooks hedit maker.id (fun o => ?_)
      ⟨maker, List.mem_cons_self, rfl⟩
    · rw [← hr] at hclosed
      exact hclosed
    · rw [levelAfter, if_pos hleft, List.mem_cons]
      constructor
      · exact fun ho => ⟨.inr ho, hbehind o ho⟩
      · rintro ⟨rfl | ho, hne⟩
        · exact absurd rfl hne
        · exact ho
  · rw [if_neg hleft]
    have hmaker := h.get (hedit.mem_old.1 List.mem_cons_self)
    have hids : (levelAfter maker left rest).map RestingOrder.id =
        (maker :: rest).map RestingOrder.id := by
      rw [ids_levelAfter, if_neg hleft]
      rfl
    refine h.edit hbooks hedit (fun o ho => ?_) (fun o ho hnot => ?_) (fun id hnot _ => ?_)
      (fun o ho => .inl ?_)
    · rw [levelAfter, if_neg hleft] at ho
      rcases List.mem_cons.1 ho with rfl | ho
      · simp only [RunRows.write, hr, Function.update_self, hmaker, Option.map_some]
        rfl
      · simp only [RunRows.write, hr, Function.update_of_ne (hbehind o ho)]
        exact h.get (hedit.mem_old.1 (List.mem_cons_of_mem _ ho))
    · rw [hids] at hnot
      exact absurd (List.mem_map_of_mem ho) hnot
    · have hne : id ≠ maker.id := by
        rintro rfl
        rw [hids] at hnot
        exact hnot (List.mem_map_of_mem List.mem_cons_self)
      simp only [RunRows.write, hr, Function.update_of_ne hne]
    · rw [← hids]
      exact List.mem_map_of_mem ho

/-- An order goes to the back of its level. -/
theorem rest {o : RestingOrder} (h : Lists books orders)
    (hbooks : BookInv symbols last books openOrders)
    (hedit : LevelEdit books books' ref old (old ++ [o])) (hfresh : last < o.id) :
    Lists books' (Function.update orders o.id
      (some (rowOf ref.symbol ref.side ref.priceCents o))) := by
  have hpast : ∀ x ∈ old, x.id ≠ o.id := fun x hx =>
    ne_of_lt (lt_of_le_of_lt (hbooks.sound_of_rests (hedit.mem_old.1 hx)).past hfresh)
  have hnone : orders o.id = none := by
    by_contra hsome
    obtain ⟨row, hrow⟩ := Option.ne_none_iff_exists'.1 hsome
    have hid := h.named hrow
    rw [← hid] at hrow
    have hle := (hbooks.sound_of_rests (mem_restingRows.1 (h.waiting.1 hrow))).past
    exact absurd (lt_of_le_of_lt (hid ▸ hle) hfresh) (lt_irrefl _)
  refine h.edit hbooks hedit (fun x hx => ?_) (fun x hx hnot => ?_) (fun id hnot _ => ?_)
    (fun x hx => ?_)
  · rcases List.mem_append.1 hx with hx | hx
    · rw [Function.update_of_ne (hpast x hx)]
      exact h.get (hedit.mem_old.1 hx)
    · rw [List.mem_singleton.1 hx, Function.update_self]
  · exact absurd (List.mem_map_of_mem (List.mem_append_left _ hx)) hnot
  · refine Function.update_of_ne ?_ _ _
    rintro rfl
    exact hnot (List.mem_map_of_mem (List.mem_append_right _ (List.mem_singleton_self o)))
  · rcases List.mem_append.1 hx with hx | hx
    · exact .inl (List.mem_map_of_mem hx)
    · rw [List.mem_singleton.1 hx]
      exact .inr hnone

/-- A whole book leaves. -/
theorem clear {symbol : String} {book : Book} (h : Lists books orders)
    (hbooks : BookInv symbols last books openOrders) (hbook : books.get? symbol = some book) :
    Lists (books.erase symbol) (fun id =>
      if id ∈ (restingOrders book).map RestingOrder.id then none else orders id) where
  named {id row} hrow := by
    split_ifs at hrow
    exact h.named hrow
  waiting {row} := by
    have hgone : row.orderId ∈ (restingOrders book).map RestingOrder.id →
        orders row.orderId = some row → row.symbol = symbol := fun hin hrow => by
      obtain ⟨o, ho, hid⟩ := List.mem_map.1 hin
      obtain ⟨side, price, level, hlevel, hmem⟩ := mem_restingOrders.1 ho
      have hrests : Rests books ⟨symbol, side, price⟩ o :=
        ⟨level, levelAt_eq_some.2 ⟨book, hbook, hlevel⟩, hmem⟩
      exact congrArg OrderRef.symbol
        (hbooks.rests_unique (mem_restingRows.1 (h.waiting.1 hrow)) hrests hid.symm).1
    rw [mem_restingRows]
    constructor
    · intro hrow
      split_ifs at hrow with hnot
      obtain ⟨level, hlevel, hmem⟩ := mem_restingRows.1 (h.waiting.1 hrow)
      refine ⟨level, ?_, hmem⟩
      rw [levelAt_erase, if_neg]
      · exact hlevel
      · intro hsymbol
        dsimp only at hsymbol hlevel
        rw [hsymbol] at hlevel
        obtain ⟨book', hbook', hget⟩ := levelAt_eq_some.1 hlevel
        cases hbook.symm.trans hbook'
        exact hnot (List.mem_map_of_mem (mem_restingOrders.2 ⟨_, _, level, hget, hmem⟩))
    · rintro ⟨level, hlevel, hmem⟩
      rw [levelAt_erase] at hlevel
      split_ifs at hlevel with hsymbol
      have hrow := h.waiting.2 (mem_restingRows.2 ⟨level, hlevel, hmem⟩)
      rw [if_neg (fun hin => hsymbol (hgone hin hrow)), hrow]

end Lists

/-! ## The record of the engine -/

/-- The row of one market. -/
def listingRowOf (symbol : String) (l : Listing) : ListingRow where
  symbol := symbol
  priceStepCents := l.priceStepCents
  quantityStepTenths := l.quantityStepTenths
  listed := l.listed
  listedBy := l.listedBy

/-- These rows are the books of one match and the trades made so far. -/
structure PartsShown (books : Books) (symbol : String) (into : BookAndTrades) (r : RunRows) :
    Prop where
  orders : Lists (books.insert symbol into.book) r.orders
  trades : into.totals.Kept r.trades

/-- A match that records writes the rows of its parts over those it started from. -/
structure PartsRecorded (base : RunRows) (books : Books) (symbol : String)
    (listings : String → Option ListingRow) (into : BookAndTrades) : Prop where
  records : into.pending.isSome = true
  fits : IdsFit into.pending
  shown : PartsShown books symbol into (base.after into.pending)
  listings : (base.after into.pending).listings = listings

theorem RunRows.listings_makerChange (r : RunRows) (makerOrder : OrderId) (makerLeft : Int) :
    (r.write (makerChange makerOrder makerLeft)).listings = r.listings := by
  unfold makerChange
  split_ifs <;> rfl

theorem RunRows.trades_makerChange (r : RunRows) (makerOrder : OrderId) (makerLeft : Int) :
    (r.write (makerChange makerOrder makerLeft)).trades = r.trades := by
  unfold makerChange
  split_ifs <;> rfl

section Match

variable {base : RunRows} {symbols : SymbolRegistry} {last : OrderId} {books : Books}
  {order : IncomingOrder} {remaining left : Int} {before after into : BookAndTrades}
  {listings : String → Option ListingRow}

theorem PartsRecorded.fill {e : FillEvent}
    (h : PartsRecorded base books order.symbol listings into)
    (hbooks : MatchInv symbols last books order remaining into) (hlast : last ≤ u64Max)
    (enabled : e.Enabled order remaining into) :
    PartsRecorded base books order.symbol listings (e.result order remaining into) := by
  have hlevel : levelAt (books.insert order.symbol into.book) order.symbol order.side.opposite
      e.price = some (e.maker :: e.rest) := levelAt_eq_some.2 ⟨into.book, by simp, enabled.level⟩
  have htraded : (record into.pending
      (.traded (tradeOf order (e.planned remaining) (into.tradesTotal + 1)))).isSome = true := by
    rw [record, Option.isSome_map]
    exact h.records
  have hrows : base.after (e.result order remaining into).pending =
      ((base.after into.pending).write
        (.traded (tradeOf order (e.planned remaining) (into.tradesTotal + 1)))).write
          (makerChange e.maker.id (e.makerLeft remaining)) := by
    rw [FillEvent.result, RunRows.after_record _ htraded, RunRows.after_record _ h.records]
  refine ⟨e.isSome_pending_result h.records, ?_, ?_, ?_⟩
  · have hmaker := (hbooks.books.sound hlevel e.maker List.mem_cons_self).past.trans hlast
    exact (h.fits.record (fun id hid => by cases hid)).makerChange hmaker _
  · rw [hrows]
    refine ⟨?_, ?_⟩
    · exact h.shown.orders.fill hbooks.books (enabled.levelEdit books)
        (hbooks.books.increasing hlevel) _ rfl
    · rw [RunRows.trades_makerChange, enabled.totals_result]
      exact h.shown.trades.replay rfl enabled.counted (hbooks.onGrid enabled _)
  · rw [hrows, RunRows.listings_makerChange]
    exact h.listings

theorem PartsRecorded.fills (h : PartsRecorded base books order.symbol listings before)
    (hbooks : MatchInv symbols last books order remaining before) (hlast : last ≤ u64Max)
    (hfills : Fills order remaining before left after) :
    PartsRecorded base books order.symbol listings after :=
  (hfills.invariant
    (P := fun remaining into => MatchInv symbols last books order remaining into ∧
      PartsRecorded base books order.symbol listings into)
    (fun _ _ _ enabled hinto => ⟨hinto.1.fill enabled, hinto.2.fill hinto.1 hlast enabled⟩)
    ⟨hbooks, h⟩).2

theorem PartsRecorded.rest (h : PartsRecorded base books order.symbol listings into)
    (hbooks : MatchInv symbols last books order left into) (hnew : last < order.id)
    (hmax : order.id ≤ u64Max) :
    PartsRecorded base books order.symbol listings (MatcherState.rest order left into) := by
  have hrows : base.after (MatcherState.rest order left into).pending =
      (base.after into.pending).write
        (.orderRested (rowOf order.symbol order.side order.limitCents
          ⟨order.id, order.account, left⟩)) := by
    rw [MatcherState.rest, RunRows.after_record _ h.records]
    rfl
  refine ⟨?_, ?_, ?_, ?_⟩
  · rw [MatcherState.rest, record, Option.isSome_map]
    exact h.records
  · refine h.fits.record (fun id hid => ?_)
    cases hid
    exact hmax
  · rw [hrows]
    exact ⟨@Lists.rest _ _ _ _ _ _ _ _ ⟨order.id, order.account, left⟩ h.shown.orders hbooks.books
      (levelEdit_rest books order left into) hnew, h.shown.trades⟩
  · rw [hrows]
    exact h.listings

end Match

namespace MatcherState

/-- What the engine recorded, written over the rows it started from, gives the rows it has now. -/
structure RecordsFrom (base : RunRows) (s : MatcherState) : Prop where
  records : s.pending.isSome = true
  fits : IdsFit s.pending
  orders : Lists s.books (base.after s.pending).orders
  listings : ∀ symbol, (base.after s.pending).listings symbol =
    (s.symbols.get? symbol).map (listingRowOf symbol)
  trades : s.totals.Kept (base.after s.pending).trades

variable {env : Primitives} {s t : MatcherState} {base : RunRows}

theorem RecordsFrom.of_same (h : s.RecordsFrom base) (hpending : t.pending = s.pending)
    (hbooks : ∀ symbol side price, levelAt t.books symbol side price =
      levelAt s.books symbol side price)
    (hsymbols : t.symbols = s.symbols) (htotals : t.totals = s.totals) : t.RecordsFrom base where
  records := by
    rw [hpending]
    exact h.records
  fits := by
    rw [hpending]
    exact h.fits
  orders := by
    rw [hpending]
    exact h.orders.congr_levels hbooks
  listings := by
    rw [hpending, hsymbols]
    exact h.listings
  trades := by
    rw [hpending, htotals]
    exact h.trades

/-- The parts of a match, put back. -/
theorem RecordsFrom.of_parts {symbol : String} {into : BookAndTrades}
    (hparts : PartsRecorded base s.books symbol
      (fun symbol => (s.symbols.get? symbol).map (listingRowOf symbol)) into) :
    (s.withBookAndTrades symbol into).RecordsFrom base where
  records := hparts.records
  fits := hparts.fits
  orders := hparts.shown.orders
  listings := congrFun hparts.listings
  trades := hparts.shown.trades

theorem RecordsFrom.pruned (h : s.RecordsFrom base) (symbol : String) (atMs : Nat) :
    ((s.pruneBook symbol).observeMid symbol atMs).RecordsFrom base :=
  h.of_same rfl (levelAt_pruneBook s symbol) rfl rfl

/-- A match starts from the rows as they are. -/
theorem RecordsFrom.parts (h : s.RecordsFrom base) (symbol : String) (ledger : Ledger) :
    PartsRecorded base s.books symbol
      (fun symbol => (s.symbols.get? symbol).map (listingRowOf symbol))
      { s.bookAndTrades symbol with ledger := ledger } where
  records := h.records
  fits := h.fits
  shown := ⟨h.orders.congr_levels (levelAt_insert_getD s.books symbol), h.trades⟩
  listings := funext h.listings

theorem RecordsFrom.matched (h : s.RecordsFrom base) (hs : s.WellFormed) {m : NewMessage}
    (hnew : s.lastSeen < m.id) (hmax : m.id ≤ u64Max) {order : IncomingOrder} {left : Int}
    {after : BookAndTrades}
    (haccepted : s.Accepted m order) (hexecuted : s.Executed order left after)
    (hfinished : Finished s order left after t) : t.RecordsFrom base := by
  obtain ⟨reserved, -, hfills⟩ := hexecuted.filled
  have hbefore : MatchInv s.symbols s.lastSeen s.books order order.qtyTenths
      { s.bookAndTrades order.symbol with ledger := reserved } := hs.matchInv haccepted
  have hparts := (h.parts order.symbol reserved).fills hbefore (hnew.le.trans hmax) hfills
  have hledger (ledger : Ledger) : PartsRecorded base s.books order.symbol
      (fun symbol => (s.symbols.get? symbol).map (listingRowOf symbol))
      { after with ledger := ledger } :=
    ⟨hparts.records, hparts.fits, ⟨hparts.shown.orders, hparts.shown.trades⟩, hparts.listings⟩
  cases hfinished with
  | overflowed _ ledger =>
      have hback := RecordsFrom.of_parts (hledger ledger)
      exact RecordsFrom.pruned (s := (s.withBookAndTrades order.symbol
        { after with ledger := ledger }).ignoreOrder ⟨"position_overflow"⟩)
        (hback.of_same rfl (fun _ _ _ => rfl) rfl rfl) _ _
  | filled => exact (RecordsFrom.of_parts hparts).pruned _ _
  | rested =>
      have hid : s.lastSeen < order.id := by
        rw [haccepted.id_eq]
        exact hnew
      have hidMax : order.id ≤ u64Max := by
        rw [haccepted.id_eq]
        exact hmax
      exact (RecordsFrom.of_parts (hparts.rest (hbefore.fills hfills) hid hidMax)).pruned _ _
  | cancelled _ _ _ ledger => exact (RecordsFrom.of_parts (hledger ledger)).pruned _ _

/-- One more change the engine records. -/
theorem isSome_record {pending : Option (List Change)} (h : pending.isSome = true)
    (change : Change) : (record pending change).isSome = true := by
  rw [record, Option.isSome_map]
  exact h

theorem RecordsFrom.cancelled (h : s.RecordsFrom base) (hs : s.WellFormed)
    (hmax : s.lastSeen ≤ u64Max) {target : OrderId} {ref : OrderRef} {book : Book}
    (href : s.openOrders.get? target = some ref) (hbook : s.books.get? ref.symbol = some book) (timestamp : Nat) (ledger : Ledger) :
    (s.orderRemoved ref target timestamp ledger book).RecordsFrom base := by
  obtain ⟨level, hlevel, o, ho, rfl⟩ := hs.books.exists_of_indexed href
  obtain ⟨book', hbook', hget⟩ := levelAt_eq_some.1 hlevel
  cases hbook.symm.trans hbook'
  have hclosed := h.orders.close hs.books (levelEdit_withoutOrder hbook hget o.id) o.id
    (fun x => by simp [List.mem_filter]) ⟨o, ho, rfl⟩
  have hrows : base.after (record s.pending (.orderClosed o.id)) =
      (base.after s.pending).write (.orderClosed o.id) := RunRows.after_record _ h.records _
  refine ⟨isSome_record h.records _, ?_, ?_, ?_, ?_⟩
  · refine h.fits.record (fun id hid => ?_)
    cases hid
    exact (hs.books.sound hlevel o ho).past.trans hmax
  · show Lists _ (base.after (record s.pending (.orderClosed o.id))).orders
    rw [hrows]
    exact hclosed.congr_levels (fun _ _ _ => levelAt_pruneBook _ _ _ _ _)
  · show ∀ symbol, (base.after (record s.pending (.orderClosed o.id))).listings symbol = _
    rw [hrows]
    exact h.listings
  · show Totals.Kept _ (base.after (record s.pending (.orderClosed o.id))).trades
    rw [hrows]
    exact h.trades

/-- A market that opens, or opens again. -/
theorem RecordsFrom.listed (h : s.RecordsFrom base) (symbol : String) (listing : Listing)
    {row : ListingRow} (hrow : row = listingRowOf symbol listing)
    (hsymbols : t.symbols = s.symbols.insert symbol listing)
    (hpending : t.pending = record s.pending (.symbolListed row)) (hbooks : t.books = s.books)
    (htotals : t.totals = s.totals) : t.RecordsFrom base := by
  have hrows : base.after t.pending = (base.after s.pending).write (.symbolListed row) := by
    rw [hpending]
    exact RunRows.after_record _ h.records _
  refine ⟨?_, ?_, ?_, fun q => ?_, ?_⟩
  · rw [hpending]
    exact isSome_record h.records _
  · rw [hpending]
    exact h.fits.record (fun id hid => by cases hid)
  · rw [hrows, hbooks]
    exact h.orders
  · rw [hrows, hsymbols, SortedMap.get?_insert]
    subst hrow
    by_cases hq : q = symbol
    · subst hq
      rw [if_pos rfl, Option.map_some]
      exact Function.update_self ..
    · rw [if_neg hq, ← h.listings q]
      exact Function.update_of_ne hq _ _
  · rw [hrows, htotals]
    exact h.trades

/-- A market that closes keeps its row. -/
theorem RecordsFrom.delisted (h : s.RecordsFrom base) {symbol : String} {listing : Listing}
    (hget : s.symbols.get? symbol = some listing)
    (hsymbols : t.symbols = s.symbols.insert symbol { listing with listed := false })
    (hpending : t.pending = record s.pending (.symbolDelisted symbol)) (hbooks : t.books = s.books)
    (htotals : t.totals = s.totals) : t.RecordsFrom base := by
  have hrows : base.after t.pending = (base.after s.pending).write (.symbolDelisted symbol) := by
    rw [hpending]
    exact RunRows.after_record _ h.records _
  refine ⟨?_, ?_, ?_, fun q => ?_, ?_⟩
  · rw [hpending]
    exact isSome_record h.records _
  · rw [hpending]
    exact h.fits.record (fun id hid => by cases hid)
  · rw [hrows, hbooks]
    exact h.orders
  · rw [hrows, hsymbols, SortedMap.get?_insert]
    by_cases hq : q = symbol
    · subst hq
      have hrow := h.listings q
      rw [hget] at hrow
      rw [if_pos rfl, Option.map_some]
      refine (Function.update_self ..).trans ?_
      rw [hrow]
      rfl
    · rw [if_neg hq, ← h.listings q]
      exact Function.update_of_ne hq _ _
  · rw [hrows, htotals]
    exact h.trades

theorem RecordsFrom.cleared (h : s.RecordsFrom base) (hs : s.WellFormed)
    (hmax : s.lastSeen ≤ u64Max) {symbol : String} {book : Book}
    (hbook : s.books.get? symbol = some book) (ledger : Ledger) :
    (s.bookCleared symbol ((restingOrders book).map RestingOrder.id) ledger).RecordsFrom base := by
  have hrows := base.after_closed h.records ((restingOrders book).map RestingOrder.id)
  refine ⟨Option.isSome_map.trans h.records, h.fits.closed (fun id hid => ?_), ?_, ?_, ?_⟩
  · obtain ⟨o, ho, rfl⟩ := List.mem_map.1 hid
    obtain ⟨_, _, level, hlevel, hmem⟩ := mem_restingOrders.1 ho
    exact (hs.books.sound (levelAt_eq_some.2 ⟨book, hbook, hlevel⟩) o hmem).past.trans hmax
  · show Lists _ (base.after (s.pending.map _)).orders
    rw [hrows]
    exact h.orders.clear hs.books hbook
  · show ∀ q, (base.after (s.pending.map _)).listings q = _
    rw [hrows]
    exact h.listings
  · show Totals.Kept _ (base.after (s.pending.map _)).trades
    rw [hrows]
    exact h.trades

/-- Every message writes its rows. -/
theorem RecordsFrom.dispatch (h : s.RecordsFrom base) (hs : s.WellFormed) {message : OrderMessage}
    (hnew : s.lastSeen < message.id) (hmax : message.id ≤ u64Max)
    (hdispatch : dispatch env s message = .ok t) :
    t.RecordsFrom base := by
  have hsame : ∀ t : MatcherState, t.pending = s.pending → t.books = s.books →
      t.symbols = s.symbols → t.totals = s.totals → t.RecordsFrom base :=
    fun t hpending hbooks hsymbols htotals =>
      h.of_same hpending (fun _ _ _ => by rw [hbooks]) hsymbols htotals
  cases dispatch_cases hs.noEmptyLevel hdispatch with
  | refused | cancelIgnored | cancelRejected | ignored | ruled => exact hsame _ rfl rfl rfl rfl
  | refusedOnBook m why =>
      refine h.of_same rfl (fun symbol side price => ?_) rfl rfl
      refine (levelAt_pruneBook _ _ _ _ _).trans ?_
      exact levelAt_insert_getD s.books m.symbol symbol side price
  | matched m _ _ _ _ haccepted hexecuted hfinished =>
      exact h.matched hs hnew hmax haccepted hexecuted hfinished
  | cancelled m ref ledger _ book howner _ hbook =>
      exact h.cancelled hs (hnew.le.trans hmax) (ownerOf_eq_some.1 howner).1 hbook m.timestamp
        ledger
  | listed m _ _ _ listing hlisting _ =>
      obtain ⟨-, -, -, hlisted, hby⟩ := listingOf_eq_some hlisting
      refine h.listed m.symbol listing ?_ rfl rfl rfl rfl
      rw [listingRowOf, hlisted, hby]
  | delisted m _ _ _ listing cleared hlisting hcleared =>
      obtain ⟨hget, -⟩ := Option.filter_eq_some_iff.1 hlisting
      rcases clearBook_eq_ok hcleared with ⟨-, rfl⟩ | ⟨book, ledger, hbook, -, rfl⟩
      · exact h.delisted hget rfl rfl rfl rfl
      · exact RecordsFrom.delisted (h.cleared hs (hnew.le.trans hmax) hbook ledger) hget rfl rfl
          rfl rfl

theorem RecordsFrom.apply (h : s.RecordsFrom base) (hs : s.WellFormed) {message : OrderMessage}
    {received : Option Bytes} (happly : s.apply env message received = .ok t) :
    t.RecordsFrom base := by
  obtain ⟨hid, u, hdispatch, hconsume⟩ := apply_eq_ok happly
  have hnext := hs.next_eq hdispatch hconsume
  have hmax : message.id ≤ u64Max := by
    rw [hid]
    exact min_le_right _ _
  have hu := h.dispatch hs (hnext ▸ Nat.lt_succ_self _) hmax hdispatch
  simp only [consume, bind_eq_ok] at hconsume
  obtain ⟨_, -, hconsume⟩ := hconsume
  cases hconsume
  have hrows : base.after (record u.pending (.consumed message)) = base.after u.pending :=
    RunRows.after_record _ hu.records _
  refine ⟨isSome_record hu.records _, hu.fits.record (fun id hid => by cases hid), ?_, ?_, ?_⟩
  · show Lists _ (base.after (record u.pending (.consumed message))).orders
    rw [hrows]
    exact hu.orders
  · show ∀ q, (base.after (record u.pending (.consumed message))).listings q = _
    rw [hrows]
    exact hu.listings
  · show Totals.Kept _ (base.after (record u.pending (.consumed message))).trades
    rw [hrows]
    exact hu.trades

/-! ## An engine over rows on disk -/

/-- The rows are what the engine holds, once nothing is left to write. -/
structure Shows (r : RunRows) (s : MatcherState) : Prop where
  orders : Lists s.books r.orders
  listings : ∀ symbol, r.listings symbol = (s.symbols.get? symbol).map (listingRowOf symbol)
  trades : s.totals.Kept r.trades

/-- An engine whose changes are all on disk starts its next batch from the rows there. -/
theorem Shows.recordsFrom (h : Shows base s) (hpending : s.pending = some []) :
    s.RecordsFrom base where
  records := by
    rw [hpending]
    rfl
  fits := by
    rw [hpending]
    exact fun change hchange => by cases hchange
  orders := by
    rw [hpending]
    exact h.orders
  listings := by
    rw [hpending]
    exact h.listings
  trades := by
    rw [hpending]
    exact h.trades

/-- What an engine keeps from one batch to the next, whether it was restored or not. Where its
ledger stands is not part of it: a ledger that stands elsewhere takes no message. -/
structure Steady (s : MatcherState) : Prop where
  books : Between s.lastSeen s
  counted : s.Counted

theorem Steady.of_wellFormed (hs : s.WellFormed) (hcounted : s.Counted) : s.Steady :=
  ⟨⟨hs.books, hs.noEmptyBook, hs.registry⟩, hcounted⟩

/-- An engine that takes a message has its ledger at its cursor. -/
theorem Steady.wellFormed (h : s.Steady) (hroom : s.lastSeen < u64Max) {message : OrderMessage}
    {received : Option Bytes} (happly : s.apply env message received = .ok t) : s.WellFormed := by
  obtain ⟨hid, u, hdispatch, hconsume⟩ := apply_eq_ok happly
  have hsequence : message.id = s.ledger.lastSequence + 1 := by
    rw [(consume_eq_ok hconsume).1,
      lastSequence_dispatch (fun symbol side => h.books.books.noEmptyLevel symbol side) hdispatch]
  have hnext : message.id = s.lastSeen + 1 := hid.trans (min_eq_left hroom)
  exact ⟨h.books.books, h.books.noEmptyBook, h.books.registry,
    Nat.succ.inj (hsequence.symm.trans hnext)⟩

theorem Counted.apply (h : s.Counted) (hs : s.WellFormed) {message : OrderMessage}
    {received : Option Bytes} (happly : s.apply env message received = .ok t) : t.Counted := by
  obtain ⟨-, u, hdispatch, hconsume⟩ := apply_eq_ok happly
  have hnext := hs.next_eq hdispatch hconsume
  obtain ⟨-, -, -, hlast, -, -, hopen, -, htotal, -⟩ := consume_eq_ok hconsume
  have hcount := h.dispatch hs hdispatch
  unfold Counted
  rwa [hopen, htotal, hlast, hnext]

/-- A batch run from the rows on disk records exactly what it adds to them. -/
theorem RecordsFrom.run (h : s.RecordsFrom base) (hs : s.Steady) (hroom : s.lastSeen < u64Max) :
    ∀ {log : List (OrderMessage × Option Bytes)}, MatcherState.run env s log = .ok t →
      t.RecordsFrom base ∧ t.Steady
  | [], hrun => by
      cases hrun
      exact ⟨h, hs⟩
  | (message, received) :: log, hrun => by
      rw [MatcherState.run, List.foldlM_cons, bind_eq_ok] at hrun
      obtain ⟨u, happly, hrun⟩ := hrun
      have hwell := hs.wellFormed hroom happly
      obtain ⟨hrecords, hu, hcounted⟩ := foldlM_invariant
        (fun t : MatcherState => t.RecordsFrom base ∧ t.WellFormed ∧ t.Counted)
        (fun _ _ _ hall happly => ⟨hall.1.apply hall.2.1 happly, hall.2.1.apply happly,
          hall.2.2.apply hall.2.1 happly⟩) log u t
        ⟨h.apply hwell happly, hwell.apply happly, hs.counted.apply hwell happly⟩ hrun
      exact ⟨hrecords, .of_wellFormed hu hcounted⟩

/-- What a batch hands over leaves the engine over the rows it adds up to. -/
theorem RecordsFrom.takePending (h : s.RecordsFrom base) {pending : Poller.PendingCommit}
    {kept : MatcherState} (htaken : Poller.takePending env s = some (pending, kept)) :
    kept = { s with pending := some [] } ∧ IdsFit (some pending.changes) ∧
      Shows (base.after (some pending.changes)) kept := by
  obtain ⟨changes, hpending, hmade⟩ := Option.map_eq_some_iff.1 htaken
  cases hmade
  refine ⟨rfl, fun change hchange => ?_, ?_⟩
  · have hfits := h.fits
    rw [hpending] at hfits
    dsimp only [Option.getD_some] at hchange
    split_ifs at hchange
    · cases hchange
    · rcases List.mem_append.1 hchange with hmem | hmem
      · exact hfits change hmem
      · rw [List.mem_singleton.1 hmem]
        exact fun id hid => by cases hid
  have hrows : base.after (some (if changes.isEmpty then []
      else changes ++ [.executionState s.executionState])) = base.after s.pending := by
    rw [hpending, RunRows.after_some, RunRows.after_some]
    cases changes with
    | nil => rfl
    | cons first rest =>
        show (first :: rest ++ [_]).foldl RunRows.write base = _
        rw [List.foldl_append]
        rfl
  rw [hrows]
  exact ⟨h.orders, h.listings, h.trades⟩

end MatcherState

end Matcher
end VerifiableExchange
