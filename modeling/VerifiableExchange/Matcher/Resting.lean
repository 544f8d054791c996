import VerifiableExchange.Matcher.Books
import VerifiableExchange.Matcher.Run

/-!
# Resting — the books stay well formed over every run

Each way a message changes a book is one level edit: a fill shortens the front of the best level, a
remainder goes to the back of its own level, a cancel takes one order out. A delist takes the whole
book.
-/

namespace VerifiableExchange
namespace Matcher

open Lib

/-! ## One fill -/

/-- Resting orders of both sides do not cross. -/
theorem BookInv.not_crosses {symbols : SymbolRegistry} {last : OrderId} {books : Books}
    {openOrders : SortedMap OrderId OrderRef} (h : BookInv symbols last books openOrders)
    {symbol : String} {side : Side} {p q : Int} {own other : Level}
    (hown : levelAt books symbol side p = some own)
    (hother : levelAt books symbol side.opposite q = some other) : ¬crosses side q p := by
  cases side with
  | buy => exact not_le.2 (h.uncrossed hown hother)
  | sell => exact not_le.2 (h.uncrossed hother hown)

theorem mem_levelAfter {maker o : RestingOrder} {left : Int} {rest : Level}
    (h : o ∈ levelAfter maker left rest) :
    o ∈ rest ∨ (left ≠ 0 ∧ o = { maker with qtyTenths := left }) := by
  unfold levelAfter at h
  split_ifs at h with hdone
  · exact Or.inl h
  · rcases List.mem_cons.1 h with rfl | h
    · exact Or.inr ⟨hdone, rfl⟩
    · exact Or.inl h

theorem increasing_levelAfter {maker : RestingOrder} {left : Int} {rest : Level}
    (h : Increasing (maker :: rest)) : Increasing (levelAfter maker left rest) := by
  obtain ⟨hhead, hrest⟩ := List.pairwise_cons.1 h
  unfold levelAfter
  split_ifs
  · exact hrest
  · exact List.pairwise_cons.2 ⟨hhead, hrest⟩

theorem ids_levelAfter {maker : RestingOrder} {left : Int} {rest : Level} :
    (levelAfter maker left rest).map RestingOrder.id =
      if left = 0 then rest.map RestingOrder.id else maker.id :: rest.map RestingOrder.id := by
  unfold levelAfter
  split_ifs <;> rfl

/-- A fill replaces the best facing level of its symbol's book. -/
theorem FillEvent.Enabled.levelEdit {order : IncomingOrder} {remaining : Int} {into : BookAndTrades}
    {e : FillEvent} (enabled : e.Enabled order remaining into) (books : Books) :
    LevelEdit (books.insert order.symbol into.book)
      (books.insert order.symbol (e.result order remaining into).book)
      ⟨order.symbol, order.side.opposite, e.price⟩ (e.maker :: e.rest)
      (levelAfter e.maker (e.makerLeft remaining) e.rest) := by
  have hbook : (books.insert order.symbol into.book).getD order.symbol .default = into.book := by
    simp [SortedMap.getD]
  have hput := levelEdit_of_put ⟨order.symbol, order.side.opposite, e.price⟩
    (levelAfter e.maker (e.makerLeft remaining) e.rest) hbook
    (SortedMap.get?_insert_self books order.symbol (e.result order remaining into).book)
    (by
      intro symbol hsymbol
      have hsymbol : symbol ≠ order.symbol := hsymbol
      simp [hsymbol])
  rwa [enabled.level] at hput

/-- What a match of `order` keeps: the books with its own one put back, and what it still wants. -/
structure MatchInv (symbols : SymbolRegistry) (last : OrderId) (books : Books)
    (order : IncomingOrder) (remaining : Int) (into : BookAndTrades) : Prop where
  books : BookInv symbols last (books.insert order.symbol into.book) into.openOrders
  remaining_nonneg : 0 ≤ remaining
  remaining_le : remaining ≤ maxGridUnits
  onLot : ∃ listing, SymbolRegistry.listing symbols order.symbol = some listing ∧
    listing.quantityStepTenths ∣ remaining

theorem MatchInv.fill {symbols : SymbolRegistry} {last : OrderId} {books : Books}
    {order : IncomingOrder} {remaining : Int} {into : BookAndTrades} {e : FillEvent}
    (h : MatchInv symbols last books order remaining into)
    (enabled : e.Enabled order remaining into) :
    MatchInv symbols last books order (remaining - e.qty remaining)
      (e.result order remaining into) := by
  obtain ⟨listing, hlisting, hlot⟩ := h.onLot
  let ref : OrderRef := ⟨order.symbol, order.side.opposite, e.price⟩
  have hedit := enabled.levelEdit books
  have hlevel : levelAt (books.insert order.symbol into.book) ref.symbol ref.side
      ref.priceCents = some (e.maker :: e.rest) :=
    levelAt_eq_some.2 ⟨into.book, by simp [ref], enabled.level⟩
  have hmaker := h.books.sound hlevel e.maker List.mem_cons_self
  obtain ⟨listing', hlisting', hprice, hmakerLot⟩ := hmaker.onSteps
  cases hlisting.symm.trans hlisting'
  have hids := List.pairwise_cons.1 (h.books.increasing hlevel)
  have hwanted := enabled.wanted
  have hpos := hmaker.qty_pos
  have hle := hmaker.qty_le
  have hremaining := h.remaining_le
  have hqty : e.qty remaining = min remaining e.maker.qtyTenths := rfl
  have hleftEq : e.makerLeft remaining = e.maker.qtyTenths - e.qty remaining := rfl
  -- Both quantities are whole lots, so the smaller one is, and so are the two remainders.
  have hqtyLot : listing.quantityStepTenths ∣ e.qty remaining := by
    rw [hqty]
    rcases min_choice remaining e.maker.qtyTenths with hmin | hmin
    · rwa [hmin]
    · rwa [hmin]
  refine {
    books := h.books.edit hedit (increasing_levelAfter (h.books.increasing hlevel)) ?_ ?_ ?_ ?_
    remaining_nonneg := by omega
    remaining_le := by omega
    onLot := ⟨listing, hlisting, dvd_sub hlot hqtyLot⟩ }
  · intro o ho
    rcases mem_levelAfter ho with ho | ⟨hleft, rfl⟩
    · exact h.books.sound hlevel o (List.mem_cons_of_mem _ ho)
    · exact { hmaker with
        qty_pos := by
          show 0 < e.makerLeft remaining
          omega
        qty_le := by
          show e.makerLeft remaining ≤ maxGridUnits
          omega
        onSteps := ⟨listing, hlisting, hprice, dvd_sub hmakerLot hqtyLot⟩ }
  · intro id
    have hmakerOpen := h.books.get?_of_mem hlevel List.mem_cons_self
    have hopen : ∀ o ∈ e.rest, into.openOrders.get? o.id = some ref := fun o ho =>
      h.books.get?_of_mem hlevel (List.mem_cons_of_mem _ ho)
    rw [ids_levelAfter]
    simp only [FillEvent.result, indexAfter, List.map_cons, List.mem_cons]
    -- A used-up maker leaves the index; one with quantity left keeps its entry.
    by_cases hleft : e.makerLeft remaining = 0
    · simp only [hleft, if_true]
      rw [SortedMap.get?_erase]
      by_cases hid : id = e.maker.id
      · subst hid
        have hnot : e.maker.id ∉ e.rest.map RestingOrder.id := by
          intro hmem
          obtain ⟨o, ho, hoid⟩ := List.mem_map.1 hmem
          exact absurd hoid.symm (ne_of_lt (hids.1 o ho))
        simp [hnot]
      · by_cases hrest : id ∈ e.rest.map RestingOrder.id
        · obtain ⟨o, ho, rfl⟩ := List.mem_map.1 hrest
          simp only [if_neg hid, if_pos hrest]
          exact hopen o ho
        · simp [hid, hrest]
    · simp only [hleft, if_false, List.mem_cons]
      by_cases hid : id = e.maker.id
      · subst hid
        simpa using hmakerOpen
      · by_cases hrest : id ∈ e.rest.map RestingOrder.id
        · obtain ⟨o, ho, rfl⟩ := List.mem_map.1 hrest
          rw [if_pos (Or.inr hrest)]
          exact hopen o ho
        · simp [hid, hrest]
  · intro id hid
    rw [ids_levelAfter] at hid
    left
    split_ifs at hid
    · exact List.mem_cons_of_mem _ hid
    · exact hid
  · intro _ price level hother
    exact h.books.not_crosses hlevel hother

/-- Every match keeps the books. -/
theorem MatchInv.fills {symbols : SymbolRegistry} {last : OrderId} {books : Books}
    {order : IncomingOrder} {remaining left : Int} {before after : BookAndTrades}
    (h : MatchInv symbols last books order remaining before)
    (hfills : Fills order remaining before left after) :
    MatchInv symbols last books order left after :=
  hfills.invariant (P := MatchInv symbols last books order)
    (fun _ _ _ enabled hinv => hinv.fill enabled) h

/-! ## The remainder -/

/-- After a match that stopped, no facing level crosses. -/
theorem not_crosses_of_stopped {order : IncomingOrder} {left : Int} {after : BookAndTrades}
    (hlevels : NoEmptyLevel (facing after.book order.side)) (hleft : 0 < left)
    (hstopped : Stopped order left after) {price : Int} {level : Level}
    (hlevel : (after.book.levels order.side.opposite).get? price = some level) :
    ¬crosses order.side price order.limitCents := by
  intro hcross
  have hnone := hstopped.resolve_left (not_le.2 hleft)
  unfold nextFill at hnone
  cases hfacing : facing after.book order.side with
  | nil =>
      have hmem := mem_facing.2 hlevel
      simp [hfacing] at hmem
  | cons entry others =>
      obtain ⟨best, front⟩ := entry
      have hbest : crosses order.side best order.limitCents :=
        crosses_of_facing_head hfacing hlevel hcross
      simp only [hfacing, List.head?_cons, if_pos hbest, Option.map_eq_none_iff,
        List.head?_eq_none_iff] at hnone
      exact hlevels (best, front) (hfacing ▸ List.mem_cons_self) hnone

/-- A remainder goes to the back of the level at its limit. -/
theorem levelEdit_rest (books : Books) (order : IncomingOrder) (left : Int)
    (after : BookAndTrades) :
    LevelEdit (books.insert order.symbol after.book)
      (books.insert order.symbol (MatcherState.rest order left after).book)
      ⟨order.symbol, order.side, order.limitCents⟩
      (((after.book.levels order.side).get? order.limitCents).getD [])
      (((after.book.levels order.side).get? order.limitCents).getD [] ++
        [⟨order.id, order.account, left⟩]) := by
  have hbook : (books.insert order.symbol after.book).getD order.symbol .default = after.book := by
    simp [SortedMap.getD]
  refine levelEdit_of_put ⟨order.symbol, order.side, order.limitCents⟩ _ hbook ?_ ?_
  · simp [MatcherState.rest, Levels.pushBack_eq_put]
  · intro symbol hsymbol
    have hsymbol : symbol ≠ order.symbol := hsymbol
    simp [hsymbol]

/-- A remainder that goes to the back of its level keeps the books. -/
theorem MatchInv.rest {symbols : SymbolRegistry} {last : OrderId} {books : Books}
    {order : IncomingOrder} {left : Int} {after : BookAndTrades}
    (h : MatchInv symbols last books order left after) (hnew : last < order.id)
    (hleft : 0 < left) (hstopped : Stopped order left after)
    (hprice : 0 < order.limitCents ∧ order.limitCents ≤ maxGridUnits)
    (hstep : ∀ listing, SymbolRegistry.listing symbols order.symbol = some listing →
      listing.priceStepCents ∣ order.limitCents) :
    BookInv symbols order.id
      (books.insert order.symbol (MatcherState.rest order left after).book)
      (MatcherState.rest order left after).openOrders := by
  obtain ⟨listing, hlisting, hlot⟩ := h.onLot
  let ref : OrderRef := ⟨order.symbol, order.side, order.limitCents⟩
  let old : Level := ((after.book.levels order.side).get? order.limitCents).getD []
  let o : RestingOrder := ⟨order.id, order.account, left⟩
  have hmono : BookInv symbols order.id (books.insert order.symbol after.book) after.openOrders :=
    h.books.mono hnew.le (fun _ _ hl _ => hl)
  have hedit : LevelEdit _ _ ref old (old ++ [o]) := levelEdit_rest books order left after
  have hfresh : after.openOrders.get? order.id = none := h.books.get?_of_lt hnew
  -- The level may be new: then nothing waits in it.
  have hold : ∀ x ∈ old, Sound symbols last order.symbol order.limitCents x ∧ Increasing old := by
    intro x hx
    cases hget : (after.book.levels order.side).get? order.limitCents with
    | none => simp [old, hget] at hx
    | some level =>
        have hlevel : levelAt (books.insert order.symbol after.book) order.symbol order.side
            order.limitCents = some level := levelAt_eq_some.2 ⟨after.book, by simp, hget⟩
        have holdEq : old = level := by simp [old, hget]
        rw [holdEq] at hx ⊢
        exact ⟨h.books.sound hlevel x hx, h.books.increasing hlevel⟩
  have hincreasing : Increasing old := by
    cases hcons : old with
    | nil => exact List.Pairwise.nil
    | cons x xs => exact hcons ▸ (hold x (by simp [hcons])).2
  refine hmono.edit hedit ?_ ?_ ?_ ?_ ?_
  · -- The new order has the largest id there is, so it belongs at the back.
    refine List.pairwise_append.2 ⟨hincreasing, List.pairwise_singleton _ _, ?_⟩
    intro x hx y hy
    cases List.mem_singleton.1 hy
    exact lt_of_le_of_lt (hold x hx).1.past hnew
  · intro x hx
    rcases List.mem_append.1 hx with hx | hx
    · have hsound := (hold x hx).1
      exact { hsound with past := hsound.past.trans hnew.le }
    · cases List.mem_singleton.1 hx
      exact {
        past := le_rfl
        qty_pos := hleft
        qty_le := h.remaining_le
        price_pos := hprice.1
        price_le := hprice.2
        onSteps := ⟨listing, hlisting, hstep listing hlisting, hlot⟩ }
  · intro id
    have hindexed : id ∈ old.map RestingOrder.id → after.openOrders.get? id = some ref := by
      intro hid
      obtain ⟨x, hx, rfl⟩ := List.mem_map.1 hid
      refine (h.books.indexed x.id ref).2 ⟨old, ?_, x, hx, rfl⟩
      cases hget : (after.book.levels order.side).get? order.limitCents with
      | none => simp [old, hget] at hx
      | some level =>
          exact levelAt_eq_some.2 ⟨after.book, by simp [ref], by simp [old, hget, ref]⟩
    simp only [MatcherState.rest, List.map_append, List.map_cons, List.map_nil, List.mem_append,
      List.mem_singleton]
    rw [SortedMap.get?_insert]
    by_cases hid : id = order.id
    · simp [hid, ref, o]
    · by_cases hin : id ∈ old.map RestingOrder.id
      · rw [if_neg hid, if_pos (Or.inl hin)]
        exact hindexed hin
      · simp [hid, hin, o]
  · intro id hid
    rw [List.map_append, List.mem_append] at hid
    refine hid.imp_right (fun hid => ?_)
    simp only [List.map_cons, List.map_nil, List.mem_singleton] at hid
    rw [hid]
    exact hfresh
  · intro _ price level hlevel
    obtain ⟨book, hbook, hlevel⟩ := levelAt_eq_some.1 hlevel
    simp only [SortedMap.get?_insert_self, Option.some.injEq, ref] at hbook
    subst hbook
    have hne : NoEmptyLevel (facing after.book order.side) := by
      have hall := h.books.noEmptyLevel order.symbol order.side
      simpa [SortedMap.getD] using hall
    -- The match stopped because nothing on the far side crosses.
    exact not_crosses_of_stopped hne hleft hstopped hlevel

/-! ## Books that come and go -/

theorem levelAt_pruneBook (s : MatcherState) (symbol q : String) (side : Side) (price : Int) :
    levelAt (s.pruneBook symbol).books q side price = levelAt s.books q side price := by
  unfold MatcherState.pruneBook
  dsimp only
  split_ifs with hempty
  · by_cases hq : q = symbol
    · subst hq
      cases hbook : s.books.get? q with
      | none => simp [levelAt, hbook]
      | some book =>
          rw [hbook] at hempty
          simp only [Option.any_some, Book.isEmpty, Bool.and_eq_true] at hempty
          have hnone : (book.levels side).get? price = none := by
            cases side
            · exact SortedMap.isEmpty_iff.1 hempty.1 price
            · exact SortedMap.isEmpty_iff.1 hempty.2 price
          simp [levelAt, hbook, hnone]
    · simp [levelAt, hq]
  · rfl

theorem noEmptyBook_pruneBook {s : MatcherState} {symbol : String}
    (h : ∀ q, q ≠ symbol → ∀ book, s.books.get? q = some book → book.isEmpty = false) :
    NoEmptyBook (s.pruneBook symbol).books := by
  intro q book hbook
  unfold MatcherState.pruneBook at hbook
  dsimp only at hbook
  by_cases hq : q = symbol
  · subst hq
    split_ifs at hbook with hempty
    · simp at hbook
    · simpa [hbook] using hempty
  · refine h q hq book ?_
    split_ifs at hbook
    · simpa [hq] using hbook
    · exact hbook

theorem levelAt_insert_getD (books : Books) (symbol q : String) (side : Side) (price : Int) :
    levelAt (books.insert symbol (books.getD symbol .default)) q side price =
      levelAt books q side price := by
  by_cases hq : q = symbol
  · subst hq
    rw [levelAt_getD books]
    simp [levelAt]
  · simp [levelAt, hq]

theorem levelAt_erase (books : Books) (symbol q : String) (side : Side) (price : Int) :
    levelAt (books.erase symbol) q side price =
      if q = symbol then none else levelAt books q side price := by
  unfold levelAt
  rw [SortedMap.get?_erase]
  split_ifs <;> rfl

theorem mem_restingOrders {book : Book} {o : RestingOrder} :
    o ∈ MatcherState.restingOrders book ↔
      ∃ side price level, (book.levels side).get? price = some level ∧ o ∈ level := by
  simp only [MatcherState.restingOrders, List.mem_flatMap, List.mem_append, Prod.exists]
  constructor
  · rintro ⟨price, level, hentry | hentry, ho⟩
    · exact ⟨.buy, price, level, SortedMap.mem_entries.1 hentry, ho⟩
    · exact ⟨.sell, price, level, SortedMap.mem_entries.1 hentry, ho⟩
  · rintro ⟨side, price, level, hlevel, ho⟩
    cases side
    · exact ⟨price, level, Or.inl (SortedMap.mem_entries.2 hlevel), ho⟩
    · exact ⟨price, level, Or.inr (SortedMap.mem_entries.2 hlevel), ho⟩

/-- A book that leaves whole takes exactly its own orders out of the index. -/
theorem BookInv.clear {symbols : SymbolRegistry} {last : OrderId} {books : Books}
    {openOrders : SortedMap OrderId OrderRef} (h : BookInv symbols last books openOrders)
    {symbol : String} {book : Book} (hbook : books.get? symbol = some book) :
    BookInv symbols last (books.erase symbol)
      (MatcherState.closeAll openOrders
        ((MatcherState.restingOrders book).map RestingOrder.id)) := by
  have hkept : ∀ {q side price level}, levelAt (books.erase symbol) q side price = some level →
      q ≠ symbol ∧ levelAt books q side price = some level := by
    intro q side price level hlevel
    rw [levelAt_erase] at hlevel
    split_ifs at hlevel with hq
    exact ⟨hq, hlevel⟩
  constructor
  case level_ne =>
    intro q side price level hlevel
    exact h.level_ne (hkept hlevel).2
  case increasing =>
    intro q side price level hlevel
    exact h.increasing (hkept hlevel).2
  case sound =>
    intro q side price level hlevel
    exact h.sound (hkept hlevel).2
  case uncrossed =>
    intro q bid ask bids asks hbid hask
    exact h.uncrossed (hkept hbid).2 (hkept hask).2
  case indexed =>
    intro id ref
    have hopen : (MatcherState.closeAll openOrders
        ((MatcherState.restingOrders book).map RestingOrder.id)).get? id = some ref ↔
        openOrders.get? id = some ref ∧
          id ∉ (MatcherState.restingOrders book).map RestingOrder.id := by
      simp [MatcherState.closeAll, SortedMap.get?_filter_eq_some]
    -- An id stays open exactly when its order waits under another symbol.
    rw [hopen]
    constructor
    · rintro ⟨hid, hnot⟩
      obtain ⟨level, hlevel, o, ho, rfl⟩ := h.exists_of_indexed hid
      refine ⟨level, ?_, o, ho, rfl⟩
      rw [levelAt_erase, if_neg]
      · exact hlevel
      · rintro rfl
        obtain ⟨book', hbook', hlevel⟩ := levelAt_eq_some.1 hlevel
        cases hbook.symm.trans hbook'
        exact hnot (List.mem_map_of_mem (mem_restingOrders.2 ⟨_, _, _, hlevel, ho⟩))
    · rintro ⟨level, hlevel, o, ho, rfl⟩
      obtain ⟨hne, hlevel⟩ := hkept hlevel
      have hget := h.get?_of_mem hlevel ho
      refine ⟨hget, ?_⟩
      intro hmem
      obtain ⟨o', ho', hid⟩ := List.mem_map.1 hmem
      obtain ⟨side, price, level', hlevel', hmem'⟩ := mem_restingOrders.1 ho'
      have hat : levelAt books symbol side price = some level' :=
        levelAt_eq_some.2 ⟨book, hbook, hlevel'⟩
      have hget' : openOrders.get? o'.id = some ⟨symbol, side, price⟩ := h.get?_of_mem hat hmem'
      rw [hid, hget] at hget'
      cases hget'
      exact hne rfl

/-- A cancelled order leaves the level it waited in. -/
theorem levelEdit_withoutOrder {books : Books} {ref : OrderRef} {book : Book} {level : Level}
    (hbook : books.get? ref.symbol = some book)
    (hget : (book.levels ref.side).get? ref.priceCents = some level) (target : OrderId) :
    LevelEdit books (books.insert ref.symbol (MatcherState.withoutOrder book ref target)) ref level
      (level.filter (fun resting => resting.id ≠ target)) := by
  have hbefore : books.getD ref.symbol .default = book := by simp [SortedMap.getD, hbook]
  have hput : LevelEdit books (books.insert ref.symbol (MatcherState.withoutOrder book ref target))
      ref _ (level.filter (fun resting => resting.id ≠ target)) :=
    levelEdit_of_put ref _ hbefore (by simp [MatcherState.withoutOrder, hget])
      (by
        intro symbol hsymbol
        simp [hsymbol])
  simpa only [hget, Option.getD_some] using hput

/-- A cancel takes one order out of its level. -/
theorem BookInv.cancel {symbols : SymbolRegistry} {last : OrderId} {books : Books}
    {openOrders : SortedMap OrderId OrderRef} (h : BookInv symbols last books openOrders)
    {target : OrderId} {ref : OrderRef} {book : Book} (href : openOrders.get? target = some ref)
    (hbook : books.get? ref.symbol = some book) :
    BookInv symbols last (books.insert ref.symbol (MatcherState.withoutOrder book ref target))
      (openOrders.erase target) := by
  obtain ⟨level, hlevel, o, ho, rfl⟩ := h.exists_of_indexed href
  obtain ⟨book', hbook', hget⟩ := levelAt_eq_some.1 hlevel
  cases hbook.symm.trans hbook'
  have hedit := levelEdit_withoutOrder hbook hget o.id
  have hsub : ∀ x ∈ level.filter (fun resting => resting.id ≠ o.id), x ∈ level ∧ x.id ≠ o.id := by
    intro x hx
    simpa using hx
  refine h.edit hedit ((h.increasing hlevel).filter _) ?_ ?_ ?_ ?_
  · intro x hx
    exact h.sound hlevel x (hsub x hx).1
  · intro id
    rw [SortedMap.get?_erase]
    -- The target is in the old level only; every other id keeps its place.
    by_cases hid : id = o.id
    · have hnew : o.id ∉ (level.filter (fun resting => resting.id ≠ o.id)).map RestingOrder.id := by
        intro hmem
        obtain ⟨x, hx, hxid⟩ := List.mem_map.1 hmem
        exact (hsub x hx).2 hxid
      rw [hid, if_pos rfl, if_neg hnew, if_pos (List.mem_map_of_mem ho)]
    · rw [if_neg hid]
      by_cases hin : id ∈ level.map RestingOrder.id
      · obtain ⟨x, hx, rfl⟩ := List.mem_map.1 hin
        have hnew : x.id ∈ (level.filter (fun resting => resting.id ≠ o.id)).map RestingOrder.id :=
          List.mem_map_of_mem (List.mem_filter.2 ⟨hx, by simpa using hid⟩)
        rw [if_pos hnew]
        exact h.get?_of_mem hlevel hx
      · have hnew : id ∉ (level.filter (fun resting => resting.id ≠ o.id)).map
            RestingOrder.id := by
          intro hmem
          obtain ⟨x, hx, rfl⟩ := List.mem_map.1 hmem
          exact hin (List.mem_map_of_mem (hsub x hx).1)
        rw [if_neg hnew, if_neg hin]
  · intro id hid
    obtain ⟨x, hx, rfl⟩ := List.mem_map.1 hid
    exact Or.inl (List.mem_map_of_mem (hsub x hx).1)
  · intro _ price other hother
    exact h.not_crosses hlevel hother

end Matcher
end VerifiableExchange
