import VerifiableExchange.Matcher.SelfTrade
import VerifiableExchange.Matcher.Walk

/-!
# Priority — an accepted order follows price-time priority

The orders an accepted order faces wait in one sorted queue. It trades with the front of that queue
at the price each order rests at, up to its own limit or the collar, until it has its quantity,
nothing crosses, or a position would leave its range. The book keeps the rest of the queue, and what
may wait of the order itself.
-/

namespace VerifiableExchange
namespace Matcher

open Lib

/-! ## The trade counter does not run out -/

/-- Every trade used up a message: that of a resting order it closed, or that of the order it
filled. An open order has still to use up its own. -/
def spent (into : BookAndTrades) : Nat := into.tradesTotal + into.openOrders.size

/-- How far a match of one more message may count. -/
def CountedTo (last : Nat) (remaining : Int) (into : BookAndTrades) : Prop :=
  spent into ≤ last ∨ (remaining ≤ 0 ∧ spent into ≤ last + 1)

/-- A fill closes its maker, or fills the order that arrived. -/
theorem FillEvent.Enabled.countedTo {symbols : SymbolRegistry} {last : OrderId} {books : Books}
    {order : IncomingOrder} {remaining : Int} {into : BookAndTrades} {e : FillEvent}
    (enabled : e.Enabled order remaining into) (hbooks : MatchInv symbols last books order remaining into)
    (h : CountedTo last remaining into) :
    CountedTo last (remaining - e.qty remaining) (e.result order remaining into) := by
  have hwanted := enabled.wanted
  have hcounted : spent into ≤ last := h.resolve_right (fun hdone => absurd hdone.1 (not_le.2 hwanted))
  have hlevel : levelAt (books.insert order.symbol into.book) order.symbol order.side.opposite
      e.price = some (e.maker :: e.rest) :=
    levelAt_eq_some.2 ⟨into.book, by simp, enabled.level⟩
  have hopen : into.openOrders.get? e.maker.id = some ⟨order.symbol, order.side.opposite, e.price⟩ :=
    hbooks.books.get?_of_mem hlevel List.mem_cons_self
  have hsize := SortedMap.size_erase hopen
  unfold spent at hcounted
  by_cases hclosed : e.makerLeft remaining = 0
  · -- The maker leaves the index for the trade that is counted.
    refine Or.inl ?_
    simp only [spent, FillEvent.result, indexAfter, if_pos hclosed]
    omega
  · -- A maker that stays gave the order all it wanted, so this fill is the last.
    have hfilled : remaining - e.qty remaining ≤ 0 := by
      simp only [FillEvent.makerLeft, FillEvent.qty] at hclosed ⊢
      omega
    refine Or.inr ⟨hfilled, ?_⟩
    simp only [spent, FillEvent.result, indexAfter, if_neg hclosed]
    omega

theorem Fills.countedTo {symbols : SymbolRegistry} {last : OrderId} {books : Books}
    {order : IncomingOrder} {remaining left : Int} {before after : BookAndTrades}
    (hfills : Fills order remaining before left after)
    (hbooks : MatchInv symbols last books order remaining before) (h : spent before ≤ last) :
    CountedTo last left after :=
  (hfills.invariant
    (P := fun remaining into => MatchInv symbols last books order remaining into ∧
      CountedTo last remaining into)
    (fun _ _ _ enabled hinto => ⟨hinto.1.fill enabled, enabled.countedTo hinto.1 hinto.2⟩)
    ⟨hbooks, Or.inl h⟩).2

/-- While an order waits on the other side, one more trade can be counted. -/
theorem room_of_nextFill {symbols : SymbolRegistry} {last : OrderId} {books : Books}
    {order : IncomingOrder} {left : Int} {into : BookAndTrades} {fill : PlannedFill}
    (hbooks : MatchInv symbols last books order left into) (hcounted : spent into ≤ last)
    (hmax : last ≤ u64Max) (hfill : nextFill order into.book left = some fill) :
    checkedAddU64 into.tradesTotal 1 = some (into.tradesTotal + 1) := by
  obtain ⟨maker, rest, others, hfacing, -, -⟩ := facing_of_nextFill hfill
  have hlevel : levelAt (books.insert order.symbol into.book) order.symbol order.side.opposite
      fill.priceCents = some (maker :: rest) :=
    levelAt_eq_some.2 ⟨into.book, by simp, mem_facing.1 (hfacing ▸ List.mem_cons_self)⟩
  have hopen : into.openOrders.get? maker.id =
      some ⟨order.symbol, order.side.opposite, fill.priceCents⟩ :=
    hbooks.books.get?_of_mem hlevel List.mem_cons_self
  have hsize := SortedMap.size_erase hopen
  refine checkedAddU64_eq_some.2 ⟨?_, rfl⟩
  calc
    into.tradesTotal + 1 ≤ into.tradesTotal + into.openOrders.size := by omega
    _ ≤ last := hcounted
    _ ≤ u64Max := hmax

namespace MatcherState

/-- Trades and open orders together are no more than the messages. -/
def Counted (s : MatcherState) : Prop := s.tradesTotal + s.openOrders.size ≤ s.lastSeen

/-- What one match adds to the count. -/
theorem Counted.matched {s t : MatcherState} (h : s.Counted) (hs : s.WellFormed) {m : NewMessage}
    {order : IncomingOrder} {left : Int} {after : BookAndTrades} (haccepted : s.Accepted m order)
    (hexecuted : s.Executed order left after) (hfinished : Finished s order left after t) :
    t.tradesTotal + t.openOrders.size ≤ s.lastSeen + 1 := by
  obtain ⟨reserved, -, hfills⟩ := hexecuted.filled
  have hcount := hfills.countedTo (hs.matchInv haccepted) h
  have hafter : after.tradesTotal + after.openOrders.size ≤ s.lastSeen + 1 := by
    rcases hcount with hcount | ⟨-, hcount⟩
    · exact Nat.le_succ_of_le hcount
    · exact hcount
  cases hfinished with
  | overflowed => exact hafter
  | filled => exact hafter
  | cancelled => exact hafter
  | rested hleft =>
      have hcount : spent after ≤ s.lastSeen :=
        hcount.resolve_right (fun hdone => absurd hdone.1 (not_le.2 hleft))
      calc
        after.tradesTotal + (after.openOrders.insert order.id _).size
          ≤ after.tradesTotal + (after.openOrders.size + 1) :=
            Nat.add_le_add_left (SortedMap.size_insert_le _ _ _) _
        _ ≤ s.lastSeen + 1 := Nat.succ_le_succ hcount

theorem Counted.dispatch {env : Primitives} {s t : MatcherState} (h : s.Counted)
    (hs : s.WellFormed) {message : OrderMessage} (hdispatch : dispatch env s message = .ok t) :
    t.tradesTotal + t.openOrders.size ≤ s.lastSeen + 1 := by
  have hcounted : s.tradesTotal + s.openOrders.size ≤ s.lastSeen + 1 := Nat.le_succ_of_le h
  have herased : ∀ id, s.tradesTotal + (s.openOrders.erase id).size ≤ s.lastSeen + 1 := fun id =>
    (Nat.add_le_add_left (SortedMap.size_erase_le _ _) _).trans hcounted
  cases dispatch_cases hs.noEmptyLevel hdispatch with
  | refused | refusedOnBook | cancelRejected | ignored | listed | ruled => exact hcounted
  | matched _ _ _ _ _ haccepted hexecuted hfinished =>
      exact h.matched hs haccepted hexecuted hfinished
  | cancelIgnored | cancelled => exact herased _
  | delisted _ _ _ _ _ _ _ hcleared =>
      rcases clearBook_eq_ok hcleared with ⟨-, rfl⟩ | ⟨_, ledger, -, -, rfl⟩
      · exact hcounted
      · exact (Nat.add_le_add_left (SortedMap.size_filter_le _ _) _).trans hcounted

/-- No run counts more trades than it consumed messages. -/
theorem Reachable.counted {env : Primitives} {s : MatcherState} (hs : Reachable env s) :
    s.Counted := by
  induction hs with
  | genesis h =>
      obtain ⟨_, -, -, rfl⟩ := ExecutionGenesis.opening_eq_ok h
      exact Nat.zero_le _
  | applied hs happly ih =>
      obtain ⟨-, t, hdispatch, hconsume⟩ := apply_eq_ok happly
      have hnext := hs.wellFormed.next_eq hdispatch hconsume
      obtain ⟨-, -, -, hlast, -, -, hopen, -, htotal, -⟩ := consume_eq_ok hconsume
      have hcount := ih.dispatch hs.wellFormed hdispatch
      unfold Counted
      rwa [hopen, htotal, hlast, hnext]

end MatcherState

/-! ## A match reads its walk -/

/-- What an order would take of the queue it faces, were no position in the way. -/
def walkOf (order : IncomingOrder) (book : Book) : List (Waiting × Int) :=
  Greedy.fills Waiting.size order.qtyTenths (queue book order.side order.limitCents)

/-- What it takes: its walk, up to the first fill that would take a position out of its range. -/
def takenOf (order : IncomingOrder) (book : Book) (positions : SortedMap AccountKey Position) :
    List (Waiting × Int) :=
  booked order positions (walkOf order book)

/-- The order took its whole walk, or a position stopped it at the next fill. -/
def WalkEnded (order : IncomingOrder) (before after : BookAndTrades) : Matched → Prop
  | .crossed _ => takenOf order before.book before.positions = walkOf order before.book
  | .overflowed _ => ∃ f later,
      walkOf order before.book = takenOf order before.book before.positions ++ f :: later ∧
        positionsOf order (f.1.fill f.2) after.positions = none

/-- How the parts after a match follow from those before it. -/
structure FollowsWalk (order : IncomingOrder) (before : BookAndTrades) (matched : Matched)
    (after : BookAndTrades) : Prop where
  left : ∃ left, (matched = .crossed left ∨ matched = .overflowed left) ∧
    filled (takenOf order before.book before.positions) = order.qtyTenths - left
  ended : WalkEnded order before after matched
  facing : waiting after.book order.side = Greedy.leave Waiting.size Waiting.shrink
    (filled (takenOf order before.book before.positions)) (waiting before.book order.side)
  own : after.book.levels order.side = before.book.levels order.side
  trades : before.pending.isSome = true → recordedTrades after.pending =
    recordedTrades before.pending ++
      tradeRows order before.tradesTotal (plannedOf (takenOf order before.book before.positions))

/-- The orders of a sound book all have a quantity left. -/
theorem BookInv.waiting_pos {symbols : SymbolRegistry} {last : OrderId} {books : Books}
    {openOrders : SortedMap OrderId OrderRef} {symbol : String} {book : Book}
    (h : BookInv symbols last (books.insert symbol book) openOrders) (side : Side) :
    ∀ w ∈ waiting book side, 0 < w.size := by
  intro w hw
  obtain ⟨level, hlevel, ho⟩ := mem_waiting.1 hw
  have hat : levelAt (books.insert symbol book) symbol side.opposite w.1 = some level :=
    levelAt_eq_some.2 ⟨book, by simp, hlevel⟩
  exact (h.sound hat w.2 ho).qty_pos

/-- A match of an accepted order follows its walk. -/
theorem MatcherState.followsWalk {s : MatcherState} (hs : s.WellFormed) (hcounted : s.Counted)
    (hmax : s.lastSeen ≤ u64Max) {m : NewMessage} {order : IncomingOrder}
    {staged : Option (FokPlan × Ledger)} (haccepted : s.Accepted m order)
    (hstage : stage order (s.bookAndTrades order.symbol) = .ok staged) {matched : Matched}
    {after : BookAndTrades}
    (hrun : runMatch order staged (s.bookAndTrades order.symbol) = .ok (matched, after)) :
    FollowsWalk order (s.bookAndTrades order.symbol) matched after := by
  obtain ⟨left, hexecuted, hmatched⟩ := runMatch_executed haccepted.qty_range.1
    (hs.noEmptyLevel order.symbol order.side) hstage hrun
  obtain ⟨reserved, -, hfills⟩ := hexecuted.filled
  have hbefore : MatchInv s.symbols s.lastSeen s.books order order.qtyTenths
      { s.bookAndTrades order.symbol with ledger := reserved } := hs.matchInv haccepted
  have hafter := hbefore.fills hfills
  obtain ⟨made, hmade⟩ := hfills.made (hbefore.books.waiting_pos order.side)
  have hlevels : NoEmptyLevel (Matcher.facing after.book order.side) := by
    have hall := hafter.books.noEmptyLevel order.symbol order.side
    simpa [SortedMap.getD] using hall
  have hwalk : walkOf order (s.bookAndTrades order.symbol).book = made ++
      Greedy.fills Waiting.size left (queue after.book order.side order.limitCents) := hmade.walk
  -- Every fill that was made booked both positions, so the walk is cut where the match ended.
  have htaken : ∀ later, walkOf order (s.bookAndTrades order.symbol).book = made ++ later →
      booked order after.positions later = [] →
      takenOf order (s.bookAndTrades order.symbol).book (s.bookAndTrades order.symbol).positions =
        made := by
    intro later hlater hnone
    have happend := hmade.booked_append later
    rw [hnone, List.append_nil] at happend
    rw [takenOf, hlater]
    exact happend
  have hboth : takenOf order (s.bookAndTrades order.symbol).book
        (s.bookAndTrades order.symbol).positions = made ∧
      WalkEnded order (s.bookAndTrades order.symbol) after matched := by
    rcases hmatched with ⟨rfl, hstopped⟩ | ⟨rfl, hleft⟩
    · rw [fills_of_stopped hlevels hstopped] at hwalk
      have hmadeAll := htaken [] hwalk rfl
      exact ⟨hmadeAll, hmadeAll.trans (hwalk.trans (List.append_nil made)).symm⟩
    · obtain ⟨fill, hnext, hstuck⟩ := runMatch_overflowed hrun
      obtain ⟨w, later, hlater, hfill⟩ := fills_of_nextFill hleft hnext
      have hspent : spent after ≤ s.lastSeen :=
        (hfills.countedTo hbefore hcounted).resolve_right
          (fun hdone => absurd hdone.1 (not_le.2 hleft))
      have hnone : positionsOf order (w.fill fill.qtyTenths) after.positions = none := by
        rw [← hfill]
        refine hstuck.resolve_right ?_
        rw [room_of_nextFill hafter hspent hmax hnext]
        exact Option.some_ne_none _
      rw [hlater] at hwalk
      have hmadeAll := htaken _ hwalk (by simp only [booked, hnone])
      exact ⟨hmadeAll, (w, fill.qtyTenths), later, by rw [hmadeAll]; exact hwalk, hnone⟩
  obtain ⟨heq, hended⟩ := hboth
  refine ⟨⟨left, ?_, ?_⟩, hended, ?_, hmade.own_eq, ?_⟩
  · rcases hmatched with ⟨rfl, -⟩ | ⟨rfl, -⟩
    · exact Or.inl rfl
    · exact Or.inr rfl
  · rw [heq]
    exact hmade.filled_eq
  · rw [heq, hmade.filled_eq]
    exact hmade.waiting_eq
  · intro hkept
    rw [heq]
    exact hmade.trades hkept

/-! ## The book after an accepted order -/

/-- What may wait of an order after its match ended. -/
def ownAfter (order : IncomingOrder) (matched : Matched) (own : Levels) : Levels :=
  match matched with
  | .overflowed _ => own
  | .crossed left =>
      if 0 < left ∧ decideRemainder order = .rest then
        Levels.pushBack own order.limitCents ⟨order.id, order.account, left⟩
      else own

theorem Book.eq_default_of_isEmpty {book : Book} (h : book.isEmpty = true) : book = .default := by
  simp only [Book.isEmpty, Bool.and_eq_true, SortedMap.isEmpty_iff] at h
  obtain ⟨hbids, hasks⟩ := h
  obtain ⟨bids, asks⟩ := book
  have hbids : bids = .empty := SortedMap.ext hbids
  have hasks : asks = .empty := SortedMap.ext hasks
  rw [hbids, hasks]
  rfl

theorem decideRemainder_eq_rest_iff {order : IncomingOrder} :
    decideRemainder order = .rest ↔ order.orderType = .limit ∧ order.timeInForce = .goodTillCancel := by
  refine ⟨decideRemainder_eq_rest, ?_⟩
  rintro ⟨htype, hforce⟩
  simp only [decideRemainder, htype, hforce]

/-- An order that faces the same levels faces the same queue. -/
theorem waiting_congr {a b : Book} {side : Side}
    (h : a.levels side.opposite = b.levels side.opposite) : waiting a side = waiting b side := by
  cases side with
  | buy =>
      have hasks : a.asks = b.asks := h
      simp only [waiting, Matcher.facing, hasks]
  | sell =>
      have hbids : a.bids = b.bids := h
      simp only [waiting, Matcher.facing, hbids]

/-- What is left on the order's own side, in terms of the walk. -/
theorem FollowsWalk.ownAfter_eq {order : IncomingOrder} {before after : BookAndTrades}
    {matched : Matched} (h : FollowsWalk order before matched after) (own : Levels) :
    ownAfter order matched own =
      if takenOf order before.book before.positions = walkOf order before.book ∧
          filled (takenOf order before.book before.positions) < order.qtyTenths ∧
          order.orderType = .limit ∧ order.timeInForce = .goodTillCancel then
        Levels.pushBack own order.limitCents ⟨order.id, order.account,
          order.qtyTenths - filled (takenOf order before.book before.positions)⟩
      else own := by
  obtain ⟨left, hmatched, hfilled⟩ := h.left
  rcases hmatched with rfl | rfl
  · have hleft : order.qtyTenths - filled (takenOf order before.book before.positions) = left := by
      omega
    have hwhole : takenOf order before.book before.positions = walkOf order before.book := h.ended
    have hpos : filled (takenOf order before.book before.positions) < order.qtyTenths ↔ 0 < left := by
      omega
    simp only [ownAfter, decideRemainder_eq_rest_iff, hleft, hpos, eq_true hwhole, true_and]
  · -- An overflow cuts the walk short, and then nothing rests.
    obtain ⟨f, later, hwalk, -⟩ := h.ended
    have hcut : takenOf order before.book before.positions ≠ walkOf order before.book := by
      rw [hwalk]
      simp
    rw [if_neg (fun hrest => hcut hrest.1)]
    rfl

namespace MatcherState

/-- The book of a match as a later order reads it, and the books of the other symbols. -/
theorem books_of_match (s : MatcherState) (symbol : String) (into : BookAndTrades) :
    ((s.withBookAndTrades symbol into).pruneBook symbol).books.getD symbol .default = into.book ∧
      ∀ q, q ≠ symbol →
        ((s.withBookAndTrades symbol into).pruneBook symbol).books.get? q = s.books.get? q := by
  have hbook : (s.withBookAndTrades symbol into).books.get? symbol = some into.book := by
    simp [withBookAndTrades]
  have hothers : ∀ q, q ≠ symbol →
      (s.withBookAndTrades symbol into).books.get? q = s.books.get? q := by
    intro q hq
    simp [withBookAndTrades, hq]
  unfold pruneBook
  dsimp only
  rw [hbook, Option.any_some]
  by_cases hempty : into.book.isEmpty = true
  · rw [if_pos hempty]
    refine ⟨?_, ?_⟩
    · -- An empty book is dropped, and reading it back gives the empty book.
      rw [SortedMap.getD, SortedMap.get?_erase_self]
      exact (Book.eq_default_of_isEmpty hempty).symm
    · intro q hq
      rw [SortedMap.get?_erase_of_ne _ hq]
      exact hothers q hq
  · rw [if_neg hempty]
    refine ⟨?_, hothers⟩
    rw [SortedMap.getD, hbook]
    rfl

/-- What finishing a match leaves of it. -/
theorem finishMatch_parts {s t : MatcherState} {order : IncomingOrder} {matched : Matched}
    {after : BookAndTrades} (h : s.finishMatch order (matched, after) = .ok t) :
    ∃ into : BookAndTrades,
      t.books = ((s.withBookAndTrades order.symbol into).pruneBook order.symbol).books ∧
        into.book.levels order.side.opposite = after.book.levels order.side.opposite ∧
        into.book.levels order.side = ownAfter order matched (after.book.levels order.side) ∧
        t.positions = after.positions ∧ recordedTrades t.pending = recordedTrades after.pending := by
  cases matched with
  | overflowed left =>
      simp only [finishMatch, bind_eq_ok] at h
      obtain ⟨ledger, -, h⟩ := h
      cases h
      exact ⟨{ after with ledger := ledger }, rfl, rfl, rfl, rfl, rfl⟩
  | crossed left =>
      simp only [finishMatch, bind_eq_ok] at h
      obtain ⟨into, hfinish, h⟩ := h
      cases h
      -- Only a remainder that rests touches the order's own side.
      refine ⟨into, rfl, ?_⟩
      unfold finishRemainder at hfinish
      split_ifs at hfinish with hleft
      · cases hfinish
        have hown : ownAfter order (.crossed left) (after.book.levels order.side) =
            after.book.levels order.side := if_neg (fun hrest => absurd hrest.1 (not_lt.2 hleft))
        exact ⟨rfl, hown.symm, rfl, rfl⟩
      split at hfinish
      · rename_i hdecide
        cases hfinish
        have hown : ownAfter order (.crossed left) (after.book.levels order.side) =
            Levels.pushBack (after.book.levels order.side) order.limitCents
              ⟨order.id, order.account, left⟩ := if_pos ⟨not_le.1 hleft, hdecide⟩
        refine ⟨Book.levels_setLevels_of_ne _ (Side.opposite_ne _) _, ?_, rfl,
          recordedTrades_record rfl⟩
        rw [hown]
        exact Book.levels_setLevels _ _ _
      · rename_i hdecide
        simp only [bind_eq_ok] at hfinish
        obtain ⟨ledger, -, hinto⟩ := hfinish
        cases hinto
        have hown : ownAfter order (.crossed left) (after.book.levels order.side) =
            after.book.levels order.side := by
          refine if_neg ?_
          rintro ⟨-, hrest⟩
          rw [hdecide] at hrest
          cases hrest
        exact ⟨rfl, hown.symm, rfl, rfl⟩

/-! ## Price-time priority -/

/-- The book an order of this symbol meets. -/
def bookOf (s : MatcherState) (symbol : String) : Book := s.books.getD symbol .default

/-- What an order would take here, were no position in the way. -/
def walk (s : MatcherState) (order : IncomingOrder) : List (Waiting × Int) :=
  walkOf order (s.bookOf order.symbol)

/-- What an order takes here. -/
def taken (s : MatcherState) (order : IncomingOrder) : List (Waiting × Int) :=
  takenOf order (s.bookOf order.symbol) s.positions

/-- The order is the message in whole units, at its signed limit or within the collar. -/
structure Limited (m : NewMessage) (order : IncomingOrder) (referenceCents : Option Int)
    (signed : Int) : Prop where
  price : toGrid m.price 100 = some signed
  quantity : toGrid m.quantity 10 = some order.qtyTenths
  fields : order = { incomingOf m (signed, order.qtyTenths) with limitCents := order.limitCents }
  within : ∀ priceCents, crosses m.side priceCents order.limitCents →
    crosses m.side priceCents signed
  limit : m.terms.orderType = .limit → order.limitCents = signed
  market : m.terms.orderType = .market → ∃ reference, referenceCents = some reference ∧
    order.limitCents = collar m.side signed reference

/-- How the engine after an accepted order, and the trades the order made, follow from the engine
before it. -/
structure FollowsPriority (s : MatcherState) (m : NewMessage) (order : IncomingOrder)
    (trades : List TradeRow) (s' : MatcherState) : Prop where
  limited : ∃ signed, Limited m order (s.mids.referenceCents m.symbol m.timestamp) signed
  /-- The queue holds every order on the other side, best price first and then by arrival. -/
  sorted : (waiting (s.bookOf m.symbol) m.side).Pairwise (Waiting.Before m.side)
  all : ∀ w, w ∈ waiting (s.bookOf m.symbol) m.side ↔
    Rests s.books ⟨m.symbol, m.side.opposite, w.1⟩ w.2
  /-- The trades are those of the walk, up to the first that would take a position out of range. -/
  trades_eq : trades = tradeRows order s.tradesTotal (plannedOf (s.taken order))
  ended : (s.taken order = s.walk order ∧ filled (s.taken order) = min order.qtyTenths
        ((queue (s.bookOf m.symbol) m.side order.limitCents).map Waiting.size).sum) ∨
    ∃ f later, s.walk order = s.taken order ++ f :: later ∧
      positionsOf order (f.1.fill f.2) s'.positions = none
  /-- The other side keeps what the fills leave. -/
  facing : waiting (s'.bookOf m.symbol) m.side =
    Greedy.leave Waiting.size Waiting.shrink (filled (s.taken order))
      (waiting (s.bookOf m.symbol) m.side)
  /-- The order's own side gains the remainder, or nothing. -/
  own : (s'.bookOf m.symbol).levels m.side =
    if s.taken order = s.walk order ∧ filled (s.taken order) < order.qtyTenths ∧
        m.terms.orderType = .limit ∧ m.terms.timeInForce = .goodTillCancel then
      Levels.pushBack ((s.bookOf m.symbol).levels m.side) order.limitCents
        ⟨m.id, m.account, order.qtyTenths - filled (s.taken order)⟩
    else (s.bookOf m.symbol).levels m.side
  others : ∀ q, q ≠ m.symbol → s'.books.get? q = s.books.get? q

theorem accepted_of_verdict {s : MatcherState} {m : NewMessage} {order : IncomingOrder}
    {staged : Option (FokPlan × Ledger)} (h : s.verdict m = .ok (order, staged)) :
    s.Accepted m order ∧ stage order (s.bookAndTrades order.symbol) = .ok staged := by
  simp only [verdict, prepare, bind_eq_ok] at h
  obtain ⟨arrived, hadmit, order', heffective, staged', hstage, h⟩ := h
  cases h
  obtain ⟨terms, -, harrived, -, -⟩ := admitOrder_eq_ok hadmit
  have hsymbol : arrived.symbol = m.symbol := by
    rw [harrived]
    rfl
  rw [hsymbol] at heffective hstage
  have haccepted : s.Accepted m order := ⟨arrived, hadmit, heffective⟩
  exact ⟨haccepted, haccepted.symbol_eq ▸ hstage⟩

theorem Accepted.limited {s : MatcherState} {m : NewMessage} {order : IncomingOrder}
    (h : s.Accepted m order) :
    ∃ signed, Limited m order (s.mids.referenceCents m.symbol m.timestamp) signed := by
  obtain ⟨arrived, hadmit, heffective⟩ := h.checked
  obtain ⟨⟨signed, qtyTenths⟩, hterms, rfl, -, -⟩ := admitOrder_eq_ok hadmit
  obtain ⟨_, -, hprice, hquantity, -, -⟩ := resolve_eq_ok hterms
  obtain ⟨limitCents, hbound, rfl, -, -⟩ := effectiveOrder_eq_ok heffective
  refine ⟨signed, ?_⟩
  cases htype : m.terms.orderType with
  | limit =>
      have hlimit : limitCents = signed := bound_of_limit htype hbound
      exact {
        price := hprice
        quantity := hquantity
        fields := rfl
        within := fun _ hcross => hlimit ▸ hcross
        limit := fun _ => hlimit
        market := fun hmarket => by cases htype.symm.trans hmarket }
  | market =>
      have htype' : (incomingOf m (signed, qtyTenths)).orderType = .market := htype
      simp only [bound, htype', boundMarket, bind_eq_ok, orFail_eq_ok, require_eq_ok] at hbound
      -- A market order walks to its collar, which is never past its signed limit.
      obtain ⟨reference, hreference, _, -, hlimit⟩ := hbound
      have hlimit : collar m.side signed reference = limitCents := Except.ok.inj hlimit
      exact {
        price := hprice
        quantity := hquantity
        fields := rfl
        within := fun _ hcross => crosses_of_crosses_collar (hlimit ▸ hcross)
        limit := fun hlimit => by cases htype.symm.trans hlimit
        market := fun _ => ⟨reference, hreference, hlimit.symm⟩ }

/-- An engine that keeps a record shows price-time priority in it. -/
theorem follows_of_recording {env : Primitives} {s s' : MatcherState} (hs : s.WellFormed)
    (hcounted : s.Counted) (hmax : s.lastSeen ≤ u64Max) (hrecord : s.pending = some [])
    {m : NewMessage} {order : IncomingOrder} {staged : Option (FokPlan × Ledger)}
    (hverdict : s.verdict m = .ok (order, staged)) {received : Option Bytes}
    (happly : s.apply env (.new m) received = .ok s') :
    s.FollowsPriority m order (recordedTrades s'.pending) s' := by
  obtain ⟨-, t, hdispatch, hconsume⟩ := apply_eq_ok happly
  have hnew : s.applyNew m = .ok t := hdispatch
  rw [applyNew_of_accepted hverdict] at hnew
  obtain ⟨⟨matched, after⟩, hrun, hfinish⟩ := bind_eq_ok.1 hnew
  obtain ⟨haccepted, hstage⟩ := accepted_of_verdict hverdict
  have hsymbol := haccepted.symbol_eq
  -- The match ran on the book of the message, since the order keeps its symbol.
  rw [← hsymbol] at hrun
  have hwalk := followsWalk hs hcounted hmax haccepted hstage hrun
  obtain ⟨into, hbooks, hfacing, hown, hpositions, htrades⟩ := finishMatch_parts hfinish
  obtain ⟨-, -, -, -, -, hbooks', -, hpositions', -, -⟩ := consume_eq_ok hconsume
  obtain ⟨hbook, hothers⟩ := books_of_match s order.symbol into
  have hbookOf : s'.bookOf m.symbol = into.book := by
    rw [bookOf, hbooks', hbooks, ← hsymbol]
    exact hbook
  obtain ⟨signed, hlimited⟩ := haccepted.limited
  have hside : order.side = m.side := by
    rw [hlimited.fields]
    rfl
  have hsound : BookInv s.symbols s.lastSeen (s.books.insert order.symbol (s.bookOf order.symbol))
      s.openOrders := hs.books.congr_levels (fun _ _ _ => levelAt_insert_getD _ _ _ _ _)
  constructor
  case limited => exact ⟨signed, hlimited⟩
  case sorted =>
    refine waiting_sorted (fun price level hlevel => ?_)
    have hat : levelAt s.books m.symbol m.side.opposite price = some level := by
      rw [← levelAt_insert_getD s.books m.symbol]
      exact levelAt_eq_some.2 ⟨_, SortedMap.get?_insert_self _ _ _, hlevel⟩
    exact hs.books.increasing hat
  case all =>
    intro w
    rw [mem_waiting, Rests, bookOf, levelAt_getD]
  case trades_eq =>
    have hkept : (s.bookAndTrades order.symbol).pending.isSome = true := by
      show s.pending.isSome = true
      rw [hrecord]
      rfl
    have hbefore : recordedTrades (s.bookAndTrades order.symbol).pending = [] := by
      show recordedTrades s.pending = []
      rw [hrecord]
      rfl
    rw [recordedTrades_consume hconsume, htrades, hwalk.trades hkept, hbefore]
    rfl
  case ended =>
    have hended := hwalk.ended
    obtain ⟨left, rfl | rfl, -⟩ := hwalk.left
    · -- The whole walk was taken, and a walk takes all that is wanted or all there is.
      refine Or.inl ⟨hended, ?_⟩
      have hwhole : s.taken order = s.walk order := hended
      rw [hwhole, ← hside, ← hsymbol]
      refine Greedy.sum_fills haccepted.qty_range.1.le ?_
      intro w hw
      exact hsound.waiting_pos order.side w (List.mem_of_mem_filter hw)
    · rw [hpositions', hpositions]
      exact Or.inr hended
  case facing =>
    rw [hbookOf, ← hside, ← hsymbol, waiting_congr hfacing]
    exact hwalk.facing
  case own =>
    have hafter := hwalk.ownAfter_eq (after.book.levels order.side)
    -- Nothing the order rests under was touched by the match itself.
    rw [hbookOf, ← hside, hown, hafter, hwalk.own, ← hsymbol]
    have hid : order.id = m.id := haccepted.id_eq
    have haccount : order.account = m.account := by
      rw [hlimited.fields]
      rfl
    have htype : order.orderType = m.terms.orderType := by
      rw [hlimited.fields]
      rfl
    have hforce : order.timeInForce = m.terms.timeInForce := by
      rw [hlimited.fields]
      rfl
    rw [hid, haccount, htype, hforce]
    rfl
  case others =>
    intro q hq
    rw [hbooks', hbooks]
    exact hothers q (hsymbol ▸ hq)

/-- A message does the same to an engine that starts a record for it. -/
theorem effect_of_apply {env : Primitives} {s s' : MatcherState} {message : OrderMessage}
    {received : Option Bytes} (h : s.apply env message received = .ok s') :
    ∃ t, s.observed.apply env message received = .ok t ∧
      s.effect env message received = .ok (recorded t) ∧ Alike .decisions s' t := by
  have halike : Alike .decisions s s.observed :=
    { Alike.refl s with pending := trivial, tally := False.elim }
  obtain ⟨t, ht, hkept⟩ := (halike.apply env message received).exists_ok h
  refine ⟨t, ht, ?_, hkept⟩
  rw [effect, ht]
  rfl

/-- Every order an engine accepts follows price-time priority. -/
theorem price_time_priority {env : Primitives} {s s' : MatcherState} (hs : Reachable env s)
    {m : NewMessage} {order : IncomingOrder} {staged : Option (FokPlan × Ledger)}
    (hverdict : s.verdict m = .ok (order, staged)) {received : Option Bytes}
    (happly : s.apply env (.new m) received = .ok s') :
    ∃ e, s.effect env (.new m) received = .ok e ∧ s.FollowsPriority m order e.trades s' := by
  obtain ⟨t, ht, heffect, hkept⟩ := effect_of_apply happly
  have hfollows := follows_of_recording hs.wellFormed.observed hs.counted hs.lastSeen_le rfl
    hverdict ht
  refine ⟨recorded t, heffect, ?_⟩
  -- The engine that runs and the one that records end with the same books and positions.
  have hbooks : s'.books = t.books := hkept.books
  have hpositions : s'.positions = t.positions := hkept.positions
  have hbookOf : s'.bookOf m.symbol = t.bookOf m.symbol := by rw [bookOf, bookOf, hbooks]
  exact {
    limited := hfollows.limited
    sorted := hfollows.sorted
    all := hfollows.all
    trades_eq := hfollows.trades_eq
    ended := by
      rw [hpositions]
      exact hfollows.ended
    facing := by
      rw [hbookOf]
      exact hfollows.facing
    own := by
      rw [hbookOf]
      exact hfollows.own
    others := by
      rw [hbooks]
      exact hfollows.others }

/-- The one trade of an order for half of what rests, and the half that goes on resting. -/
theorem price_time_priority_sample :
    ∃ order s', Sample.ruledState.apply Sample.ruledEnv (.new Sample.takingOrder)
        (some Sample.taking.2) = .ok s' ∧
      Sample.takingEffect.trades.length = 1 ∧
      Sample.ruledState.FollowsPriority Sample.takingOrder order Sample.takingEffect.trades s' := by
  obtain ⟨-, -, hok, hlength, -, hrefusal, happly⟩ := Sample.ruledState_values
  have heffect := eq_ok_getD (d := recorded Sample.ruledState) hok
  have happly := eq_ok_getD (d := Sample.ruledState) happly
  cases hverdict : Sample.ruledState.verdict Sample.takingOrder with
  | error why =>
      rw [refusal_eq_some.2 hverdict] at hrefusal
      cases hrefusal
  | ok answer =>
      obtain ⟨e, he, hfollows⟩ := price_time_priority Sample.reachable_ruledState hverdict happly
      have hsame : e = Sample.takingEffect := Except.ok.inj (he.symm.trans heffect)
      exact ⟨answer.1, _, happly, hlength, hsame ▸ hfollows⟩

end MatcherState

end Matcher
end VerifiableExchange
