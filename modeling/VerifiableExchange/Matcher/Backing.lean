import VerifiableExchange.LedgerLaws
import VerifiableExchange.Matcher.WellFormed

/-!
# Backing — every resting order has its reservation

In a funded run the reservations are those of the resting orders, term by term, and between two
messages there are no others. During a match the arriving order holds one more. With the ledger's
own law this makes every reachable funded state pass its validation.
-/

namespace VerifiableExchange
namespace Matcher

open Lib

/-! ## Reservations and resting orders -/

/-- A reservation with exactly the terms of an order and its place. -/
structure Backs (r : Reservation) (ref : OrderRef) (o : RestingOrder) : Prop where
  account_eq : o.account = r.account
  symbol_eq : ref.symbol = r.symbol
  side_eq : ref.side = r.side
  price_eq : ref.priceCents = r.limitCents
  qty_eq : o.qtyTenths = r.remainingTenths

/-- Every resting order has its reservation, and every reservation its order, but for those of
`spare`. -/
structure Backed (books : Books) (reservations : SortedMap OrderId Reservation)
    (spare : OrderId → Prop) : Prop where
  of_rests : ∀ ref o, Rests books ref o →
    ∃ r, reservations.get? o.id = some r ∧ Backs r ref o
  to_rests : ∀ id r, reservations.get? id = some r → spare id ∨ ∃ ref o, Rests books ref o ∧ o.id = id

/-- No reservation but those of the resting orders. -/
def noSpare : OrderId → Prop := fun _ => False

theorem Backed.congr_levels {books books' : Books} {reservations : SortedMap OrderId Reservation}
    {spare : OrderId → Prop} (h : Backed books reservations spare)
    (hlevels : ∀ symbol side price,
      levelAt books' symbol side price = levelAt books symbol side price) :
    Backed books' reservations spare where
  of_rests := fun ref o ho => h.of_rests ref o ((rests_congr hlevels).1 ho)
  to_rests := fun id r hr => (h.to_rests id r hr).imp_right (fun ⟨ref, o, ho, hid⟩ =>
    ⟨ref, o, (rests_congr hlevels).2 ho, hid⟩)

/-- What a funded match keeps: the reservations of the resting orders, and the order's own one with
the quantity it still wants. -/
structure FundedMatch (config : FundingConfig) (symbols : SymbolRegistry) (last : OrderId)
    (books : Books) (order : IncomingOrder) (remaining : Int) (into : BookAndTrades) : Prop where
  inv : MatchInv symbols last books order remaining into
  conserving : Ledger.Conserving config into.ledger
  backed : Backed (books.insert order.symbol into.book) into.ledger.reservations
    (fun id => id = order.id)
  own : ∀ r, into.ledger.reservations.get? order.id = some r →
    r.account = order.account ∧ r.symbol = order.symbol ∧ r.side = order.side ∧
      r.limitCents = order.limitCents ∧ r.remainingTenths = remaining
  held : remaining ≠ 0 → ∃ r, into.ledger.reservations.get? order.id = some r
  past : last < order.id

theorem FundedMatch.fill {config : FundingConfig} {symbols : SymbolRegistry} {last : OrderId}
    {books : Books} {order : IncomingOrder} {remaining : Int} {into : BookAndTrades} {e : FillEvent}
    (h : FundedMatch config symbols last books order remaining into)
    (enabled : e.Enabled order remaining into) :
    FundedMatch config symbols last books order (remaining - e.qty remaining)
      (e.result order remaining into) := by
  obtain ⟨maker, taker, market, hs⟩ :=
    Ledger.settleFill_eq_ok h.conserving.isFunded enabled.settled
  have hedit := enabled.levelEdit books
  have hmakerRests := hedit.mem_old.1 (List.mem_cons_self (a := e.maker) (l := e.rest))
  have hmakerPast := (h.inv.books.sound_of_rests hmakerRests).past
  have hincreasing := h.inv.books.increasing (levelAt_eq_some.2 ⟨into.book, by simp, enabled.level⟩ :
    levelAt (books.insert order.symbol into.book) order.symbol order.side.opposite e.price =
      some (e.maker :: e.rest))
  have hmakerId : maker.orderId = e.maker.id := (h.conserving.reservation _ _ hs.maker_get).id_eq
  have htakerId : taker.orderId = order.id := (h.conserving.reservation _ _ hs.taker_get).id_eq
  obtain ⟨r, hr, hmakerBacks⟩ := h.backed.of_rests _ _ hmakerRests
  cases hs.maker_get.symm.trans hr
  obtain ⟨hownAccount, hownSymbol, hownSide, hownLimit, hownLeft⟩ := h.own taker hs.taker_get
  have hleft : maker.remainingTenths - e.qty remaining = e.makerLeft remaining := by
    rw [← hmakerBacks.qty_eq]
    rfl
  have hledger : e.ledger.reservations =
      Ledger.putReservation (Ledger.putReservation into.ledger.reservations
        (Ledger.filledBy maker (e.qty remaining))) (Ledger.filledBy taker (e.qty remaining)) := by
    rw [hs.result]
  -- What the two puts leave under each id.
  have hget : ∀ id, (e.result order remaining into).ledger.reservations.get? id =
      if id = order.id then
        (if remaining - e.qty remaining = 0 then none
          else some (Ledger.filledBy taker (e.qty remaining)))
      else if id = e.maker.id then
        (if e.makerLeft remaining = 0 then none
          else some (Ledger.filledBy maker (e.qty remaining)))
      else into.ledger.reservations.get? id := by
    intro id
    show e.ledger.reservations.get? id = _
    rw [hledger, Ledger.get?_putReservation, Ledger.get?_putReservation]
    simp only [Ledger.filledBy, htakerId, hmakerId, hownLeft, hleft]
  have hother : ∀ {ref o}, Rests (books.insert order.symbol into.book) ref o → o.id ≠ e.maker.id →
      ∃ r, (e.result order remaining into).ledger.reservations.get? o.id = some r ∧ Backs r ref o := by
    intro ref o ho hne
    obtain ⟨r, hr, hbacks⟩ := h.backed.of_rests ref o ho
    have hpast := (h.inv.books.sound_of_rests ho).past
    refine ⟨r, ?_, hbacks⟩
    rw [hget, if_neg (ne_of_lt (lt_of_le_of_lt hpast h.past)), if_neg hne]
    exact hr
  refine {
    inv := h.inv.fill enabled
    conserving := h.conserving.settleFill enabled.settled
    backed := ⟨?_, ?_⟩
    own := ?_
    held := ?_
    past := h.past }
  · -- Every order that rests has its reservation: the maker a smaller one, the rest their own.
    intro ref o ho
    by_cases hplace : ref = ⟨order.symbol, order.side.opposite, e.price⟩
    · subst hplace
      rcases mem_levelAfter (hedit.rests_here.1 ho) with ho | ⟨hne, rfl⟩
      · refine hother (hedit.mem_old.1 (List.mem_cons_of_mem _ ho)) ?_
        exact ne_of_gt ((List.pairwise_cons.1 hincreasing).1 o ho)
      · refine ⟨Ledger.filledBy maker (e.qty remaining), ?_, ?_⟩
        · have hid : e.maker.id ≠ order.id := ne_of_lt (lt_of_le_of_lt hmakerPast h.past)
          rw [hget]
          simp [hid, hne]
        · exact {
            account_eq := hmakerBacks.account_eq
            symbol_eq := hmakerBacks.symbol_eq
            side_eq := hmakerBacks.side_eq
            price_eq := hmakerBacks.price_eq
            qty_eq := hleft.symm }
    · have hold := (hedit.rests_elsewhere hplace).1 ho
      refine hother hold ?_
      intro hid
      exact hplace (h.inv.books.rests_unique hold hmakerRests hid).1
  · -- No reservation is left over: one that was emptied is gone from the ledger.
    intro id r hr
    by_cases hid : id = order.id
    · exact Or.inl hid
    right
    rw [hget, if_neg hid] at hr
    by_cases hmaker : id = e.maker.id
    · rw [if_pos hmaker] at hr
      split_ifs at hr with hdone
      refine ⟨⟨order.symbol, order.side.opposite, e.price⟩,
        { e.maker with qtyTenths := e.makerLeft remaining }, hedit.rests_here.2 ?_, hmaker.symm⟩
      simp [levelAfter, hdone]
    · rw [if_neg hmaker] at hr
      obtain ⟨ref, o, ho, rfl⟩ := (h.backed.to_rests id r hr).resolve_left hid
      by_cases hplace : ref = ⟨order.symbol, order.side.opposite, e.price⟩
      · subst hplace
        refine ⟨_, o, hedit.rests_here.2 ?_, rfl⟩
        have hmem := (List.mem_cons.1 (hedit.mem_old.2 ho)).resolve_left
          (fun heq => hmaker (congrArg RestingOrder.id heq))
        unfold levelAfter
        split_ifs
        · exact hmem
        · exact List.mem_cons_of_mem _ hmem
      · exact ⟨ref, o, (hedit.rests_elsewhere hplace).2 ho, rfl⟩
  · -- The arriving order holds what is left of it.
    intro r hr
    rw [hget, if_pos rfl] at hr
    split_ifs at hr
    cases hr
    exact ⟨hownAccount, hownSymbol, hownSide, hownLimit, by simp [Ledger.filledBy, hownLeft]⟩
  · intro hne
    exact ⟨_, by rw [hget, if_pos rfl, if_neg hne]⟩

theorem FundedMatch.fills {config : FundingConfig} {symbols : SymbolRegistry} {last : OrderId}
    {books : Books} {order : IncomingOrder} {remaining left : Int} {before after : BookAndTrades}
    (h : FundedMatch config symbols last books order remaining before)
    (hfills : Fills order remaining before left after) :
    FundedMatch config symbols last books order left after :=
  hfills.invariant (P := FundedMatch config symbols last books order)
    (fun _ _ _ enabled hinv => hinv.fill enabled) h

/-- A match that filled its order leaves no spare reservation. -/
theorem FundedMatch.backed_of_filled {config : FundingConfig} {symbols : SymbolRegistry}
    {last : OrderId} {books : Books} {order : IncomingOrder} {after : BookAndTrades}
    (h : FundedMatch config symbols last books order 0 after) :
    Backed (books.insert order.symbol after.book) after.ledger.reservations noSpare where
  of_rests := h.backed.of_rests
  to_rests := by
    intro id r hr
    refine Or.inr ((h.backed.to_rests id r hr).resolve_left ?_)
    rintro rfl
    -- A reservation always has a positive quantity left.
    have hleft := (h.own r hr).2.2.2.2
    have hunits := (h.conserving.reservation _ _ hr).units_eq
    exact absurd hleft (ne_of_gt (Ledger.reserveUnits_eq_ok.1 hunits).2.1)

/-- Releasing the order's own reservation leaves no spare one. -/
theorem FundedMatch.backed_of_released {config : FundingConfig} {symbols : SymbolRegistry}
    {last : OrderId} {books : Books} {order : IncomingOrder} {left : Int} {after : BookAndTrades}
    (h : FundedMatch config symbols last books order left after) {result : Ledger × Bool}
    (hrelease : after.ledger.release order.id = .ok result) :
    Backed (books.insert order.symbol after.book) result.1.reservations noSpare where
  of_rests := by
    intro ref o ho
    obtain ⟨r, hr, hbacks⟩ := h.backed.of_rests ref o ho
    have hne : o.id ≠ order.id :=
      ne_of_lt (lt_of_le_of_lt (h.inv.books.sound_of_rests ho).past h.past)
    exact ⟨r, by rw [Ledger.reservations_release hrelease, SortedMap.get?_erase_of_ne _ hne, hr],
      hbacks⟩
  to_rests := by
    intro id r hr
    rw [Ledger.reservations_release hrelease, SortedMap.get?_erase] at hr
    split_ifs at hr with hid
    exact Or.inr ((h.backed.to_rests id r hr).resolve_left hid)

/-- A remainder that rests is backed by the order's own reservation. -/
theorem FundedMatch.backed_of_rested {config : FundingConfig} {symbols : SymbolRegistry}
    {last : OrderId} {books : Books} {order : IncomingOrder} {left : Int} {after : BookAndTrades}
    (h : FundedMatch config symbols last books order left after) (hleft : 0 < left) :
    Backed (books.insert order.symbol (MatcherState.rest order left after).book)
      after.ledger.reservations noSpare := by
  have hedit := levelEdit_rest books order left after
  constructor
  · intro ref o ho
    by_cases hplace : ref = ⟨order.symbol, order.side, order.limitCents⟩
    · subst hplace
      rcases List.mem_append.1 (hedit.rests_here.1 ho) with ho | ho
      · exact h.backed.of_rests _ o (hedit.mem_old.1 ho)
      · -- The remainder itself: its own reservation, held since the match began.
        cases List.mem_singleton.1 ho
        obtain ⟨r, hr⟩ := h.held (ne_of_gt hleft)
        obtain ⟨haccount, hsymbol, hside, hlimit, hqty⟩ := h.own r hr
        exact ⟨r, hr, ⟨haccount.symm, hsymbol.symm, hside.symm, hlimit.symm, hqty.symm⟩⟩
    · exact h.backed.of_rests ref o ((hedit.rests_elsewhere hplace).1 ho)
  · intro id r hr
    right
    rcases h.backed.to_rests id r hr with hid | ⟨ref, o, ho, hid⟩
    · -- The spare reservation of the match now has its order.
      exact ⟨_, ⟨order.id, order.account, left⟩, hedit.rests_here.2 (by simp), hid.symm⟩
    · by_cases hplace : ref = ⟨order.symbol, order.side, order.limitCents⟩
      · subst hplace
        exact ⟨_, o, hedit.rests_here.2 (List.mem_append_left _ (hedit.mem_old.2 ho)), hid⟩
      · exact ⟨ref, o, (hedit.rests_elsewhere hplace).2 ho, hid⟩

end Matcher
end VerifiableExchange
