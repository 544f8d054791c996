import VerifiableExchange.Matcher.WellFormed

/-!
# ZeroSum — what one side of every fill gains, the other side gives

Positions change by fills alone, so a property of the position map that every fill keeps holds in
every reachable state. The accounting law of each position and the two sums of each symbol are
such properties.
-/

namespace VerifiableExchange
namespace Matcher

open Lib

/-! ## Properties every fill keeps -/

/-- A property of the position map that a booked fill keeps. -/
def KeptByFills (P : SortedMap AccountKey Position → Prop) : Prop :=
  ∀ (order : IncomingOrder) (fill : PlannedFill) (positions : SortedMap AccountKey Position)
    (next : Position × Position), 0 < fill.qtyTenths → 0 < fill.priceCents →
    positionsOf order fill positions = some next → P positions →
    P (positionsAfter positions order fill next.1 next.2)

theorem FillEvent.Enabled.planned_pos {symbols : SymbolRegistry} {last : OrderId} {books : Books}
    {order : IncomingOrder} {remaining : Int} {into : BookAndTrades} {e : FillEvent}
    (enabled : e.Enabled order remaining into)
    (h : MatchInv symbols last books order remaining into) :
    0 < (e.planned remaining).qtyTenths ∧ 0 < (e.planned remaining).priceCents := by
  have hlevel : levelAt (books.insert order.symbol into.book) order.symbol order.side.opposite
      e.price = some (e.maker :: e.rest) :=
    levelAt_eq_some.2 ⟨into.book, by simp, enabled.level⟩
  have hmaker := h.books.sound hlevel e.maker List.mem_cons_self
  exact ⟨lt_min enabled.wanted hmaker.qty_pos, hmaker.price_pos⟩

theorem MatchInv.positions {symbols : SymbolRegistry} {last : OrderId} {books : Books}
    {order : IncomingOrder} {remaining left : Int} {before after : BookAndTrades}
    {P : SortedMap AccountKey Position → Prop} (hP : KeptByFills P)
    (h : MatchInv symbols last books order remaining before)
    (hfills : Fills order remaining before left after) (hbefore : P before.positions) :
    P after.positions := by
  have hboth := hfills.invariant
    (P := fun remaining into => MatchInv symbols last books order remaining into ∧ P into.positions)
    (fun remaining into e enabled hinv => by
      obtain ⟨hqty, hprice⟩ := enabled.planned_pos hinv.1
      exact ⟨hinv.1.fill enabled,
        hP order (e.planned remaining) into.positions e.next hqty hprice enabled.booked hinv.2⟩)
    ⟨h, hbefore⟩
  exact hboth.2

namespace MatcherState

theorem WellFormed.dispatch_positions {P : SortedMap AccountKey Position → Prop}
    (hP : KeptByFills P) {env : Primitives} {s t : MatcherState} (h : s.WellFormed)
    {message : OrderMessage} (hdispatch : MatcherState.dispatch env s message = .ok t)
    (hs : P s.positions) : P t.positions := by
  cases dispatch_cases h.noEmptyLevel hdispatch with
  | refused | refusedOnBook | cancelIgnored | cancelRejected | cancelled | ignored | listed | ruled =>
      exact hs
  | matched m order left after _ haccepted hexecuted hfinished =>
      obtain ⟨reserved, -, hfills⟩ := hexecuted.filled
      have hafter : P after.positions := (h.matchInv haccepted).positions hP hfills hs
      cases hfinished <;> exact hafter
  | delisted _ _ _ _ _ cleared _ hcleared =>
      rcases clearBook_eq_ok hcleared with ⟨-, rfl⟩ | ⟨_, ledger, -, -, rfl⟩ <;> exact hs

/-- What every fill keeps holds of the positions of every reachable state. -/
theorem Reachable.positions {P : SortedMap AccountKey Position → Prop} (hP : KeptByFills P)
    (hempty : P .empty) {env : Primitives} {s : MatcherState} (hs : Reachable env s) :
    P s.positions := by
  induction hs with
  | genesis h =>
      obtain ⟨ledger, -, -, rfl⟩ := ExecutionGenesis.opening_eq_ok h
      exact hempty
  | applied hs h ih =>
      obtain ⟨-, t, hdispatch, hconsume⟩ := apply_eq_ok h
      obtain ⟨-, -, -, -, -, -, -, hpositions, -⟩ := consume_eq_ok hconsume
      rw [hpositions]
      exact hs.wellFormed.dispatch_positions hP hdispatch ih

end MatcherState

/-! ## Sums over the accounts of one symbol -/

/-- A weight that counts one symbol's positions alone. -/
def symbolWeight (f : Position → Int) (symbol : String) (key : AccountKey) (p : Position) : Int :=
  if (ofLex key).2 = symbol then f p else 0

/-- The sum of `f` over every account's position in one symbol. -/
def symbolTotal (f : Position → Int) (symbol : String)
    (positions : SortedMap AccountKey Position) : Int :=
  positions.total (symbolWeight f symbol)

theorem symbolTotal_insert {f : Position → Int} (hdefault : f .default = 0) (symbol name : String)
    (positions : SortedMap AccountKey Position) (account : AccountId) (p : Position) :
    symbolTotal f symbol (positions.insert (Ledger.accountKey account name) p) =
      symbolTotal f symbol positions +
        (if name = symbol then
          f p - f (positions.getD (Ledger.accountKey account name) .default) else 0) := by
  unfold symbolTotal
  rw [SortedMap.total_insert]
  unfold SortedMap.getD
  by_cases hname : name = symbol
  · cases hget : positions.get? (Ledger.accountKey account name) with
    | none => simp [symbolWeight, Ledger.accountKey, hname, hdefault]
    | some old =>
        simp only [symbolWeight, Ledger.accountKey, ofLex_toLex, hname, if_true, Option.elim_some,
          Option.getD_some]
        ring
  · cases positions.get? (Ledger.accountKey account name) <;>
      simp [symbolWeight, Ledger.accountKey, hname]

/-- A booked fill moves no total whose two legs cancel. -/
theorem symbolTotal_positionsAfter {f : Position → Int} (hdefault : f .default = 0)
    {order : IncomingOrder} {fill : PlannedFill} {positions : SortedMap AccountKey Position}
    {next : Position × Position} (hnext : positionsOf order fill positions = some next)
    (amount : Int)
    (hleg : ∀ {p p' : Position} {side : Side},
      p.afterFill side fill.qtyTenths fill.priceCents = some p' →
        f p' = f p + Position.signedQty side amount) (symbol : String) :
    symbolTotal f symbol (positionsAfter positions order fill next.1 next.2) =
      symbolTotal f symbol positions := by
  obtain ⟨makerNext, takerNext⟩ := next
  obtain ⟨hmaker, htaker⟩ := Position.afterBothFills_eq_some hnext
  have hmakerLeg := hleg hmaker
  have htakerLeg := hleg htaker
  rw [Position.signedQty_opposite] at hmakerLeg
  unfold positionsAfter
  by_cases hsame : fill.makerAccount = order.account
  · -- One account takes both legs, so the second undoes the first.
    simp only [hsame, decide_true, if_true] at htakerLeg hmakerLeg
    simp only [hsame, ne_eq, not_true_eq_false, if_false]
    rw [symbolTotal_insert hdefault]
    split_ifs <;> omega
  · simp only [hsame, decide_false, Bool.false_eq_true, if_false] at htakerLeg
    simp only [ne_eq, hsame, not_false_eq_true, if_true]
    have hkeys : Ledger.accountKey order.account order.symbol ≠
        Ledger.accountKey fill.makerAccount order.symbol :=
      fun hkey => hsame (accountKey_inj.1 hkey).symm
    have hother : (positions.insert (Ledger.accountKey fill.makerAccount order.symbol)
        makerNext).getD (Ledger.accountKey order.account order.symbol) .default =
        positions.getD (Ledger.accountKey order.account order.symbol) .default := by
      simp [SortedMap.getD, hkeys]
    rw [symbolTotal_insert hdefault, symbolTotal_insert hdefault, hother]
    split_ifs <;> omega

/-! ## The law of the whole market -/

/-- Every position is lawful, and each symbol's quantities and cash sum to zero. -/
structure Balanced (positions : SortedMap AccountKey Position) : Prop where
  lawful : ∀ key p, positions.get? key = some p → p.Lawful
  net_zero : ∀ symbol, symbolTotal Position.netQtyTenths symbol positions = 0
  cash_zero : ∀ symbol, symbolTotal Position.cashMills symbol positions = 0

theorem lawful_getD {positions : SortedMap AccountKey Position}
    (h : ∀ key p, positions.get? key = some p → p.Lawful) (key : AccountKey) :
    (positions.getD key .default).Lawful := by
  unfold SortedMap.getD
  cases hget : positions.get? key with
  | none => exact Position.lawful_default
  | some p => exact h key p hget

/-- A position after a fill is one of the two booked ones, or was there before. -/
theorem get?_positionsAfter {positions : SortedMap AccountKey Position} {order : IncomingOrder}
    {fill : PlannedFill} {makerNext takerNext : Position} {key : AccountKey} {p : Position}
    (h : (positionsAfter positions order fill makerNext takerNext).get? key = some p) :
    p = makerNext ∨ p = takerNext ∨ positions.get? key = some p := by
  unfold positionsAfter at h
  dsimp only at h
  rw [SortedMap.get?_insert] at h
  by_cases htaker : key = Ledger.accountKey order.account order.symbol
  · rw [if_pos htaker] at h
    exact Or.inr (Or.inl (Option.some.inj h).symm)
  · rw [if_neg htaker] at h
    split_ifs at h
    · rw [SortedMap.get?_insert] at h
      split_ifs at h
      · exact Or.inl (Option.some.inj h).symm
      · exact Or.inr (Or.inr h)
    · exact Or.inr (Or.inr h)

theorem keptByFills_balanced : KeptByFills Balanced := by
  intro order fill positions next hqty hprice hnext h
  obtain ⟨makerNext, takerNext⟩ := next
  obtain ⟨hmaker, htaker⟩ := Position.afterBothFills_eq_some hnext
  have hmakerLawful := (lawful_getD h.lawful _).afterFill hqty hprice hmaker
  have htakerLawful : takerNext.Lawful := by
    refine Position.Lawful.afterFill ?_ hqty hprice htaker
    split_ifs
    · exact hmakerLawful
    · exact lawful_getD h.lawful _
  refine ⟨?_, ?_, ?_⟩
  · intro key p hget
    rcases get?_positionsAfter hget with rfl | rfl | hget
    · exact hmakerLawful
    · exact htakerLawful
    · exact h.lawful key p hget
  · intro symbol
    -- What one leg takes the other gives.
    rw [symbolTotal_positionsAfter rfl hnext fill.qtyTenths]
    · exact h.net_zero symbol
    · intro p p' side hleg
      exact (Position.afterFill_eq_some hleg).1
  · intro symbol
    rw [symbolTotal_positionsAfter rfl hnext (-(fill.qtyTenths * fill.priceCents))]
    · exact h.cash_zero symbol
    · intro p p' side hleg
      rw [(Position.afterFill_eq_some hleg).2.1]
      cases side
      · simp only [Position.signedQty]
        ring
      · simp only [Position.signedQty]
        ring

theorem balanced_empty : Balanced .empty where
  lawful := by simp
  net_zero := fun _ => rfl
  cash_zero := fun _ => rfl

/-- The whole profit of one symbol at one mark, over every account. -/
def profitTotal (symbol : String) (atCents : Int) (positions : SortedMap AccountKey Position) : Int :=
  symbolTotal (fun p => p.realizedMills + p.openProfit atCents) symbol positions

theorem symbolTotal_congr {f g : Position → Int} {symbol : String}
    {positions : SortedMap AccountKey Position}
    (h : ∀ key p, positions.get? key = some p → f p = g p) :
    symbolTotal f symbol positions = symbolTotal g symbol positions := by
  unfold symbolTotal SortedMap.total Entries.total
  congr 1
  refine List.map_congr_left ?_
  rintro ⟨key, p⟩ hentry
  simp [symbolWeight, h key p (SortedMap.mem_entries.1 hentry)]

theorem symbolTotal_add_mul (f g : Position → Int) (symbol : String) (c : Int)
    (positions : SortedMap AccountKey Position) :
    symbolTotal (fun p => f p + g p * c) symbol positions =
      symbolTotal f symbol positions + symbolTotal g symbol positions * c := by
  unfold symbolTotal SortedMap.total Entries.total
  induction positions.entries with
  | nil => simp
  | cons e l ih =>
      rw [List.map_cons, List.sum_cons, ih, List.map_cons, List.sum_cons, List.map_cons,
        List.sum_cons]
      unfold symbolWeight
      split_ifs <;> ring

theorem Balanced.profit_zero {positions : SortedMap AccountKey Position} (h : Balanced positions)
    (symbol : String) (atCents : Int) : profitTotal symbol atCents positions = 0 := by
  unfold profitTotal
  rw [symbolTotal_congr (g := fun p => p.cashMills + p.netQtyTenths * atCents)
    (fun key p hget => (h.lawful key p hget).profit_eq atCents), symbolTotal_add_mul,
    h.cash_zero, h.net_zero]
  ring

/-- A fill with a leg that would overflow ends the match with the parts as they were. -/
theorem executeLoop_of_overflow {order : IncomingOrder} {fuel : Nat} {remaining : Int}
    {into : BookAndTrades} {fill : PlannedFill} (hwanted : 0 < remaining)
    (hfill : nextFill order into.book remaining = some fill)
    (hnext : positionsOf order fill into.positions = none) :
    executeLoop order (fuel + 1) remaining into = .ok (.overflowed remaining, into) := by
  simp [executeLoop, not_le.2 hwanted, hfill, hnext]

namespace MatcherState

/-- Positions are zero-sum in every state a run reaches, and a fill that cannot book both legs books
neither. -/
theorem reachable_zeroSum {env : Primitives} {s : MatcherState} (hs : Reachable env s) :
    (∀ symbol, symbolTotal Position.netQtyTenths symbol s.positions = 0 ∧
      symbolTotal Position.cashMills symbol s.positions = 0 ∧
      ∀ atCents, profitTotal symbol atCents s.positions = 0) ∧
    (∀ key p, s.positions.get? key = some p →
      0 ≤ p.costBasisMills ∧ (p.netQtyTenths = 0 → p.costBasisMills = 0) ∧
        p.realizedMills = p.cashMills + p.netQtyTenths.sign * p.costBasisMills) ∧
    ∀ (order : IncomingOrder) (remaining : Int) (into : BookAndTrades) (fill : PlannedFill),
      0 < remaining → nextFill order into.book remaining = some fill →
      positionsOf order fill into.positions = none →
      ∀ fuel, executeLoop order (fuel + 1) remaining into = .ok (.overflowed remaining, into) := by
  have h : Balanced s.positions := hs.positions keptByFills_balanced balanced_empty
  refine ⟨?_, ?_, ?_⟩
  · intro symbol
    exact ⟨h.net_zero symbol, h.cash_zero symbol, h.profit_zero symbol⟩
  · intro key p hget
    have hp := h.lawful key p hget
    exact ⟨hp.basis_nonneg, hp.basis_of_flat, hp.realized_eq⟩
  · intro order remaining into fill hwanted hfill hnext fuel
    exact executeLoop_of_overflow hwanted hfill hnext

/-- The one trade of the short log leaves two positions that cancel. -/
theorem reachable_zeroSum_sample :
    Sample.state.positions.size = 2 ∧
      symbolTotal Position.netQtyTenths "ETH-USDC" Sample.state.positions = 0 ∧
      profitTotal "ETH-USDC" 10000 Sample.state.positions = 0 :=
  have hsums := (reachable_zeroSum Sample.reachable_state).1 "ETH-USDC"
  ⟨Sample.state_values.2.2.2.1, hsums.1, hsums.2.2 10000⟩

end MatcherState
end Matcher
end VerifiableExchange
