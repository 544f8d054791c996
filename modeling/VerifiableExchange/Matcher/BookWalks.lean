import VerifiableExchange.Matcher.Capacity

/-!
# BookWalks — every pass over the book meets the fills of one plan

The check of a fill-or-kill order's quantity, the plan of its fills, the match, the position limit
and the funds check each pass over the crossing levels on their own. They stop at the same level and
at the same order: each of them is a pass over the one plan of the order. The self-trade check reads
the whole of the crossing levels, so what it finds free of own orders stays so for every quantity.
-/

namespace VerifiableExchange
namespace Matcher

open Lib

variable {order : IncomingOrder}

/-! ## The passes, over a plan -/

/-- The match, over the fills of a plan: it ends early only where a position would leave its
range. -/
def executePlan (order : IncomingOrder) : Int → List PlannedFill → BookAndTrades →
    Except Fault (Matched × BookAndTrades)
  | remaining, [], into => .ok (.crossed remaining, into)
  | remaining, fill :: rest, into =>
      match positionsOf order fill into.positions with
      | none => .ok (.overflowed remaining, into)
      | some next =>
          match settleAndCommit order fill next (into.tradesTotal + 1) into with
          | .error fault => .error fault
          | .ok into => executePlan order (remaining - fill.qtyTenths) rest into

/-- The position limit, on one fill of a plan. -/
def ResourceLimits.countFill (limits : ResourceLimits) (order : IncomingOrder)
    (positions : SortedMap AccountKey Position) (opening : Opening) (fill : PlannedFill) :
    Except Rejected Opening := do
  let added ← limits.countAccount order positions opening.added order.account
  let added ← limits.countAccount order positions added fill.makerAccount
  return { added := added, remaining := opening.remaining - fill.qtyTenths }

/-- The funds check, on one fill of a plan. -/
def preflightPlanned (order : IncomingOrder) (positions : SortedMap AccountKey Position)
    (p : Preflight) (fill : PlannedFill) : Except Rejected Preflight := do
  let nextTrade ← orFail (checkedAddU64 p.nextTrade 1) ⟨"position_overflow"⟩
  let projected ← projectLeg order positions p.projected fill.makerAccount order.side.opposite
    fill.qtyTenths fill.priceCents
  let projected ← projectLeg order positions projected order.account order.side fill.qtyTenths
    fill.priceCents
  let staged ← orFail (p.staged.settleFill fill.makerOrder order.id fill.priceCents
    fill.qtyTenths).toOption ⟨"funds_overflow"⟩
  return {
    staged := staged
    projected := projected
    remaining := p.remaining - fill.qtyTenths
    nextTrade := nextTrade }

/-! ## The quantity that is there -/

/-- The capped sum of some resting quantities. -/
theorem foldl_resting {orders : List RestingOrder} (hpos : ∀ o ∈ orders, 0 < o.qtyTenths) :
    orders.foldl (fun sum resting => saturatingAdd sum resting.qtyTenths) 0 =
      min i64Max (orders.map RestingOrder.qtyTenths).sum := by
  have hquantities : ∀ n ∈ orders.map RestingOrder.qtyTenths, 0 < n := by
    intro n hn
    obtain ⟨o, ho, rfl⟩ := List.mem_map.1 hn
    exact hpos o ho
  have hsum := foldl_saturatingAdd hquantities le_rfl (by decide)
  rw [List.foldl_map, zero_add] at hsum
  exact hsum

/-- What the queue holds within a limit. -/
def within (book : Book) (side : Side) (limitCents : Int) : Int :=
  ((queue book side limitCents).map Waiting.size).sum

theorem crossingTenths_eq {book : Book} {side : Side} {limitCents : Int}
    (hpos : ∀ w ∈ waiting book side, 0 < w.size) :
    crossingTenths (some book) side limitCents = min i64Max (within book side limitCents) := by
  have horders : ∀ o ∈ (crossing book side limitCents).flatMap (fun entry => entry.2),
      0 < o.qtyTenths := by
    rw [crossing_flatMap]
    intro o ho
    obtain ⟨w, hw, rfl⟩ := List.mem_map.1 ho
    exact hpos w (List.mem_filter.1 hw).1
  simp only [crossingTenths]
  rw [foldl_resting horders, crossing_flatMap, List.map_map]
  rfl

/-- The source adds the bids up from the limit; the order they are added in does not matter. -/
theorem crossingTenths_sell {book : Book} {limitCents : Int}
    (hpos : ∀ w ∈ waiting book .sell, 0 < w.size) :
    crossingTenths (some book) .sell limitCents =
      ((book.bids.entries.filter (fun entry => limitCents ≤ entry.1)).flatMap
        (fun entry => entry.2)).foldl
          (fun sum resting => saturatingAdd sum resting.qtyTenths) 0 := by
  have hcrossing : crossing book .sell limitCents =
      (book.bids.entries.filter (fun entry => limitCents ≤ entry.1)).reverse := by
    rw [← List.filter_reverse]
    rfl
  have hascending : ((book.bids.entries.filter (fun entry => limitCents ≤ entry.1)).flatMap
      (fun entry => entry.2)).Perm ((queue book .sell limitCents).map Prod.snd) := by
    rw [← crossing_flatMap, hcrossing]
    exact (List.reverse_perm _).symm.flatMap_right _
  have horders : ∀ o ∈ (book.bids.entries.filter (fun entry => limitCents ≤ entry.1)).flatMap
      (fun entry => entry.2), 0 < o.qtyTenths := by
    intro o ho
    obtain ⟨w, hw, rfl⟩ := List.mem_map.1 (hascending.mem_iff.1 ho)
    exact hpos w (List.mem_filter.1 hw).1
  have hsum := (hascending.map RestingOrder.qtyTenths).sum_eq
  rw [crossingTenths_eq hpos, foldl_resting horders, hsum, List.map_map]
  rfl

/-- The quantity is there exactly when the plan fills it whole. -/
theorem available_iff {book : Book} (hqty : 0 < order.qtyTenths) (hmax : order.qtyTenths ≤ i64Max)
    (hpos : ∀ w ∈ waiting book order.side, 0 < w.size) :
    order.qtyTenths ≤ crossingTenths (some book) order.side order.limitCents ↔
      ((planFills order book).map PlannedFill.qtyTenths).sum = order.qtyTenths := by
  have hqueue : ∀ w ∈ queue book order.side order.limitCents, 0 < w.size :=
    fun w hw => hpos w (List.mem_filter.1 hw).1
  have hplanned : ((planFills order book).map PlannedFill.qtyTenths).sum =
      min order.qtyTenths (within book order.side order.limitCents) := by
    rw [planFills_eq hqty.le hpos, plannedOf, List.map_map]
    exact Greedy.sum_fills hqty.le hqueue
  rw [crossingTenths_eq hpos, hplanned]
  omega

/-! ## The match -/

theorem noEmptyLevel_behind {price : Int} {maker : RestingOrder} {rest : Level}
    {others : List (Int × Level)} (h : NoEmptyLevel ((price, maker :: rest) :: others)) :
    NoEmptyLevel (if rest = [] then others else (price, rest) :: others) := by
  obtain ⟨-, hothers⟩ := List.forall_mem_cons.1 h
  split_ifs with hrest
  · exact hothers
  · exact List.forall_mem_cons.2 ⟨hrest, hothers⟩

/-- The loop goes through the plan. -/
theorem executeLoop_eq_executePlan :
    ∀ (fuel : Nat) (remaining : Int) (into : BookAndTrades),
      restingCount into.book order.side < fuel → NoEmptyLevel (facing into.book order.side) →
      0 ≤ remaining →
      into.tradesTotal + (planLevels order remaining (facing into.book order.side)).length ≤
        u64Max →
      executeLoop order fuel remaining into =
        executePlan order remaining (planLevels order remaining (facing into.book order.side)) into
  | 0, _, _, hfuel, _, _, _ => absurd hfuel (Nat.not_lt_zero _)
  | fuel + 1, remaining, into, hfuel, hlevels, hremaining, hroom => by
      rcases eq_or_lt_of_le hremaining with rfl | hwanted
      · have hnone : planLevels order 0 (facing into.book order.side) = [] := by
          cases facing into.book order.side with
          | nil => rfl
          | cons entry others => simp [planLevels]
        rw [hnone, executeLoop_of_nonpos le_rfl]
        rfl
      unfold executeLoop
      rw [if_neg (not_le.2 hwanted)]
      cases hfacing : facing into.book order.side with
      | nil =>
          have hnext : nextFill order into.book remaining = none := by simp [nextFill, hfacing]
          rw [hnext]
          rfl
      | cons entry others =>
          obtain ⟨price, level⟩ := entry
          by_cases hcross : crosses order.side price order.limitCents
          swap
          · have hnext : nextFill order into.book remaining = none := by
              simp [nextFill, hfacing, hcross]
            simp only [hnext, planLevels, hcross, not_false_eq_true, true_or, if_true, executePlan]
          cases level with
          | nil => exact absurd rfl (hlevels (price, []) (hfacing ▸ List.mem_cons_self))
          | cons maker rest =>
              have hnext : nextFill order into.book remaining =
                  some (frontFill price maker remaining) := by
                simp only [nextFill, hfacing, List.head?_cons, hcross, if_true, Option.map_some]
                rfl
              rw [hfacing, planLevels_cons hcross hwanted.ne', List.length_cons] at hroom
              rw [planLevels_cons hcross hwanted.ne', hnext]
              have hid : checkedAddU64 into.tradesTotal 1 = some (into.tradesTotal + 1) :=
                checkedAddU64_eq_some.2 ⟨by omega, rfl⟩
              simp only [executePlan]
              cases hbooked : positionsOf order (frontFill price maker remaining)
                  into.positions with
              | none => rfl
              | some next =>
                  simp only [hid]
                  cases hcommit : settleAndCommit order (frontFill price maker remaining) next
                      (into.tradesTotal + 1) into with
                  | error fault => rfl
                  | ok committed =>
                      obtain ⟨e, henabled, hplanned, hresult⟩ :=
                        settleAndCommit_eq_ok hwanted hnext hbooked hid hcommit
                      obtain ⟨others', hbest⟩ := henabled.best
                      obtain ⟨hhead, rfl⟩ := List.cons.inj (hfacing.symm.trans hbest)
                      obtain ⟨rfl, hmakers⟩ := Prod.mk.inj hhead
                      obtain ⟨rfl, rfl⟩ := List.cons.inj hmakers
                      simp only [frontFill]
                      by_cases hleft : 0 < remaining - min remaining e.maker.qtyTenths
                      · -- The maker is used up, so the loop goes on at what is behind it.
                        have hdone : e.makerLeft remaining = 0 := by
                          simp only [FillEvent.makerLeft, FillEvent.qty]
                          omega
                        have hafter := FillEvent.facing_result hfacing hdone
                        have hrounds := henabled.restingCount_result hdone
                        rw [if_pos hleft] at hroom ⊢
                        rw [hresult, ← hafter]
                        refine executeLoop_eq_executePlan fuel _ _ (by omega) ?_ hleft.le ?_
                        · rw [hafter]
                          exact noEmptyLevel_behind (hfacing ▸ hlevels)
                        · rw [hafter]
                          show into.tradesTotal + 1 + _ ≤ u64Max
                          omega
                      · -- The order is filled, so the plan ends here.
                        rw [if_neg hleft, executeLoop_of_nonpos (not_lt.1 hleft)]
                        rfl

/-- Counting as many trades as there are fills in the plan, the match is a pass over it. -/
theorem execute_eq_executePlan {into : BookAndTrades}
    (hlevels : NoEmptyLevel (facing into.book order.side)) (hqty : 0 ≤ order.qtyTenths)
    (hroom : into.tradesTotal + (planFills order into.book).length ≤ u64Max) :
    execute order into = executePlan order order.qtyTenths (planFills order into.book) into :=
  executeLoop_eq_executePlan _ _ _ (Nat.lt_succ_self _) hlevels hqty hroom

/-- What a match did not make of its plan: nothing, or what begins at the first fill that would
take a position out of its range. -/
def PlanEnded (order : IncomingOrder) (after : BookAndTrades) (unmade : List PlannedFill) :
    Matched → Prop
  | .crossed _ => unmade = []
  | .overflowed _ => ∃ fill later, unmade = fill :: later ∧
      positionsOf order fill after.positions = none

/-- What a committed fill counts and records. -/
theorem settleAndCommit_trades {fill : PlannedFill} {next : Position × Position}
    {into after : BookAndTrades} (hroom : into.tradesTotal + 1 ≤ u64Max)
    (h : settleAndCommit order fill next (into.tradesTotal + 1) into = .ok after) :
    after.tradesTotal = into.tradesTotal + 1 ∧
      (into.pending.isSome = true → after.pending.isSome = true ∧ recordedTrades after.pending =
        recordedTrades into.pending ++ [tradeOf order fill (into.tradesTotal + 1)]) := by
  simp only [settleAndCommit, commitFill, bind_eq_ok] at h
  obtain ⟨_, -, ⟨maker, rest⟩, -, left, -, h⟩ := h
  cases h
  refine ⟨min_eq_left hroom, fun hkept => ⟨by simp [record, hkept], ?_⟩⟩
  rw [recordedTrades_record (trade?_makerChange _ _), recordedTrades_record_traded hkept]

/-- A match makes the fills of its plan in order, up to the first a position is in the way of. -/
theorem executePlan_eq_ok {matched : Matched} {after : BookAndTrades} :
    ∀ {fills : List PlannedFill} {remaining : Int} {into : BookAndTrades},
      into.tradesTotal + fills.length ≤ u64Max →
      executePlan order remaining fills into = .ok (matched, after) →
      ∃ made unmade, fills = made ++ unmade ∧
        after.tradesTotal = into.tradesTotal + made.length ∧
        (into.pending.isSome = true → recordedTrades after.pending =
          recordedTrades into.pending ++ tradeRows order into.tradesTotal made) ∧
        PlanEnded order after unmade matched
  | [], _, into, _, h => by
      cases h
      exact ⟨[], [], rfl, rfl, fun _ => (List.append_nil _).symm, rfl⟩
  | fill :: rest, remaining, into, hroom, h => by
      simp only [executePlan] at h
      split at h
      · rename_i hstuck
        cases h
        exact ⟨[], fill :: rest, rfl, rfl, fun _ => (List.append_nil _).symm, fill, rest, rfl,
          hstuck⟩
      split at h
      · cases h
      rename_i committed hcommit
      rw [List.length_cons] at hroom
      obtain ⟨htotal, hrecorded⟩ := settleAndCommit_trades (by omega) hcommit
      obtain ⟨made, unmade, rfl, hcount, hrows, hended⟩ :=
        executePlan_eq_ok (by rw [htotal]; omega) h
      refine ⟨fill :: made, unmade, rfl, ?_, ?_, hended⟩
      · rw [hcount, htotal, List.length_cons]
        omega
      · intro hkept
        obtain ⟨hstill, hfirst⟩ := hrecorded hkept
        rw [hrows hstill, hfirst, htotal, List.append_assoc]
        rfl

/-! ## The position limit and the funds check -/

/-- The position limit counts the fills of the plan. -/
theorem ResourceLimits.countPositions_eq {book : Book} (limits : ResourceLimits)
    (positions : SortedMap AccountKey Position) (hqty : 0 ≤ order.qtyTenths)
    (hpos : ∀ w ∈ waiting book order.side, 0 < w.size) :
    limits.countPositions order book positions =
      (planFills order book).foldlM (limits.countFill order positions) ⟨[], order.qtyTenths⟩ := by
  rw [countPositions, crossing_flatMap, planFills_eq hqty hpos, plannedOf, List.foldlM_map,
    List.foldlM_map]
  refine Greedy.foldlM_fills Opening.remaining ?_ ?_ ?_ _ _ hqty
  · intro opening w hdone
    exact countMaker_of_done hdone w.2
  · intro opening w hwanted
    exact if_neg hwanted
  · intro opening f opening' htake
    simp only [countFill, bind_eq_ok] at htake
    obtain ⟨_, -, _, -, htake⟩ := htake
    cases htake
    rfl

/-- What the funds check leaves to match after one fill. -/
theorem remaining_of_preflightFill {positions : SortedMap AccountKey Position} {price : Int}
    {p p' : Preflight} {maker : RestingOrder}
    (h : preflightFill order positions price p maker = .ok p') :
    p'.remaining = p.remaining - min p.remaining maker.qtyTenths := by
  simp only [preflightFill, bind_eq_ok] at h
  obtain ⟨_, -, _, -, _, -, _, -, h⟩ := h
  cases h
  rfl

theorem preflightPlanned_frontFill (positions : SortedMap AccountKey Position) (price : Int)
    (p : Preflight) (maker : RestingOrder) :
    preflightPlanned order positions p (frontFill price maker p.remaining) =
      preflightFill order positions price p maker := rfl

/-- The funds check goes through the plan. -/
theorem preflightLevels_eq (positions : SortedMap AccountKey Position) :
    ∀ (n : Nat) (levels : List (Int × Level)) (p : Preflight),
      (levels.map (fun entry => entry.2.length)).sum ≤ n → NoEmptyLevel levels → 0 ≤ p.remaining →
      preflightLevels order positions p levels =
        (planLevels order p.remaining levels).foldlM (preflightPlanned order positions) p
  | _, [], _, _, _, _ => rfl
  | n, (price, level) :: others, p, hcount, hlevels, hremaining => by
      by_cases hdone : p.remaining = 0
      · rw [preflightLevels_of_done hdone]
        simp only [planLevels, hdone, or_true, if_true]
        rfl
      by_cases hcross : crosses order.side price order.limitCents
      swap
      · simp only [preflightLevels, planLevels, hcross, not_false_eq_true, or_true, true_or,
          if_true]
        rfl
      cases level with
      | nil => exact absurd rfl (hlevels (price, []) List.mem_cons_self)
      | cons maker rest =>
          rw [preflightLevels_cons hcross hdone, planLevels_cons hcross hdone, List.foldlM_cons,
            preflightPlanned_frontFill]
          cases hfill : preflightFill order positions price p maker with
          | error why => rfl
          | ok p' =>
              have hleft := remaining_of_preflightFill hfill
              have hnonneg : 0 ≤ p.remaining - min p.remaining maker.qtyTenths := by omega
              simp only [bind, Except.bind]
              rw [← hleft] at hnonneg ⊢
              by_cases hmore : 0 < p'.remaining
              · rw [if_neg hmore.ne', if_pos hmore]
                cases n with
                | zero => simp at hcount
                | succ n =>
                    refine preflightLevels_eq positions n _ p' ?_ (noEmptyLevel_behind hlevels)
                      hnonneg
                    simp only [List.map_cons, List.sum_cons, List.length_cons] at hcount
                    split_ifs
                    · omega
                    · simp only [List.map_cons, List.sum_cons]
                      omega
              · rw [if_pos (le_antisymm (not_lt.1 hmore) hnonneg), if_neg hmore]
                rfl

/-! ## The self-trade check -/

/-- The self-trade check examines the levels within the limit, and no others. -/
theorem mem_crossing {book : Book} {side : Side} {limitCents price : Int} {level : Level} :
    (price, level) ∈ crossing book side limitCents ↔
      (book.levels side.opposite).get? price = some level ∧ crosses side price limitCents := by
  rw [crossing, List.mem_filter, mem_facing, decide_eq_true_eq]

/-- Every fill of a plan, whatever its quantity, takes from an order of such a level. -/
theorem exists_of_mem_planFills {book : Book} (hqty : 0 ≤ order.qtyTenths)
    (hpos : ∀ w ∈ waiting book order.side, 0 < w.size) {fill : PlannedFill}
    (h : fill ∈ planFills order book) :
    ∃ level, (fill.priceCents, level) ∈ crossing book order.side order.limitCents ∧
      ∃ resting ∈ level, resting.id = fill.makerOrder ∧ resting.account = fill.makerAccount := by
  rw [planFills_eq hqty hpos] at h
  obtain ⟨⟨w, qty⟩, hmem, rfl⟩ := List.mem_map.1 h
  obtain ⟨hwaiting, hcross⟩ := List.mem_filter.1 (Greedy.mem_of_mem_fills hmem)
  obtain ⟨level, hlevel, hresting⟩ := mem_waiting.1 hwaiting
  exact ⟨level, mem_crossing.2 ⟨hlevel, of_decide_eq_true hcross⟩, w.2, hresting, rfl, rfl⟩

/-! ## Room for the trades of a plan -/

namespace MatcherState

/-- The orders that wait on one side of a book are open orders, each counted once. -/
theorem length_waiting_le {symbols : SymbolRegistry} {last : OrderId} {books : Books}
    {openOrders : SortedMap OrderId OrderRef} {symbol : String} {book : Book}
    (h : BookInv symbols last (books.insert symbol book) openOrders) (side : Side) :
    (waiting book side).length ≤ openOrders.size := by
  have hlevel : ∀ {price level}, (book.levels side.opposite).get? price = some level →
      levelAt (books.insert symbol book) symbol side.opposite price = some level :=
    fun hget => levelAt_eq_some.2 ⟨book, by simp, hget⟩
  have hopen : ∀ w ∈ waiting book side,
      openOrders.get? w.2.id = some ⟨symbol, side.opposite, w.1⟩ := by
    intro w hw
    obtain ⟨level, hget, ho⟩ := mem_waiting.1 hw
    exact h.get?_of_mem (hlevel hget) ho
  have hsorted := waiting_sorted (fun _ _ hget => h.increasing (hlevel hget))
  have hnodup : ((waiting book side).map (fun w => w.2.id)).Nodup := by
    refine List.pairwise_map.2 (hsorted.imp_of_mem ?_)
    intro a b ha hb hbefore hid
    -- Two orders with one id wait at one price, and there the earlier one has the smaller id.
    have hprice : a.1 = b.1 := by
      have hboth := (hopen a ha).symm.trans (hid ▸ hopen b hb)
      simpa using hboth
    cases side with
    | buy => exact hbefore.elim hprice.not_lt (fun hlater => hlater.2.ne hid)
    | sell => exact hbefore.elim hprice.symm.not_lt (fun hlater => hlater.2.ne hid)
  calc
    (waiting book side).length = ((waiting book side).map (fun w => w.2.id)).toFinset.card := by
      rw [List.toFinset_card_of_nodup hnodup, List.length_map]
    _ ≤ openOrders.keys.card := by
      refine Finset.card_le_card ?_
      intro id hid
      obtain ⟨w, hw, rfl⟩ := List.mem_map.1 (List.mem_toFinset.1 hid)
      rw [SortedMap.mem_keys, SortedMap.contains, hopen w hw]
      rfl
    _ = openOrders.size := SortedMap.card_keys _

/-! ## All passes agree -/

/-- On this state, every pass over the book an order makes is a pass over the order's plan. -/
structure WalksAgree (s : MatcherState) (order : IncomingOrder) : Prop where
  available : order.qtyTenths ≤
      crossingTenths (s.books.get? order.symbol) order.side order.limitCents ↔
    ((planFills order (s.bookOf order.symbol)).map PlannedFill.qtyTenths).sum = order.qtyTenths
  executed : ∀ ledger : Ledger,
    execute order { s.bookAndTrades order.symbol with ledger := ledger } =
      executePlan order order.qtyTenths (planFills order (s.bookOf order.symbol))
        { s.bookAndTrades order.symbol with ledger := ledger }
  listed : ∀ ledger matched after,
    execute order { s.bookAndTrades order.symbol with ledger := ledger } = .ok (matched, after) →
    ∃ made unmade, planFills order (s.bookOf order.symbol) = made ++ unmade ∧
      after.tradesTotal = s.tradesTotal + made.length ∧
      (s.pending.isSome = true → recordedTrades after.pending =
        recordedTrades s.pending ++ tradeRows order s.tradesTotal made) ∧
      PlanEnded order after unmade matched
  counted : ∀ limits : ResourceLimits,
    limits.checkPositions order (s.bookOf order.symbol) s.positions = (do
      let _ ← (planFills order (s.bookOf order.symbol)).foldlM (limits.countFill order s.positions)
        ⟨[], order.qtyTenths⟩
      return ())
  preflighted : ∀ p : Preflight, p.remaining = order.qtyTenths →
    preflightLevels order s.positions p (facing (s.bookOf order.symbol) order.side) =
      (planFills order (s.bookOf order.symbol)).foldlM (preflightPlanned order s.positions) p
  examined : ∀ price level,
    (price, level) ∈ crossing (s.bookOf order.symbol) order.side order.limitCents ↔
      ((s.bookOf order.symbol).levels order.side.opposite).get? price = some level ∧
        crosses order.side price order.limitCents
  reached : ∀ qtyTenths, 0 < qtyTenths →
    ∀ fill ∈ planFills { order with qtyTenths := qtyTenths } (s.bookOf order.symbol),
      ∃ level, (fill.priceCents, level) ∈
          crossing (s.bookOf order.symbol) order.side order.limitCents ∧
        ∃ resting ∈ level, resting.id = fill.makerOrder ∧ resting.account = fill.makerAccount
  seen : ∀ qtyTenths, 0 < qtyTenths →
    ∀ fill ∈ planFills { order with qtyTenths := qtyTenths } (s.bookOf order.symbol),
      fill.makerAccount = order.account → ownOrderInTheWay order (s.bookOf order.symbol) ≠ none

/-- In every reachable state all passes over a book agree, whatever the order. -/
theorem walks_agree {env : Primitives} {s : MatcherState} (hs : Reachable env s)
    (order : IncomingOrder) (hqty : 0 < order.qtyTenths) (hmax : order.qtyTenths ≤ i64Max) :
    s.WalksAgree order := by
  have hwell := hs.wellFormed
  have hbooks : BookInv s.symbols s.lastSeen (s.books.insert order.symbol (s.bookOf order.symbol))
      s.openOrders := hwell.books.congr_levels (fun _ _ _ => levelAt_insert_getD _ _ _ _ _)
  have hpos := hbooks.waiting_pos order.side
  have hlevels : NoEmptyLevel (facing (s.bookOf order.symbol) order.side) :=
    hwell.noEmptyLevel order.symbol order.side
  -- The plan has no more fills than there are open orders, and trades and open orders together are
  -- no more than the messages.
  have hplan : (planFills order (s.bookOf order.symbol)).length ≤ s.openOrders.size := by
    rw [planFills_eq hqty.le hpos, plannedOf, List.length_map]
    calc
      (walkOf order (s.bookOf order.symbol)).length
        ≤ (queue (s.bookOf order.symbol) order.side order.limitCents).length :=
          Greedy.length_fills_le _ _
      _ ≤ (waiting (s.bookOf order.symbol) order.side).length := List.length_filter_le _ _
      _ ≤ s.openOrders.size := length_waiting_le hbooks order.side
  have hroom : s.tradesTotal + (planFills order (s.bookOf order.symbol)).length ≤ u64Max := by
    calc
      s.tradesTotal + (planFills order (s.bookOf order.symbol)).length
        ≤ s.tradesTotal + s.openOrders.size := Nat.add_le_add_left hplan _
      _ ≤ s.lastSeen := hs.counted
      _ ≤ u64Max := hs.lastSeen_le
  have hexecuted : ∀ ledger : Ledger,
      execute order { s.bookAndTrades order.symbol with ledger := ledger } =
        executePlan order order.qtyTenths (planFills order (s.bookOf order.symbol))
          { s.bookAndTrades order.symbol with ledger := ledger } :=
    fun _ => execute_eq_executePlan hlevels hqty.le hroom
  have hreached : ∀ qtyTenths, 0 < qtyTenths →
      ∀ fill ∈ planFills { order with qtyTenths := qtyTenths } (s.bookOf order.symbol),
        ∃ level, (fill.priceCents, level) ∈
            crossing (s.bookOf order.symbol) order.side order.limitCents ∧
          ∃ resting ∈ level, resting.id = fill.makerOrder ∧
            resting.account = fill.makerAccount := by
    intro qtyTenths hsome fill hfill
    exact @exists_of_mem_planFills { order with qtyTenths := qtyTenths } _ hsome.le hpos _ hfill
  constructor
  case available =>
    cases hsome : s.books.get? order.symbol with
    | some book =>
        have hsame : s.bookOf order.symbol = book := by simp [bookOf, SortedMap.getD, hsome]
        rw [hsame] at hpos ⊢
        exact available_iff hqty hmax hpos
    | none =>
        -- A symbol without a book has nothing to plan.
        have hsame : s.bookOf order.symbol = .default := by simp [bookOf, SortedMap.getD, hsome]
        have hnone := available_iff hqty hmax hpos
        rw [hsame] at hnone ⊢
        rw [← hnone]
        cases order.side <;> rfl
  case executed => exact hexecuted
  case listed =>
    intro ledger matched after h
    rw [hexecuted] at h
    exact executePlan_eq_ok hroom h
  case counted =>
    intro limits
    exact congrArg (fun count => count >>= fun _ => pure ())
      (limits.countPositions_eq s.positions hqty.le hpos)
  case preflighted =>
    intro p hremaining
    have hpass := @preflightLevels_eq order s.positions _ _ p le_rfl hlevels
      (hremaining ▸ hqty.le)
    rw [hremaining] at hpass
    exact hpass
  case examined => exact fun _ _ => mem_crossing
  case reached => exact hreached
  case seen =>
    intro qtyTenths hsome fill hfill hown hnone
    obtain ⟨level, hlevel, resting, hresting, -, haccount⟩ := hreached qtyTenths hsome fill hfill
    obtain ⟨hget, hcross⟩ := mem_crossing.1 hlevel
    exact ownOrderInTheWay_eq_none.1 hnone _ _ hget hcross resting hresting (haccount.trans hown)

/-- An order to sell into the bids of the short funded log. -/
def Sample.sellingOrder : IncomingOrder where
  id := 5
  timestamp := 1004
  account := 1
  symbol := "ETH-USDC"
  side := .sell
  limitCents := 9900
  qtyTenths := 10
  orderType := .limit
  timeInForce := .goodTillCancel
  postOnly := false

theorem walks_agree_sample : Sample.fundedState.WalksAgree Sample.sellingOrder :=
  walks_agree (Sample.reaches_fundedState.reachable (.genesis Sample.opening_fundedStart))
    Sample.sellingOrder (by decide) (by decide)

end MatcherState

end Matcher
end VerifiableExchange
