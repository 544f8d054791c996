import VerifiableExchange.Matcher.Apply

/-!
# Fills — a match as a sequence of fills

Both ways to match, fill by fill and as one staged plan, do the same thing: the front order of the
best facing level trades, again and again. `Fills` is that sequence, and every invariant of a match
is proved once about one `FillEvent`.
-/

namespace VerifiableExchange
namespace Matcher

open Lib

/-! ## The facing side of a book -/

/-- No level of this list is empty. -/
def NoEmptyLevel (levels : List (Int × Level)) : Prop := ∀ entry ∈ levels, entry.2 ≠ []

theorem mem_facing {book : Book} {side : Side} {price : Int} {level : Level} :
    (price, level) ∈ facing book side ↔ (book.levels side.opposite).get? price = some level := by
  cases side <;> simp [facing, Book.levels, Side.opposite, SortedMap.mem_entries]

/-- What the facing side becomes when its best level changes. -/
theorem facing_put {book : Book} {side : Side} {price : Int} {level : Level}
    {rest : List (Int × Level)} (h : facing book side = (price, level) :: rest) (level' : Level) :
    facing (book.setLevels side.opposite
        (Levels.put (book.levels side.opposite) price level')) side =
      if level' = [] then rest else (price, level') :: rest := by
  cases side with
  | buy =>
      have h : book.asks.entries = (price, level) :: rest := h
      by_cases hempty : level' = []
      · simpa [facing, Side.opposite, Book.setLevels, Book.levels, Levels.put, hempty] using
          SortedMap.entries_erase_of_head h
      · simpa [facing, Side.opposite, Book.setLevels, Book.levels, Levels.put, hempty] using
          SortedMap.entries_insert_of_head h
  | sell =>
      -- An incoming sell faces the bids from the highest down, so its head is the map's last entry.
      have h : book.bids.entries = rest.reverse ++ [(price, level)] := by
        have hrev := congrArg List.reverse h
        simpa [facing] using hrev
      by_cases hempty : level' = []
      · simp [facing, Side.opposite, Book.setLevels, Book.levels, Levels.put, hempty,
          SortedMap.entries_erase_of_last h]
      · simp [facing, Side.opposite, Book.setLevels, Book.levels, Levels.put, hempty,
          SortedMap.entries_insert_of_last h]

/-- No facing price is better than the best one. -/
theorem crosses_of_facing_head {book : Book} {side : Side} {price q limit : Int}
    {level other : Level} {rest : List (Int × Level)}
    (h : facing book side = (price, level) :: rest)
    (hq : (book.levels side.opposite).get? q = some other) (hcross : crosses side q limit) :
    crosses side price limit := by
  cases side with
  | buy =>
      have hfirst : book.asks.first? = some (price, level) := by
        simpa [facing, SortedMap.first?] using congrArg List.head? h
      exact le_trans (SortedMap.first?_le hfirst hq) hcross
  | sell =>
      have hlast : book.bids.last? = some (price, level) := by
        have hhead := congrArg List.head? h
        simpa [facing, SortedMap.last?] using hhead
      exact le_trans hcross (SortedMap.le_last? hlast hq)

/-! ## One fill -/

/-- One fill: the level it happens at, both positions after it, and the ledger after it. -/
structure FillEvent where
  price : Int
  maker : RestingOrder
  rest : Level
  next : Position × Position
  ledger : Ledger

namespace FillEvent

def qty (e : FillEvent) (remaining : Int) : Int := min remaining e.maker.qtyTenths

def makerLeft (e : FillEvent) (remaining : Int) : Int := e.maker.qtyTenths - e.qty remaining

/-- The fill as it is planned. -/
def planned (e : FillEvent) (remaining : Int) : PlannedFill where
  makerOrder := e.maker.id
  makerAccount := e.maker.account
  priceCents := e.price
  qtyTenths := e.qty remaining

/-- The fill is the next one of this order. -/
structure Enabled (order : IncomingOrder) (remaining : Int) (before : BookAndTrades)
    (e : FillEvent) : Prop where
  wanted : 0 < remaining
  best : ∃ others, facing before.book order.side = (e.price, e.maker :: e.rest) :: others
  cross : crosses order.side e.price order.limitCents
  booked : positionsOf order (e.planned remaining) before.positions = some e.next
  counted : before.tradesTotal + 1 ≤ u64Max
  settled : before.ledger.settleFill e.maker.id order.id e.price (e.qty remaining) = .ok e.ledger

/-- The parts a match writes to, after the fill. -/
def result (order : IncomingOrder) (remaining : Int) (before : BookAndTrades) (e : FillEvent) :
    BookAndTrades where
  book := before.book.setLevels order.side.opposite
    (Levels.put (before.book.levels order.side.opposite) e.price
      (levelAfter e.maker (e.makerLeft remaining) e.rest))
  ledger := e.ledger
  openOrders := indexAfter before.openOrders e.maker.id (e.makerLeft remaining)
  positions := positionsAfter before.positions order (e.planned remaining) e.next.1 e.next.2
  aggregates := before.aggregates.insert order.symbol
    ((before.aggregates.getD order.symbol .default).afterFill (e.planned remaining))
  trades := pushCapped tradeWindow before.trades
    (tradeOf order (e.planned remaining) (before.tradesTotal + 1))
  tradesTotal := before.tradesTotal + 1
  pending := record (record before.pending
      (.traded (tradeOf order (e.planned remaining) (before.tradesTotal + 1))))
    (makerChange e.maker.id (e.makerLeft remaining))

theorem Enabled.level {order : IncomingOrder} {remaining : Int} {before : BookAndTrades}
    {e : FillEvent} (h : e.Enabled order remaining before) :
    (before.book.levels order.side.opposite).get? e.price = some (e.maker :: e.rest) := by
  obtain ⟨others, hbest⟩ := h.best
  exact mem_facing.1 (hbest ▸ List.mem_cons_self)

end FillEvent

/-- A sequence of fills, from a quantity and the parts before it to those after it. -/
inductive Fills (order : IncomingOrder) : Int → BookAndTrades → Int → BookAndTrades → Prop
  | done (remaining : Int) (into : BookAndTrades) : Fills order remaining into remaining into
  | step {remaining left : Int} {before after : BookAndTrades} (e : FillEvent)
      (enabled : e.Enabled order remaining before)
      (later : Fills order (remaining - e.qty remaining) (e.result order remaining before)
        left after) :
      Fills order remaining before left after

/-- A property every fill keeps holds after any number of them. -/
theorem Fills.invariant {order : IncomingOrder} {P : Int → BookAndTrades → Prop}
    (hstep : ∀ remaining before (e : FillEvent), e.Enabled order remaining before →
      P remaining before → P (remaining - e.qty remaining) (e.result order remaining before))
    {remaining left : Int} {before after : BookAndTrades}
    (h : Fills order remaining before left after) (hbefore : P remaining before) :
    P left after := by
  induction h with
  | done => exact hbefore
  | step e enabled _ ih => exact ih (hstep _ _ e enabled hbefore)

/-! ## What committing a fill does -/

theorem plannedMaker_eq_ok {levels : Levels} {fill : PlannedFill} {maker : RestingOrder}
    {rest : Level} (h : plannedMaker levels fill = .ok (maker, rest)) :
    levels.get? fill.priceCents = some (maker :: rest) ∧ maker.id = fill.makerOrder ∧
      maker.account = fill.makerAccount := by
  unfold plannedMaker at h
  split at h
  · cases h
  · cases h
  · rename_i m r hlevel
    split_ifs at h with hid
    cases h
    exact ⟨hlevel, hid⟩

/-- A committed fill at a level whose front order is known. -/
theorem commitFill_eq_ok {order : IncomingOrder} {remaining : Int} {e : FillEvent}
    {tradeId : Nat} {after : BookAndTrades} (into : BookAndTrades)
    (hlevel : (into.book.levels order.side.opposite).get? e.price = some (e.maker :: e.rest))
    (hid : checkedAddU64 into.tradesTotal 1 = some tradeId)
    (h : commitFill order (e.planned remaining) e.next.1 e.next.2 tradeId into = .ok after) :
    after = { e.result order remaining into with ledger := into.ledger } := by
  obtain ⟨hmax, rfl⟩ := checkedAddU64_eq_some.1 hid
  simp only [commitFill, bind_eq_ok, expect_eq_ok, orFail_eq_ok] at h
  obtain ⟨⟨maker, rest⟩, hmaker, makerLeft, hleft, hafter⟩ := h
  obtain ⟨hfront, -, -⟩ := plannedMaker_eq_ok hmaker
  have hsame : e.maker :: e.rest = maker :: rest :=
    Option.some.inj (hlevel.symm.trans hfront)
  obtain ⟨rfl, rfl⟩ := List.cons.inj hsame
  obtain ⟨-, hleft⟩ := checkedSub_eq_some.1 (Option.filter_eq_some_iff.1 hleft).1
  have hleft : makerLeft = e.makerLeft remaining := hleft.symm
  subst hleft
  cases hafter
  simp [FillEvent.result, FillEvent.planned, saturatingAddU64, min_eq_left hmax]

/-! ## Matching fill by fill -/

theorem facing_of_nextFill {order : IncomingOrder} {book : Book} {remaining : Int}
    {fill : PlannedFill} (h : nextFill order book remaining = some fill) :
    ∃ maker rest others,
      facing book order.side = (fill.priceCents, maker :: rest) :: others ∧
        crosses order.side fill.priceCents order.limitCents ∧
        fill = { makerOrder := maker.id, makerAccount := maker.account,
                 priceCents := fill.priceCents, qtyTenths := min remaining maker.qtyTenths } := by
  unfold nextFill at h
  cases hfacing : facing book order.side with
  | nil => simp [hfacing] at h
  | cons entry others =>
      obtain ⟨price, level⟩ := entry
      simp only [hfacing, List.head?_cons] at h
      split_ifs at h with hcross
      cases level with
      | nil => simp at h
      | cons maker rest =>
          simp only [List.head?_cons, Option.map_some, Option.some.injEq] at h
          subst h
          exact ⟨maker, rest, others, rfl, hcross, rfl⟩

/-- Why the loop of a match stops. -/
def Stopped (order : IncomingOrder) (left : Int) (after : BookAndTrades) : Prop :=
  left ≤ 0 ∨ nextFill order after.book left = none

theorem settleAndCommit_eq_ok {order : IncomingOrder} {remaining : Int} {fill : PlannedFill}
    {next : Position × Position} {tradeId : Nat} {into after : BookAndTrades}
    (hwanted : 0 < remaining) (hfill : nextFill order into.book remaining = some fill)
    (hnext : positionsOf order fill into.positions = some next)
    (hid : checkedAddU64 into.tradesTotal 1 = some tradeId)
    (h : settleAndCommit order fill next tradeId into = .ok after) :
    ∃ e : FillEvent, e.Enabled order remaining into ∧ fill = e.planned remaining ∧
      after = e.result order remaining into := by
  obtain ⟨maker, rest, others, hfacing, hcross, hplanned⟩ := facing_of_nextFill hfill
  simp only [settleAndCommit, bind_eq_ok, expect_eq_ok] at h
  obtain ⟨ledger, hledger, hcommit⟩ := h
  let e : FillEvent := ⟨fill.priceCents, maker, rest, next, ledger⟩
  have hfillEq : fill = e.planned remaining := hplanned
  have henabled : e.Enabled order remaining into := {
    wanted := hwanted
    best := ⟨others, hfacing⟩
    cross := hcross
    booked := by rw [← hfillEq]; exact hnext
    counted := (checkedAddU64_eq_some.1 hid).1
    settled := by
      have hmakerOrder : fill.makerOrder = maker.id := by rw [hplanned]
      have hqty : fill.qtyTenths = e.qty remaining := by rw [hplanned]; rfl
      rw [← hqty, ← hmakerOrder]
      exact hledger }
  refine ⟨e, henabled, hfillEq, ?_⟩
  have hlevel := henabled.level
  rw [hfillEq] at hcommit
  have hafter := commitFill_eq_ok (e := e) { into with ledger := ledger }
    hlevel hid hcommit
  rw [hafter]
  rfl

/-- The loop is a sequence of fills. -/
theorem executeLoop_fills {order : IncomingOrder} :
    ∀ (fuel : Nat) (remaining : Int) (into after : BookAndTrades) (matched : Matched),
      executeLoop order fuel remaining into = .ok (matched, after) →
      ∃ left, Fills order remaining into left after ∧
        (matched = .crossed left ∨ (matched = .overflowed left ∧ 0 < left))
  | 0, remaining, into, after, matched, h => by
      cases h
      -- The fuel ran out; executeLoop_stopped shows that it never does.
      exact ⟨remaining, .done _ _, Or.inl rfl⟩
  | fuel + 1, remaining, into, after, matched, h => by
      unfold executeLoop at h
      split_ifs at h with hwanted
      · cases h
        exact ⟨remaining, .done _ _, Or.inl rfl⟩
      split at h
      · cases h
        exact ⟨remaining, .done _ _, Or.inl rfl⟩
      rename_i fill hfill
      split at h
      · rename_i next tradeId hnext hid
        split at h
        · cases h
        · rename_i committed hcommit
          -- A fill that went through is an event, and the rest is the induction.
          obtain ⟨e, henabled, hplanned, hresult⟩ :=
            settleAndCommit_eq_ok (not_le.1 hwanted) hfill hnext hid hcommit
          have hqty : fill.qtyTenths = e.qty remaining := by rw [hplanned]; rfl
          rw [hqty, hresult] at h
          obtain ⟨left, hfills, hmatched⟩ := executeLoop_fills fuel _ _ _ _ h
          exact ⟨left, .step e henabled hfills, hmatched⟩
      · cases h
        exact ⟨remaining, .done _ _, Or.inr ⟨rfl, not_le.1 hwanted⟩⟩

/-! ## The loop runs out of orders before it runs out of rounds -/

/-- What waits behind a used-up maker heads the facing side. -/
theorem FillEvent.facing_result {order : IncomingOrder} {remaining : Int} {before : BookAndTrades}
    {e : FillEvent} {others : List (Int × Level)}
    (hfacing : facing before.book order.side = (e.price, e.maker :: e.rest) :: others)
    (hdone : e.makerLeft remaining = 0) :
    facing (e.result order remaining before).book order.side =
      if e.rest = [] then others else (e.price, e.rest) :: others := by
  have hput := facing_put hfacing e.rest
  simpa [FillEvent.result, levelAfter, hdone] using hput

/-- A side on which nothing rests has no level. -/
theorem facing_eq_nil {book : Book} {side : Side} (hlevels : NoEmptyLevel (facing book side))
    (hcount : restingCount book side = 0) : facing book side = [] := by
  cases hfacing : facing book side with
  | nil => rfl
  | cons entry others =>
      have hpos := List.length_pos_iff.2 (hlevels entry (hfacing ▸ List.mem_cons_self))
      simp only [restingCount, hfacing, List.map_cons, List.sum_cons] at hcount
      omega

theorem FillEvent.Enabled.restingCount_result {order : IncomingOrder} {remaining : Int}
    {before : BookAndTrades} {e : FillEvent} (h : e.Enabled order remaining before)
    (hdone : e.makerLeft remaining = 0) :
    restingCount (e.result order remaining before).book order.side + 1 =
      restingCount before.book order.side := by
  obtain ⟨others, hbest⟩ := h.best
  simp only [restingCount, FillEvent.facing_result hbest hdone, hbest]
  by_cases hempty : e.rest = []
  · simp [hempty, Nat.add_comm]
  · simp only [if_neg hempty, List.map_cons, List.sum_cons, List.length_cons]
    omega

theorem executeLoop_of_nonpos {order : IncomingOrder} {fuel : Nat} {remaining : Int}
    {into : BookAndTrades} (h : remaining ≤ 0) :
    executeLoop order fuel remaining into = .ok (.crossed remaining, into) := by
  cases fuel with
  | zero => rfl
  | succ fuel => simp [executeLoop, h]

/-- A loop with enough rounds stops only when the order is filled or nothing more crosses. -/
theorem executeLoop_stopped {order : IncomingOrder} :
    ∀ (fuel : Nat) (remaining left : Int) (into after : BookAndTrades),
      restingCount into.book order.side < fuel →
      executeLoop order fuel remaining into = .ok (.crossed left, after) →
      Stopped order left after
  | 0, _, _, _, _, hfuel, _ => absurd hfuel (Nat.not_lt_zero _)
  | fuel + 1, remaining, left, into, after, hfuel, h => by
      unfold executeLoop at h
      split_ifs at h with hwanted
      · cases h
        exact Or.inl hwanted
      split at h
      · rename_i hnone
        cases h
        exact Or.inr hnone
      rename_i fill hfill
      split at h
      · rename_i next tradeId hnext hid
        split at h
        · cases h
        · rename_i committed hcommit
          obtain ⟨e, henabled, hplanned, hresult⟩ :=
            settleAndCommit_eq_ok (not_le.1 hwanted) hfill hnext hid hcommit
          have hqty : fill.qtyTenths = e.qty remaining := by rw [hplanned]; rfl
          by_cases hdone : e.makerLeft remaining = 0
          · have hcount := henabled.restingCount_result hdone
            refine executeLoop_stopped fuel _ _ _ _ ?_ h
            rw [hresult]
            omega
          · -- A maker that is left with quantity gave the order all it wanted.
            have hfilled : remaining - fill.qtyTenths ≤ 0 := by
              rw [hqty]
              simp only [FillEvent.makerLeft, FillEvent.qty] at hdone ⊢
              omega
            rw [executeLoop_of_nonpos hfilled] at h
            cases h
            exact Or.inl hfilled
      · cases h

/-- What the loop of a non-fill-or-kill order does. -/
theorem execute_fills {order : IncomingOrder} {into after : BookAndTrades} {matched : Matched}
    (h : execute order into = .ok (matched, after)) :
    ∃ left, Fills order order.qtyTenths into left after ∧
      ((matched = .crossed left ∧ Stopped order left after) ∨
        (matched = .overflowed left ∧ 0 < left)) := by
  obtain ⟨left, hfills, hmatched⟩ := executeLoop_fills _ _ _ _ _ h
  refine ⟨left, hfills, ?_⟩
  rcases hmatched with hcrossed | hoverflowed
  · subst hcrossed
    exact Or.inl ⟨rfl, executeLoop_stopped _ _ _ _ _ (Nat.lt_succ_self _) h⟩
  · exact Or.inr hoverflowed

/-! ## Matching a staged plan -/

/-- The fill the plan starts with, at a level whose front order is known. -/
def frontFill (price : Int) (maker : RestingOrder) (remaining : Int) : PlannedFill where
  makerOrder := maker.id
  makerAccount := maker.account
  priceCents := price
  qtyTenths := min remaining maker.qtyTenths

/-- The plan walks the best level order by order. -/
theorem planLevels_cons {order : IncomingOrder} {remaining price : Int} {maker : RestingOrder}
    {rest : Level} {others : List (Int × Level)} (hcross : crosses order.side price order.limitCents)
    (hwanted : remaining ≠ 0) :
    planLevels order remaining ((price, maker :: rest) :: others) =
      frontFill price maker remaining ::
        (if 0 < remaining - min remaining maker.qtyTenths then
          planLevels order (remaining - min remaining maker.qtyTenths)
            (if rest = [] then others else (price, rest) :: others)
        else []) := by
  simp only [planLevels, planLevel, frontFill, hcross, hwanted, not_true_eq_false, or_self,
    if_false]
  generalize remaining - min remaining maker.qtyTenths = left
  by_cases hleft : 0 < left
  · by_cases hrest : rest = []
    · simp [planLevel, hleft, hrest]
    · have hne : left ≠ 0 := ne_of_gt hleft
      simp only [planLevels, hcross, hleft, hrest, hne, not_true_eq_false, or_self, if_true,
        if_false, List.cons_append]
      split_ifs <;> rfl
  · simp [hleft]

theorem accountKey_inj {a b : AccountId} {name : String} :
    Ledger.accountKey a name = Ledger.accountKey b name ↔ a = b := by
  simp [Ledger.accountKey]

/-- Both accounts' positions after a fill; an account that is both has the taker's. -/
theorem getD_positionsAfter (positions : SortedMap AccountKey Position) (order : IncomingOrder)
    (fill : PlannedFill) (makerNext takerNext : Position) (account : AccountId) :
    (positionsAfter positions order fill makerNext takerNext).getD
        (Ledger.accountKey account order.symbol) .default =
      if account = order.account then takerNext
      else if account = fill.makerAccount then makerNext
      else positions.getD (Ledger.accountKey account order.symbol) .default := by
  unfold positionsAfter
  rw [SortedMap.getD_insert]
  simp only [accountKey_inj]
  split_ifs with htaker hsame hmaker hmaker
  · rfl
  · rw [SortedMap.getD_insert, if_pos (by rw [hmaker])]
  · rw [SortedMap.getD_insert, if_neg (fun hkey => hmaker (accountKey_inj.1 hkey))]
  · exact absurd (hmaker.trans (not_not.1 hsame)) htaker
  · rfl

/-- The staged positions stay those a committed fill leaves. -/
theorem stagedPosition_after {order : IncomingOrder} {positions live : SortedMap AccountKey Position}
    {staged : SortedMap AccountId Position} {next : Position × Position}
    (h : ∀ account, stagedPosition positions order.symbol staged account =
      live.getD (Ledger.accountKey account order.symbol) .default) (fill : PlannedFill)
    (account : AccountId) :
    stagedPosition positions order.symbol
        ((staged.insert fill.makerAccount next.1).insert order.account next.2) account =
      (positionsAfter live order fill next.1 next.2).getD
        (Ledger.accountKey account order.symbol) .default := by
  rw [getD_positionsAfter, ← h account]
  unfold stagedPosition
  rw [SortedMap.get?_insert, SortedMap.get?_insert]
  split_ifs <;> rfl

/-- A plan that walks a book without empty levels is committed as a sequence of fills. -/
theorem commitPlanned_fills {order : IncomingOrder} {positions : SortedMap AccountKey Position}
    {ledger : Ledger} :
    ∀ (n : Nat) {remaining : Int} {into after : BookAndTrades} {staged : SortedMap AccountId Position}
      {fills : List PlannedFill} {next : List (Position × Position)},
      restingCount into.book order.side ≤ n →
      NoEmptyLevel (facing into.book order.side) →
      0 < remaining →
      fills = planLevels order remaining (facing into.book order.side) →
      (∀ account, stagedPosition positions order.symbol staged account =
        into.positions.getD (Ledger.accountKey account order.symbol) .default) →
      stagePositions order positions staged fills = some next →
      fills.foldlM (fun (staged : Ledger) fill =>
        staged.settleFill fill.makerOrder order.id fill.priceCents fill.qtyTenths)
        into.ledger = .ok ledger →
      commitPlanned order (fills.zip next) { into with ledger := ledger } = .ok after →
      Fills order remaining into (remaining - (fills.map PlannedFill.qtyTenths).sum) after := by
  intro n
  induction n with
  | zero =>
      intro remaining into after staged fills next hcount hlevels hwanted hfills _ _ hledger hcommit
      -- Nothing rests on the facing side, so there is no level and nothing is planned.
      rw [facing_eq_nil hlevels (Nat.le_zero.1 hcount)] at hfills
      subst hfills
      cases hledger
      cases hcommit
      simpa [planLevels] using Fills.done remaining into
  | succ n ih =>
      intro remaining into after staged fills next hcount hlevels hwanted hfills hstaged hnext hledger
        hcommit
      cases hfacing : facing into.book order.side with
      | nil =>
          rw [hfacing] at hfills
          subst hfills
          cases hledger
          cases hcommit
          simpa [planLevels] using Fills.done remaining into
      | cons entry others =>
          obtain ⟨price, level⟩ := entry
          by_cases hcross : crosses order.side price order.limitCents
          swap
          · have hnil : fills = [] := by simp [hfills, hfacing, planLevels, hcross]
            subst hnil
            cases hledger
            cases hcommit
            simpa using Fills.done remaining into
          cases level with
          | nil => exact absurd rfl (hlevels (price, []) (hfacing ▸ List.mem_cons_self))
          | cons maker rest =>
              rw [hfacing, planLevels_cons hcross (ne_of_gt hwanted)] at hfills
              subst hfills
              simp only [stagePositions, Option.bind_eq_bind, Option.bind_eq_some_iff,
                Option.pure_def, Option.some.injEq] at hnext
              obtain ⟨first, hfirst, later, hlater, rfl⟩ := hnext
              rw [List.foldlM_cons] at hledger
              obtain ⟨ledger₁, hsettle, hledger⟩ := bind_eq_ok.1 hledger
              simp only [List.zip_cons_cons, commitPlanned] at hcommit
              split at hcommit
              · cases hcommit
              rename_i tradeId hid
              split at hcommit
              · cases hcommit
              rename_i committed hcommitted
              let e : FillEvent := ⟨price, maker, rest, first, ledger₁⟩
              have henabled : e.Enabled order remaining into := {
                wanted := hwanted
                best := ⟨others, hfacing⟩
                cross := hcross
                booked := by
                  rw [hstaged, hstaged] at hfirst
                  exact hfirst
                counted := (checkedAddU64_eq_some.1 hid).1
                settled := hsettle }
              have hcommitted := commitFill_eq_ok (e := e) { into with ledger := ledger }
                henabled.level hid hcommitted
              have hcommitted : committed =
                  { e.result order remaining into with ledger := ledger } := by
                rw [hcommitted]
                rfl
              subst hcommitted
              refine Fills.step e henabled ?_
              have hsum : ∀ tail : List PlannedFill,
                  remaining - ((frontFill price maker remaining :: tail).map
                    PlannedFill.qtyTenths).sum =
                    remaining - e.qty remaining - (tail.map PlannedFill.qtyTenths).sum := by
                intro tail
                simp only [List.map_cons, List.sum_cons, frontFill, FillEvent.qty, e]
                omega
              rw [hsum]
              by_cases hleft : 0 < remaining - min remaining maker.qtyTenths
              · -- The maker is used up, so the walk goes on at what is behind it.
                rw [if_pos hleft] at hlater hledger hcommit ⊢
                have hdone : e.makerLeft remaining = 0 := by
                  simp only [FillEvent.makerLeft, FillEvent.qty, e]
                  omega
                have hfacing' : facing (e.result order remaining into).book order.side =
                    if rest = [] then others else (price, rest) :: others :=
                  FillEvent.facing_result hfacing hdone
                refine ih ?_ ?_ hleft ?_ ?_ hlater hledger hcommit
                · have hrounds := henabled.restingCount_result hdone
                  omega
                · intro entry hentry
                  rw [hfacing'] at hentry
                  split_ifs at hentry with hrest
                  · exact hlevels entry (hfacing ▸ List.mem_cons_of_mem _ hentry)
                  · rcases List.mem_cons.1 hentry with rfl | hentry
                    · exact hrest
                    · exact hlevels entry (hfacing ▸ List.mem_cons_of_mem _ hentry)
                · exact (congrArg (planLevels order _) hfacing').symm
                · exact stagedPosition_after hstaged (e.planned remaining)
              · rw [if_neg hleft] at hlater hledger hcommit ⊢
                cases hlater
                cases hledger
                cases hcommit
                simp only [List.map_nil, List.sum_nil, sub_zero]
                exact Fills.done (remaining - e.qty remaining) (e.result order remaining into)

/-- What a staged fill-or-kill order does: the whole quantity, fill by fill, on the funds it
reserved. -/
theorem executeFok_fills {order : IncomingOrder} {into after : BookAndTrades} {plan : FokPlan}
    {ledger : Ledger} {matched : Matched} (hqty : 0 < order.qtyTenths)
    (hlevels : NoEmptyLevel (facing into.book order.side))
    (hplan : stageFok order into.book into.positions into.tradesTotal = .ok plan)
    (hledger : stageFokLedger order plan into.ledger = .ok ledger)
    (h : executeFok order plan { into with ledger := ledger } = .ok (matched, after)) :
    ∃ reserved, into.ledger.reserve order.id order.account order.symbol order.side
        order.limitCents order.qtyTenths = .ok reserved ∧
      Fills order order.qtyTenths { into with ledger := reserved } 0 after ∧
      matched = .crossed 0 := by
  simp only [stageFok, bind_eq_ok, orFail_eq_ok, require_eq_ok] at hplan
  obtain ⟨_, hsum, _, _, next, hnext, hplan⟩ := hplan
  cases hplan
  simp only [stageFokLedger, bind_eq_ok, orFail_eq_ok] at hledger
  obtain ⟨reserved, hreserved, hledger⟩ := hledger
  simp only [executeFok, bind_eq_ok] at h
  obtain ⟨committed, hcommit, h⟩ := h
  cases h
  refine ⟨reserved, toOption_eq_some.1 hreserved, ?_, rfl⟩
  -- The staging map is empty at first, so it reads the positions themselves.
  have hstaged : ∀ account, stagedPosition into.positions order.symbol .empty account =
      into.positions.getD (Ledger.accountKey account order.symbol) .default :=
    fun account => by simp [stagedPosition]
  have hfills : Fills order order.qtyTenths { into with ledger := reserved }
      (order.qtyTenths - ((planFills order into.book).map PlannedFill.qtyTenths).sum) after :=
    commitPlanned_fills _ le_rfl hlevels hqty rfl hstaged hnext (toOption_eq_some.1 hledger) hcommit
  rwa [hsum, sub_self] at hfills

end Matcher
end VerifiableExchange
