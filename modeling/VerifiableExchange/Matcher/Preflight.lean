import VerifiableExchange.Matcher.Funded

/-!
# Preflight — what was checked on copies runs to its end

A funded order is run on copies of the ledger and the positions before its first effect, or staged
as a whole plan. The match itself meets the same orders at the same prices with the same balances,
so nothing it does can fail.
-/

namespace VerifiableExchange
namespace Matcher

open Lib

/-! ## Committing a fill of the front order -/

/-- A fill that takes no more than the front order has can be committed. -/
theorem exists_commitFill {order : IncomingOrder} {remaining price : Int} {maker : RestingOrder}
    {rest : Level} (into : BookAndTrades)
    (hlevel : (into.book.levels order.side.opposite).get? price = some (maker :: rest))
    (hwanted : 0 < remaining) (hmaker : 0 < maker.qtyTenths ∧ maker.qtyTenths ≤ maxGridUnits)
    (next : Position × Position) (tradeId : Nat) :
    ∃ after, commitFill order (frontFill price maker remaining) next.1 next.2 tradeId into =
      .ok after := by
  have hfront : plannedMaker (into.book.levels order.side.opposite) (frontFill price maker remaining) =
      .ok (maker, rest) := by
    simp [plannedMaker, frontFill, hlevel]
  have hmax : maxGridUnits ≤ i64Max := by decide
  have hleft : checkedSub maker.qtyTenths (min remaining maker.qtyTenths) =
      some (maker.qtyTenths - min remaining maker.qtyTenths) :=
    checkedSub_eq_some.2 ⟨⟨by simp only [i64Min]; omega, by omega⟩, rfl⟩
  have hkept : (checkedSub maker.qtyTenths (min remaining maker.qtyTenths)).filter
      (fun left => 0 ≤ left) = some (maker.qtyTenths - min remaining maker.qtyTenths) :=
    Option.filter_eq_some_iff.2 ⟨hleft, by simp⟩
  simp only [commitFill, bind_eq_ok, expect_eq_ok, orFail_eq_ok]
  exact ⟨_, (maker, rest), hfront, _, hkept, rfl⟩

/-- The orders of the best level are sound. -/
theorem MatchInv.front {symbols : SymbolRegistry} {last : OrderId} {books : Books}
    {order : IncomingOrder} {remaining price : Int} {into : BookAndTrades} {maker : RestingOrder}
    {rest : Level} {others : List (Int × Level)}
    (h : MatchInv symbols last books order remaining into)
    (hfacing : facing into.book order.side = (price, maker :: rest) :: others) :
    0 < maker.qtyTenths ∧ maker.qtyTenths ≤ maxGridUnits := by
  have hlevel : levelAt (books.insert order.symbol into.book) order.symbol order.side.opposite
      price = some (maker :: rest) :=
    levelAt_eq_some.2 ⟨into.book, by simp, mem_facing.1 (hfacing ▸ List.mem_cons_self)⟩
  have hsound := h.books.sound hlevel maker List.mem_cons_self
  exact ⟨hsound.qty_pos, hsound.qty_le⟩

theorem MatchInv.noEmptyLevel {symbols : SymbolRegistry} {last : OrderId} {books : Books}
    {order : IncomingOrder} {remaining : Int} {into : BookAndTrades}
    (h : MatchInv symbols last books order remaining into) :
    NoEmptyLevel (facing into.book order.side) := by
  have hall := h.books.noEmptyLevel order.symbol order.side
  simpa [SortedMap.getD] using hall

/-! ## The copies mirror the match -/

/-- An account's position in the order's symbol on the projected copy. -/
def projectedPosition (order : IncomingOrder) (positions projected : SortedMap AccountKey Position)
    (account : AccountId) : Position :=
  (projected.get? (Ledger.accountKey account order.symbol)).getD
    (positions.getD (Ledger.accountKey account order.symbol) .default)

theorem projectLeg_eq_ok {order : IncomingOrder}
    {positions projected projected' : SortedMap AccountKey Position} {account : AccountId}
    {side : Side} {fill price : Int}
    (h : projectLeg order positions projected account side fill price = .ok projected') :
    ∃ after, (projectedPosition order positions projected account).afterFill side fill price =
        some after ∧
      projected' = projected.insert (Ledger.accountKey account order.symbol) after := by
  simp only [projectLeg, bind_eq_ok, orFail_eq_ok] at h
  obtain ⟨after, hafter, h⟩ := h
  cases h
  exact ⟨after, hafter, rfl⟩

theorem projectedPosition_insert (order : IncomingOrder)
    (positions projected : SortedMap AccountKey Position) (account other : AccountId)
    (p : Position) :
    projectedPosition order positions
        (projected.insert (Ledger.accountKey account order.symbol) p) other =
      if other = account then p else projectedPosition order positions projected other := by
  unfold projectedPosition
  rw [SortedMap.get?_insert]
  simp only [accountKey_inj]
  split_ifs <;> rfl

/-- The copies hold what the match itself has reached. -/
structure Mirrors (order : IncomingOrder) (positions : SortedMap AccountKey Position)
    (p : Preflight) (remaining : Int) (into : BookAndTrades) : Prop where
  staged : p.staged = into.ledger
  remaining_eq : p.remaining = remaining
  nextTrade : p.nextTrade = into.tradesTotal
  projected : ∀ account, projectedPosition order positions p.projected account =
    into.positions.getD (Ledger.accountKey account order.symbol) .default

/-- What the copies accept, the match can do. -/
theorem Mirrors.fill {symbols : SymbolRegistry} {last : OrderId} {books : Books}
    {order : IncomingOrder} {positions : SortedMap AccountKey Position} {p p' : Preflight}
    {remaining price : Int} {into : BookAndTrades} {maker : RestingOrder} {rest : Level}
    {others : List (Int × Level)} (h : Mirrors order positions p remaining into)
    (hbooks : MatchInv symbols last books order remaining into) (hwanted : 0 < remaining)
    (hfacing : facing into.book order.side = (price, maker :: rest) :: others)
    (hcross : crosses order.side price order.limitCents)
    (hfill : preflightFill order positions price p maker = .ok p') :
    ∃ e : FillEvent, e.price = price ∧ e.maker = maker ∧ e.rest = rest ∧
      e.Enabled order remaining into ∧
      settleAndCommit order (e.planned remaining) e.next (into.tradesTotal + 1) into =
        .ok (e.result order remaining into) ∧
      Mirrors order positions p' (remaining - e.qty remaining) (e.result order remaining into) := by
  simp only [preflightFill, bind_eq_ok, orFail_eq_ok, toOption_eq_some] at hfill
  obtain ⟨nextTrade, hnextTrade, first, hfirst, both, hboth, staged, hstaged, hfill⟩ := hfill
  cases hfill
  obtain ⟨makerNext, hmakerNext, rfl⟩ := projectLeg_eq_ok hfirst
  obtain ⟨takerNext, htakerNext, rfl⟩ := projectLeg_eq_ok hboth
  rw [h.nextTrade] at hnextTrade
  rw [h.remaining_eq] at hmakerNext htakerNext hstaged
  rw [h.staged] at hstaged
  rw [h.projected] at hmakerNext
  rw [projectedPosition_insert, h.projected] at htakerNext
  obtain ⟨hroom, rfl⟩ := checkedAddU64_eq_some.1 hnextTrade
  -- The projected positions are what the fill would store.
  have hbooked : positionsOf order (frontFill price maker remaining) into.positions =
      some (makerNext, takerNext) := by
    have hsame : order.account = maker.account ↔ decide (maker.account = order.account) = true := by
      rw [decide_eq_true_eq]
      exact eq_comm
    simp only [hsame] at htakerNext
    simp only [positionsOf, Position.afterBothFills, Option.bind_eq_bind, Option.bind_eq_some_iff,
      Option.pure_def]
    exact ⟨makerNext, hmakerNext, takerNext, htakerNext, rfl⟩
  let e : FillEvent := ⟨price, maker, rest, (makerNext, takerNext), staged⟩
  have henabled : e.Enabled order remaining into := {
    wanted := hwanted
    best := ⟨others, hfacing⟩
    cross := hcross
    booked := hbooked
    counted := hroom
    settled := hstaged }
  obtain ⟨after, hcommit⟩ := exists_commitFill { into with ledger := staged }
    henabled.level hwanted (hbooks.front hfacing) (makerNext, takerNext) (into.tradesTotal + 1)
  have hafter : after = e.result order remaining into :=
    commitFill_eq_ok (e := e) { into with ledger := staged } henabled.level hnextTrade hcommit
  refine ⟨e, rfl, rfl, rfl, henabled, ?_, ?_⟩
  · simp only [settleAndCommit, bind_eq_ok, expect_eq_ok]
    exact ⟨staged, hstaged, hafter ▸ hcommit⟩
  · refine ⟨rfl, ?_, rfl, ?_⟩
    · -- The preflight goes on with the quantity the match goes on with.
      show p.remaining - min p.remaining maker.qtyTenths = remaining - e.qty remaining
      rw [h.remaining_eq]
      rfl
    · intro account
      show projectedPosition order positions _ account =
        (positionsAfter into.positions order (e.planned remaining) makerNext takerNext).getD _ _
      rw [projectedPosition_insert, projectedPosition_insert, h.projected, getD_positionsAfter]
      rfl

/-- The preflight walks the best level order by order. -/
theorem preflightLevels_cons {order : IncomingOrder} {positions : SortedMap AccountKey Position}
    {p : Preflight} {price : Int} {maker : RestingOrder} {rest : Level}
    {others : List (Int × Level)} (hcross : crosses order.side price order.limitCents)
    (hwanted : p.remaining ≠ 0) :
    preflightLevels order positions p ((price, maker :: rest) :: others) =
      match preflightFill order positions price p maker with
      | .error why => .error why
      | .ok p =>
          if p.remaining = 0 then .ok p
          else preflightLevels order positions p
            (if rest = [] then others else (price, rest) :: others) := by
  simp only [preflightLevels, preflightLevel, hcross, hwanted, not_true_eq_false, or_self, if_false]
  cases preflightFill order positions price p maker with
  | error why => rfl
  | ok p' =>
      by_cases hdone : p'.remaining = 0
      · simp only [hdone, if_true]
        cases others with
        | nil => rfl
        | cons entry others => simp only [preflightLevels, hdone, true_or, if_true]
      · by_cases hrest : rest = []
        · simp [hdone, hrest, preflightLevel]
        · simp only [hdone, hrest, if_false, preflightLevels, hcross, not_true_eq_false, or_self]

theorem preflightLevels_of_done {order : IncomingOrder} {positions : SortedMap AccountKey Position}
    {p : Preflight} (h : p.remaining = 0) (levels : List (Int × Level)) :
    preflightLevels order positions p levels = .ok p := by
  cases levels with
  | nil => rfl
  | cons entry others => simp only [preflightLevels, h, true_or, if_true]

/-- A match the copies accepted runs until the order is filled or nothing more crosses, and ends
where the copies ended. -/
theorem exists_executeLoop {symbols : SymbolRegistry} {last : OrderId} {books : Books}
    {order : IncomingOrder} {positions : SortedMap AccountKey Position} {p' : Preflight} :
    ∀ (fuel : Nat) {remaining : Int} {into : BookAndTrades} {p : Preflight},
      restingCount into.book order.side < fuel →
      MatchInv symbols last books order remaining into →
      Mirrors order positions p remaining into →
      preflightLevels order positions p (facing into.book order.side) = .ok p' →
      ∃ left after, executeLoop order fuel remaining into = .ok (.crossed left, after) ∧
        Mirrors order positions p' left after := by
  intro fuel
  induction fuel with
  | zero => exact fun hfuel => absurd hfuel (Nat.not_lt_zero _)
  | succ fuel ih =>
      intro remaining into p hfuel hbooks hmirrors hpreflight
      have hremaining := hmirrors.remaining_eq
      by_cases hwanted : remaining ≤ 0
      · have hzero : p.remaining = 0 := by
          rw [hremaining]
          exact le_antisymm hwanted hbooks.remaining_nonneg
        rw [preflightLevels_of_done hzero] at hpreflight
        cases hpreflight
        exact ⟨remaining, into, executeLoop_of_nonpos hwanted, hmirrors⟩
      have hpos : 0 < remaining := not_le.1 hwanted
      have hne : p.remaining ≠ 0 := hremaining ▸ ne_of_gt hpos
      unfold executeLoop
      rw [if_neg hwanted]
      cases hfacing : facing into.book order.side with
      | nil =>
          rw [hfacing] at hpreflight
          cases hpreflight
          exact ⟨remaining, into, by simp [nextFill, hfacing], hmirrors⟩
      | cons entry others =>
          obtain ⟨price, level⟩ := entry
          rw [hfacing] at hpreflight
          -- The walk of the preflight stops at the same level as the match.
          by_cases hcross : crosses order.side price order.limitCents
          swap
          · simp only [preflightLevels, hcross, not_false_eq_true, or_true, if_true] at hpreflight
            cases hpreflight
            exact ⟨remaining, into, by simp [nextFill, hfacing, hcross], hmirrors⟩
          cases level with
          | nil => exact absurd rfl (hbooks.noEmptyLevel (price, []) (hfacing ▸ List.mem_cons_self))
          | cons maker rest =>
              rw [preflightLevels_cons hcross hne] at hpreflight
              cases hfill : preflightFill order positions price p maker with
              | error why =>
                  rw [hfill] at hpreflight
                  cases hpreflight
              | ok p₁ =>
                  rw [hfill] at hpreflight
                  -- The preflight took this maker, so the match can.
                  obtain ⟨e, rfl, rfl, rfl, henabled, hcommit, hmirrors₁⟩ :=
                    hmirrors.fill hbooks hpos hfacing hcross hfill
                  have hnext : nextFill order into.book remaining = some (e.planned remaining) := by
                    simp only [nextFill, hfacing, List.head?_cons, hcross, if_true, Option.map_some]
                    rfl
                  have hid : checkedAddU64 into.tradesTotal 1 = some (into.tradesTotal + 1) :=
                    checkedAddU64_eq_some.2 ⟨henabled.counted, rfl⟩
                  simp only [hnext, henabled.booked, hid, hcommit]
                  have hbooks₁ := hbooks.fill henabled
                  have hleft : remaining - (e.planned remaining).qtyTenths = p₁.remaining :=
                    hmirrors₁.remaining_eq.symm
                  by_cases hdone : p₁.remaining = 0
                  · simp only [if_pos hdone] at hpreflight
                    cases hpreflight
                    refine ⟨_, _, executeLoop_of_nonpos ?_, hmirrors₁⟩
                    exact (hleft.trans hdone).le
                  · -- The maker is used up, so the walk goes on at what is behind it.
                    simp only [if_neg hdone] at hpreflight
                    have hclosed : e.makerLeft remaining = 0 := by
                      have hqty := hmirrors₁.remaining_eq
                      simp only [FillEvent.makerLeft, FillEvent.qty] at hqty ⊢
                      omega
                    have hfacing₁ : facing (e.result order remaining into).book order.side =
                        if e.rest = [] then others else (e.price, e.rest) :: others :=
                      FillEvent.facing_result hfacing hclosed
                    have hrounds := henabled.restingCount_result hclosed
                    exact ih (by omega) hbooks₁ hmirrors₁ (hfacing₁ ▸ hpreflight)

/-! ## A staged plan -/

/-- A plan whose positions and funds were staged can be committed from its first fill to its last. -/
theorem exists_commitPlanned {symbols : SymbolRegistry} {last : OrderId} {books : Books}
    {order : IncomingOrder} {positions : SortedMap AccountKey Position} {ledger : Ledger} :
    ∀ (n : Nat) {remaining : Int} {into : BookAndTrades} {staged : SortedMap AccountId Position}
      {fills : List PlannedFill} {next : List (Position × Position)},
      restingCount into.book order.side ≤ n →
      MatchInv symbols last books order remaining into →
      0 < remaining →
      fills = planLevels order remaining (facing into.book order.side) →
      (∀ account, stagedPosition positions order.symbol staged account =
        into.positions.getD (Ledger.accountKey account order.symbol) .default) →
      stagePositions order positions staged fills = some next →
      into.tradesTotal + fills.length ≤ u64Max →
      fills.foldlM (fun (staged : Ledger) fill =>
        staged.settleFill fill.makerOrder order.id fill.priceCents fill.qtyTenths)
        into.ledger = .ok ledger →
      ∃ after, commitPlanned order (fills.zip next) { into with ledger := ledger } = .ok after := by
  intro n
  induction n with
  | zero =>
      intro remaining into staged fills next hcount hbooks hwanted hfills _ _ _ hledger
      rw [facing_eq_nil hbooks.noEmptyLevel (Nat.le_zero.1 hcount)] at hfills
      subst hfills
      exact ⟨_, rfl⟩
  | succ n ih =>
      intro remaining into staged fills next hcount hbooks hwanted hfills hstaged hnext hroom hledger
      cases hfacing : facing into.book order.side with
      | nil =>
          rw [hfacing] at hfills
          subst hfills
          exact ⟨_, rfl⟩
      | cons entry others =>
          obtain ⟨price, level⟩ := entry
          by_cases hcross : crosses order.side price order.limitCents
          swap
          · have hnil : fills = [] := by simp [hfills, hfacing, planLevels, hcross]
            subst hnil
            exact ⟨_, rfl⟩
          cases level with
          | nil => exact absurd rfl (hbooks.noEmptyLevel (price, []) (hfacing ▸ List.mem_cons_self))
          | cons maker rest =>
              rw [hfacing, planLevels_cons hcross (ne_of_gt hwanted)] at hfills
              subst hfills
              simp only [stagePositions, Option.bind_eq_bind, Option.bind_eq_some_iff,
                Option.pure_def, Option.some.injEq] at hnext
              -- The head of the plan, and the plan behind it.
              obtain ⟨first, hfirst, later, hlater, rfl⟩ := hnext
              rw [List.foldlM_cons] at hledger
              obtain ⟨ledger₁, hsettle, hledger⟩ := bind_eq_ok.1 hledger
              rw [List.length_cons] at hroom
              have hid : checkedAddU64 into.tradesTotal 1 = some (into.tradesTotal + 1) :=
                checkedAddU64_eq_some.2 ⟨by omega, rfl⟩
              let e : FillEvent := ⟨price, maker, rest, first, ledger₁⟩
              have henabled : e.Enabled order remaining into := {
                wanted := hwanted
                best := ⟨others, hfacing⟩
                cross := hcross
                booked := by
                  rw [hstaged, hstaged] at hfirst
                  exact hfirst
                counted := (checkedAddU64_eq_some.1 hid).1
                settled := hsettle }
              obtain ⟨committed, hcommit⟩ : ∃ after,
                  commitFill order (frontFill price maker remaining) first.1 first.2
                    (into.tradesTotal + 1) { into with ledger := ledger } = .ok after :=
                exists_commitFill { into with ledger := ledger } henabled.level hwanted
                  (hbooks.front hfacing) first _
              have hcommitted : committed =
                  { e.result order remaining into with ledger := ledger } :=
                commitFill_eq_ok (e := e) { into with ledger := ledger } henabled.level hid hcommit
              subst hcommitted
              simp only [List.zip_cons_cons, commitPlanned, hid, hcommit]
              by_cases hleft : 0 < remaining - min remaining maker.qtyTenths
              · -- The maker is used up, so the walk goes on at what is behind it.
                rw [if_pos hleft] at hlater hledger hroom ⊢
                have hdone : e.makerLeft remaining = 0 := by
                  simp only [FillEvent.makerLeft, FillEvent.qty, e]
                  omega
                have hfacing' : facing (e.result order remaining into).book order.side =
                    if rest = [] then others else (price, rest) :: others :=
                  FillEvent.facing_result hfacing hdone
                have hrounds := henabled.restingCount_result hdone
                refine ih (by omega) (hbooks.fill henabled) hleft ?_ ?_ hlater ?_ hledger
                · exact (congrArg (planLevels order _) hfacing').symm
                · exact stagedPosition_after hstaged (e.planned remaining)
                · show into.tradesTotal + 1 + _ ≤ u64Max
                  omega
              · rw [if_neg hleft] at hlater ⊢
                -- The order is filled, so the plan ends here.
                cases hlater
                exact ⟨_, rfl⟩

/-! ## The match of a funded order -/

namespace MatcherState

/-- The match of an accepted funded order runs until it is filled or nothing more crosses. -/
theorem FundedInv.exists_runMatch {config : FundingConfig} {s : MatcherState}
    (h : s.FundedInv config) (hs : s.WellFormed) {m : NewMessage} {order : IncomingOrder}
    (haccepted : s.Accepted m order) {staged : Option (FokPlan × Ledger)}
    (hstage : stage order (s.bookAndTrades order.symbol) = .ok staged) :
    ∃ left after, runMatch order staged (s.bookAndTrades order.symbol) =
      .ok (.crossed left, after) := by
  unfold stage at hstage
  split at hstage
  · simp only [bind_eq_ok] at hstage
    obtain ⟨plan, hplan, ledger, hledger, hstage⟩ := hstage
    cases hstage
    simp only [stageFok, bind_eq_ok, orFail_eq_ok, require_eq_ok] at hplan
    obtain ⟨_, -, _, hroom, next, hnext, hplan⟩ := hplan
    cases hplan
    simp only [stageFokLedger, bind_eq_ok, orFail_eq_ok, toOption_eq_some] at hledger
    obtain ⟨reserved, -, hledger⟩ := hledger
    have hstaged : ∀ account, stagedPosition s.positions order.symbol .empty account =
        s.positions.getD (Ledger.accountKey account order.symbol) .default :=
      fun account => by simp [stagedPosition]
    have hbooks : MatchInv s.symbols s.lastSeen s.books order order.qtyTenths
        { s.bookAndTrades order.symbol with ledger := reserved } := hs.matchInv haccepted
    obtain ⟨after, hcommit⟩ := exists_commitPlanned _ le_rfl hbooks haccepted.qty_range.1 rfl hstaged
      hnext (checkedAddU64_eq_some.1 hroom).1 hledger
    refine ⟨0, after, ?_⟩
    simp only [runMatch, executeFok, bind_eq_ok]
    exact ⟨after, hcommit, rfl⟩
  · simp only [bind_eq_ok] at hstage
    obtain ⟨_, hpreflight, hstage⟩ := hstage
    cases hstage
    have hfunded : (s.bookAndTrades order.symbol).ledger.isFunded = true := h.conserving.isFunded
    simp only [preflight, hfunded, Bool.not_true, Bool.false_eq_true, if_false, bind_eq_ok,
      orFail_eq_ok, toOption_eq_some] at hpreflight
    obtain ⟨reserved, hreserved, p, hlevels, -⟩ := hpreflight
    have hmirrors : Mirrors order s.positions
        { staged := reserved, projected := .empty, remaining := order.qtyTenths,
          nextTrade := s.tradesTotal } order.qtyTenths
        { s.bookAndTrades order.symbol with ledger := reserved } :=
      ⟨rfl, rfl, rfl, fun account => by simp [projectedPosition, bookAndTrades]⟩
    obtain ⟨left, after, hloop, -⟩ := exists_executeLoop _ (Nat.lt_succ_self _)
      (hs.matchInv haccepted) hmirrors hlevels
    refine ⟨left, after, ?_⟩
    simp only [runMatch, bind_eq_ok, expect_eq_ok]
    exact ⟨reserved, hreserved, hloop⟩

end MatcherState

end Matcher
end VerifiableExchange
