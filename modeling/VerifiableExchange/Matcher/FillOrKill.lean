import VerifiableExchange.Matcher.Whole

/-!
# FillOrKill — the whole quantity, or nothing

A fill-or-kill order is planned, staged and only then committed, each on a walk of its own. The
walks make the same fills, and the loop of an ordinary order would make them too: so an order that
is not refused does exactly what it would do without the condition, and one that is leaves the
engine as it was.
-/

namespace VerifiableExchange
namespace Matcher

open Lib

/-! ## A sequence of fills, run by the loop -/

/-- A fill that is the next one can be settled and committed. -/
theorem FillEvent.Enabled.settleAndCommit {order : IncomingOrder} {remaining : Int}
    {into : BookAndTrades} {e : FillEvent} (h : e.Enabled order remaining into)
    (hmaker : 0 < e.maker.qtyTenths ∧ e.maker.qtyTenths ≤ maxGridUnits) :
    settleAndCommit order (e.planned remaining) e.next (into.tradesTotal + 1) into =
      .ok (e.result order remaining into) := by
  have hid : checkedAddU64 into.tradesTotal 1 = some (into.tradesTotal + 1) :=
    checkedAddU64_eq_some.2 ⟨h.counted, rfl⟩
  obtain ⟨after, hcommit⟩ := exists_commitFill { into with ledger := e.ledger } h.level h.wanted
    hmaker e.next (into.tradesTotal + 1)
  have hafter : after = e.result order remaining into :=
    commitFill_eq_ok { into with ledger := e.ledger } h.level hid hcommit
  simp only [Matcher.settleAndCommit, bind_eq_ok, expect_eq_ok]
  exact ⟨e.ledger, h.settled, hafter ▸ hcommit⟩

/-- The next fill of a sequence is the one the loop reads. -/
theorem FillEvent.Enabled.nextFill_eq {order : IncomingOrder} {remaining : Int}
    {into : BookAndTrades} {e : FillEvent} (h : e.Enabled order remaining into) :
    nextFill order into.book remaining = some (e.planned remaining) := by
  obtain ⟨others, hfacing⟩ := h.best
  simp only [nextFill, hfacing, List.head?_cons, h.cross, if_true, Option.map_some]
  rfl

variable {symbols : SymbolRegistry} {last : OrderId} {books : Books} {order : IncomingOrder}

/-- An order that still wants something after a fill used its maker up. -/
theorem FillEvent.makerLeft_eq_zero {e : FillEvent} {remaining : Int}
    (h : remaining - e.qty remaining ≠ 0) : e.makerLeft remaining = 0 := by
  simp only [FillEvent.makerLeft, FillEvent.qty] at h ⊢
  omega

/-- The loop makes the fills of a sequence that takes the whole quantity. -/
theorem executeLoop_of_fills {remaining left : Int} {before after : BookAndTrades}
    (h : Fills order remaining before left after) (hleft : left = 0) :
    ∀ fuel : Nat, restingCount before.book order.side < fuel →
      MatchInv symbols last books order remaining before →
      executeLoop order fuel remaining before = .ok (.crossed 0, after) := by
  induction h with
  | done remaining into =>
      intro fuel _ _
      rw [executeLoop_of_nonpos hleft.le, hleft]
  | @step remaining left before after e enabled later ih =>
      intro fuel hfuel hbooks
      obtain ⟨others, hfacing⟩ := enabled.best
      obtain ⟨fuel, rfl⟩ := Nat.exists_eq_add_one.2 (Nat.zero_lt_of_lt hfuel)
      have hid : checkedAddU64 before.tradesTotal 1 = some (before.tradesTotal + 1) :=
        checkedAddU64_eq_some.2 ⟨enabled.counted, rfl⟩
      have hstep : executeLoop order (fuel + 1) remaining before =
          executeLoop order fuel (remaining - e.qty remaining)
            (e.result order remaining before) := by
        rw [executeLoop, if_neg (not_le.2 enabled.wanted), enabled.nextFill_eq]
        simp only [enabled.booked, hid, enabled.settleAndCommit (hbooks.front hfacing)]
        rfl
      rw [hstep]
      by_cases hdone : remaining - e.qty remaining = 0
      · -- The order has its quantity, so nothing comes later.
        cases later with
        | done => rw [executeLoop_of_nonpos hdone.le, hdone]
        | step _ enabled' _ => exact absurd enabled'.wanted (by omega)
      · have hrounds := enabled.restingCount_result (FillEvent.makerLeft_eq_zero hdone)
        exact ih hleft fuel (by omega) (hbooks.fill enabled)

/-! ## A sequence of fills, run on copies -/

/-- There is one next fill. -/
theorem FillEvent.Enabled.unique {remaining : Int} {into : BookAndTrades} {e e' : FillEvent}
    (h : e.Enabled order remaining into) (h' : e'.Enabled order remaining into) : e = e' := by
  obtain ⟨others, hfacing⟩ := h.best
  obtain ⟨others', hfacing'⟩ := h'.best
  obtain ⟨price, maker, rest, next, ledger⟩ := e
  obtain ⟨price', maker', rest', next', ledger'⟩ := e'
  have hhead := hfacing.symm.trans hfacing'
  simp only [List.cons.injEq, Prod.mk.injEq] at hhead
  obtain ⟨⟨rfl, rfl, rfl⟩, rfl⟩ := hhead
  have hnext : next = next' := Option.some.inj (h.booked.symm.trans h'.booked)
  have hledger : ledger = ledger' := Except.ok.inj (h.settled.symm.trans h'.settled)
  rw [hnext, hledger]

theorem projectLeg_of_afterFill {positions projected : SortedMap AccountKey Position}
    {account : AccountId} {side : Side} {fill price : Int} {after : Position}
    (h : (projectedPosition order positions projected account).afterFill side fill price =
      some after) :
    projectLeg order positions projected account side fill price =
      .ok (projected.insert (Ledger.accountKey account order.symbol) after) := by
  simp only [projectLeg, bind_eq_ok, orFail_eq_ok]
  exact ⟨after, h, rfl⟩

/-- The copies accept a fill the match can make. -/
theorem Mirrors.exists_preflightFill {positions : SortedMap AccountKey Position} {p : Preflight}
    {remaining : Int} {into : BookAndTrades} {e : FillEvent}
    (h : Mirrors order positions p remaining into) (enabled : e.Enabled order remaining into) :
    ∃ p', preflightFill order positions e.price p e.maker = .ok p' := by
  have hqty : min p.remaining e.maker.qtyTenths = e.qty remaining := by
    rw [h.remaining_eq]
    rfl
  obtain ⟨hmaker, htaker⟩ : _ ∧ _ := Position.afterBothFills_eq_some enabled.booked
  have hnextTrade : checkedAddU64 p.nextTrade 1 = some (p.nextTrade + 1) := by
    rw [h.nextTrade]
    exact checkedAddU64_eq_some.2 ⟨enabled.counted, rfl⟩
  have hmakerLeg : projectLeg order positions p.projected e.maker.account order.side.opposite
      (min p.remaining e.maker.qtyTenths) e.price =
        .ok (p.projected.insert (Ledger.accountKey e.maker.account order.symbol) e.next.1) := by
    refine projectLeg_of_afterFill ?_
    rw [h.projected, hqty]
    exact hmaker
  -- An account that is both takes the second fill on the result of the first.
  have htakerLeg : projectLeg order positions
      (p.projected.insert (Ledger.accountKey e.maker.account order.symbol) e.next.1) order.account
      order.side (min p.remaining e.maker.qtyTenths) e.price =
        .ok ((p.projected.insert (Ledger.accountKey e.maker.account order.symbol)
          e.next.1).insert (Ledger.accountKey order.account order.symbol) e.next.2) := by
    refine projectLeg_of_afterFill ?_
    have hsame : order.account = e.maker.account ↔
        decide (e.maker.account = order.account) = true := by
      rw [decide_eq_true_eq]
      exact eq_comm
    rw [projectedPosition_insert, h.projected, hqty]
    simp only [hsame]
    exact htaker
  have hsettle : p.staged.settleFill e.maker.id order.id e.price
      (min p.remaining e.maker.qtyTenths) = .ok e.ledger := by
    rw [h.staged, hqty]
    exact enabled.settled
  simp only [preflightFill, bind_eq_ok, orFail_eq_ok, toOption_eq_some]
  exact ⟨_, _, hnextTrade, _, hmakerLeg, _, htakerLeg, _, hsettle, rfl⟩

/-- The copies accept a sequence of fills that takes the whole quantity. -/
theorem exists_preflightLevels {positions : SortedMap AccountKey Position} {remaining left : Int}
    {before after : BookAndTrades} (h : Fills order remaining before left after)
    (hleft : left = 0) :
    ∀ p : Preflight, MatchInv symbols last books order remaining before →
      Mirrors order positions p remaining before →
      ∃ p', preflightLevels order positions p (facing before.book order.side) = .ok p' ∧
        p'.remaining = 0 := by
  induction h with
  | done remaining into =>
      intro p _ hmirrors
      have hdone : p.remaining = 0 := hmirrors.remaining_eq.trans hleft
      exact ⟨p, preflightLevels_of_done hdone _, hdone⟩
  | @step remaining left before after e enabled later ih =>
      intro p hbooks hmirrors
      obtain ⟨others, hfacing⟩ := enabled.best
      obtain ⟨p₁, hfill⟩ := hmirrors.exists_preflightFill enabled
      obtain ⟨e', -, -, -, enabled', -, hmirrors₁⟩ :=
        hmirrors.fill hbooks enabled.wanted hfacing enabled.cross hfill
      cases enabled.unique enabled'
      have hwanted : p.remaining ≠ 0 := by
        rw [hmirrors.remaining_eq]
        exact enabled.wanted.ne'
      rw [hfacing, preflightLevels_cons enabled.cross hwanted, hfill]
      by_cases hdone : p₁.remaining = 0
      · exact ⟨p₁, if_pos hdone, hdone⟩
      · have hclosed : e.makerLeft remaining = 0 :=
          FillEvent.makerLeft_eq_zero (hmirrors₁.remaining_eq ▸ hdone)
        have hfacing₁ := FillEvent.facing_result hfacing hclosed
        simp only [if_neg hdone]
        rw [← hfacing₁]
        exact ih hleft p₁ (hbooks.fill enabled) hmirrors₁

/-! ## The same order without the condition -/

/-- The same order, with whatever does not fill at once cancelled. -/
def IncomingOrder.immediate (order : IncomingOrder) : IncomingOrder :=
  { order with timeInForce := .immediateOrCancel }

/-- A fill does not read the condition. -/
theorem Fills.immediate {remaining left : Int} {before after : BookAndTrades}
    (h : Fills order remaining before left after) :
    Fills order.immediate remaining before left after := by
  induction h with
  | done remaining into => exact .done remaining into
  | step e enabled _ ih =>
      exact .step e ⟨enabled.wanted, enabled.best, enabled.cross, enabled.booked, enabled.counted,
        enabled.settled⟩ ih

theorem MatchInv.immediate {remaining : Int} {into : BookAndTrades}
    (h : MatchInv symbols last books order remaining into) :
    MatchInv symbols last books order.immediate remaining into :=
  ⟨h.books, h.remaining_nonneg, h.remaining_le, h.onLot⟩

theorem validate_immediate {book : Option Book} (hfok : order.timeInForce = .fillOrKill)
    (h : validate order book = .ok ()) : validate order.immediate book = .ok () := by
  simp only [validate, bind_eq_ok, require_eq_ok] at h ⊢
  obtain ⟨_, -, _, hresting, -⟩ := h
  -- A post-only order is refused under either condition.
  have hpost : order.postOnly = false := by
    have hne : order.timeInForce ≠ .goodTillCancel := by
      rw [hfok]
      decide
    simpa [hne] using hresting
  simp [IncomingOrder.immediate, hpost]

theorem bound_immediate {reference : Option Int} {limitCents : Int}
    (h : bound order reference = .ok limitCents) :
    bound order.immediate reference = .ok limitCents := by
  obtain ⟨id, timestamp, account, symbol, side, limit, qty, orderType, timeInForce, postOnly⟩ :=
    order
  cases orderType with
  | limit => exact h
  | market =>
      simp only [bound, boundMarket, bind_eq_ok, require_eq_ok] at h
      obtain ⟨price, hprice, _, -, hbounded⟩ := h
      cases hbounded
      simp only [bound, boundMarket, IncomingOrder.immediate, bind_eq_ok]
      exact ⟨price, hprice, (), by simp, rfl⟩

namespace MatcherState

/-- The message of the same order without the condition. -/
def immediate (m : NewMessage) : NewMessage :=
  { m with terms := { m.terms with timeInForce := .immediateOrCancel } }

theorem admitOrder_immediate {s : MatcherState} {m : NewMessage} {arrived : IncomingOrder}
    (hfok : m.terms.timeInForce = .fillOrKill) (h : s.admitOrder m = .ok arrived) :
    s.admitOrder (immediate m) = .ok arrived.immediate := by
  obtain ⟨terms, hterms, rfl, hcapacity, hvalidate⟩ := admitOrder_eq_ok h
  have hvalid : validate (incomingOf m terms).immediate (s.books.get? m.symbol) = .ok () :=
    validate_immediate hfok hvalidate
  simp only [admitOrder, bind_eq_ok]
  exact ⟨terms, hterms, (), hcapacity, (), hvalid, rfl⟩

theorem effectiveOrder_immediate {s : MatcherState} {arrived order : IncomingOrder} {book : Book}
    (h : s.effectiveOrder arrived book = .ok order) :
    s.effectiveOrder arrived.immediate book = .ok order.immediate := by
  obtain ⟨limitCents, hbound, rfl, hself, hlimits⟩ := effectiveOrder_eq_ok h
  simp only [effectiveOrder, checkSelfTrade, bind_eq_ok, require_eq_ok]
  refine ⟨limitCents, bound_immediate hbound, (), hself, ?_⟩
  cases hpolicy : s.resourceLimits with
  | none => rfl
  | some limits =>
      have hcheck : limits.checkPositions
          { arrived.immediate with limitCents := limitCents } book s.positions = .ok () :=
        hlimits limits hpolicy
      simp only [hcheck]
      rfl

/-- What a staged plan makes of an order: its whole quantity, fill by fill. -/
theorem fills_of_staged {s : MatcherState} (hs : s.WellFormed) {m : NewMessage}
    {order : IncomingOrder} (haccepted : s.Accepted m order)
    (hfok : order.timeInForce = .fillOrKill) {staged : Option (FokPlan × Ledger)}
    (hstage : stage order (s.bookAndTrades order.symbol) = .ok staged) :
    ∃ reserved after, s.ledger.reserve order.id order.account order.symbol order.side
        order.limitCents order.qtyTenths = .ok reserved ∧
      Fills order order.qtyTenths { s.bookAndTrades order.symbol with ledger := reserved } 0
        after ∧
      runMatch order staged (s.bookAndTrades order.symbol) = .ok (.crossed 0, after) := by
  have hlevels := hs.noEmptyLevel order.symbol order.side
  simp only [stage, hfok, bind_eq_ok] at hstage
  obtain ⟨plan, hplan, ledger, hledger, hstage⟩ := hstage
  cases hstage
  have hplan' := hplan
  simp only [stageFok, bind_eq_ok, orFail_eq_ok, require_eq_ok] at hplan'
  obtain ⟨_, -, _, hroom, next, hnext, hplan'⟩ := hplan'
  cases hplan'
  have hledger' := hledger
  simp only [stageFokLedger, bind_eq_ok, orFail_eq_ok, toOption_eq_some] at hledger'
  obtain ⟨reserved, -, hledger'⟩ := hledger'
  have hstaged : ∀ account, stagedPosition s.positions order.symbol .empty account =
      s.positions.getD (Ledger.accountKey account order.symbol) .default :=
    fun account => by simp [stagedPosition]
  have hbooks : MatchInv s.symbols s.lastSeen s.books order order.qtyTenths
      { s.bookAndTrades order.symbol with ledger := reserved } := hs.matchInv haccepted
  obtain ⟨after, hcommit⟩ := exists_commitPlanned _ le_rfl hbooks haccepted.qty_range.1 rfl hstaged
    hnext (checkedAddU64_eq_some.1 hroom).1 hledger'
  have hrun : executeFok order ⟨planFills order (s.bookAndTrades order.symbol).book, next⟩
      { s.bookAndTrades order.symbol with ledger := ledger } = .ok (.crossed 0, after) := by
    simp only [executeFok, bind_eq_ok]
    exact ⟨after, hcommit, rfl⟩
  obtain ⟨reserved, hreserve, hfills, -⟩ :=
    executeFok_fills haccepted.qty_range.1 hlevels hplan hledger hrun
  exact ⟨reserved, after, hreserve, hfills, hrun⟩

/-- The funds check passes without the condition. -/
theorem stage_immediate {s : MatcherState} (hs : s.WellFormed) {m : NewMessage}
    {order : IncomingOrder} (haccepted : s.Accepted m order) {reserved : Ledger}
    {after : BookAndTrades}
    (hreserve : s.ledger.reserve order.id order.account order.symbol order.side order.limitCents
      order.qtyTenths = .ok reserved)
    (hfills : Fills order order.qtyTenths { s.bookAndTrades order.symbol with ledger := reserved } 0
      after) : stage order.immediate (s.bookAndTrades order.symbol) = .ok none := by
  have hbooks : MatchInv s.symbols s.lastSeen s.books order order.qtyTenths
      { s.bookAndTrades order.symbol with ledger := reserved } := hs.matchInv haccepted
  have hmirrors : Mirrors order.immediate s.positions
      { staged := reserved, projected := .empty, remaining := order.qtyTenths,
        nextTrade := s.tradesTotal } order.qtyTenths
      { s.bookAndTrades order.symbol with ledger := reserved } :=
    ⟨rfl, rfl, rfl, fun account => by simp [projectedPosition, bookAndTrades]⟩
  obtain ⟨p, hlevels, -⟩ :=
    exists_preflightLevels hfills.immediate rfl _ hbooks.immediate hmirrors
  have hpreflight : preflight order.immediate (s.bookAndTrades order.symbol) = .ok () := by
    unfold preflight
    split_ifs
    · rfl
    · simp only [bind_eq_ok, orFail_eq_ok, toOption_eq_some, require_eq_ok]
      exact ⟨reserved, hreserve, p, hlevels, by simp [IncomingOrder.immediate]⟩
  show (preflight order.immediate (s.bookAndTrades order.symbol) >>= fun _ => .ok none) = .ok none
  rw [hpreflight]
  rfl

/-- An accepted fill-or-kill order does what it would do without the condition, to the last part of
the engine. -/
theorem applyNew_immediate {s : MatcherState} (hs : s.WellFormed) {m : NewMessage}
    (hfok : m.terms.timeInForce = .fillOrKill) {order : IncomingOrder}
    {staged : Option (FokPlan × Ledger)} (hverdict : s.verdict m = .ok (order, staged)) :
    ∃ t, s.applyNew m = .ok t ∧ s.applyNew (immediate m) = .ok t := by
  obtain ⟨haccepted, hstage⟩ := accepted_of_verdict hverdict
  have hsymbol := haccepted.symbol_eq
  have hcondition : order.timeInForce = .fillOrKill := by
    obtain ⟨limitCents, qtyTenths, listing, horder, -⟩ := haccepted.terms
    rw [horder]
    exact hfok
  obtain ⟨reserved, after, hreserve, hfills, hrun⟩ :=
    fills_of_staged hs haccepted hcondition hstage
  obtain ⟨arrived, hadmitted, heffective⟩ := haccepted.checked
  obtain ⟨terms, -, harrived, -, -⟩ := admitOrder_eq_ok hadmitted
  have harrivedSymbol : arrived.symbol = m.symbol := by
    rw [harrived]
    rfl
  have hverdict' : s.verdict (immediate m) = .ok (order.immediate, none) := by
    have hprepare : s.prepare arrived.immediate (s.bookAndTrades m.symbol) =
        .ok (order.immediate, none) := by
      have hstaged := stage_immediate hs haccepted hreserve hfills
      rw [hsymbol] at hstaged
      have heffective' : s.effectiveOrder arrived.immediate (s.bookAndTrades m.symbol).book =
          .ok order.immediate := effectiveOrder_immediate heffective
      simp only [prepare, bind_eq_ok]
      exact ⟨order.immediate, heffective', none, hstaged, rfl⟩
    simp only [verdict, bind_eq_ok]
    refine ⟨arrived.immediate, admitOrder_immediate hfok hadmitted, ?_⟩
    have hsame : arrived.immediate.symbol = m.symbol := harrivedSymbol
    rw [hsame]
    exact hprepare
  have hbooks : MatchInv s.symbols s.lastSeen s.books order order.qtyTenths
      { s.bookAndTrades order.symbol with ledger := reserved } := hs.matchInv haccepted
  have hrun' : runMatch order.immediate none (s.bookAndTrades order.symbol) =
      .ok (.crossed 0, after) := by
    simp only [runMatch, bind_eq_ok, expect_eq_ok]
    exact ⟨reserved, hreserve, executeLoop_of_fills hfills.immediate rfl _ (Nat.lt_succ_self _)
      hbooks.immediate⟩
  rw [hsymbol] at hrun hrun'
  have hnew : s.applyNew m = s.finishMatch order (.crossed 0, after) := by
    rw [applyNew_of_accepted hverdict, hrun]
    rfl
  have hnew' : s.applyNew (immediate m) = s.finishMatch order.immediate (.crossed 0, after) := by
    rw [applyNew_of_accepted hverdict']
    have hsame : (immediate m).symbol = m.symbol := rfl
    rw [hsame, hrun']
    rfl
  exact ⟨_, hnew, hnew'⟩

/-! ## All or nothing -/

theorem sum_tradeRows (order : IncomingOrder) :
    ∀ (total : Nat) (made : List (Waiting × Int)),
      ((tradeRows order total (plannedOf made)).map TradeRow.qtyTenths).sum = filled made
  | _, [] => rfl
  | total, f :: rest => by
      have hrest := sum_tradeRows order (total + 1) rest
      simp only [plannedOf, filled, List.map_cons, tradeRows, List.sum_cons] at hrest ⊢
      rw [hrest]
      rfl

/-- The order traded its whole quantity, in the trades it would have made without the condition,
and left the engine as it would have then. -/
structure FilledWhole (env : Primitives) (s : MatcherState) (m : NewMessage)
    (received : Option Bytes) : Prop where
  same : ∃ t, s.applyNew m = .ok t ∧ s.applyNew (immediate m) = .ok t
  trades : ∃ qtyTenths e e', toGrid m.quantity 10 = some qtyTenths ∧
    s.effect env (.new m) received = .ok e ∧
    s.effect env (.new (immediate m)) received = .ok e' ∧ e.trades = e'.trades ∧
    (e.trades.map TradeRow.qtyTenths).sum = qtyTenths

/-- The order traded nothing, and the engine only counted it. -/
structure NothingDone (env : Primitives) (s : MatcherState) (m : NewMessage)
    (received : Option Bytes) (s' : MatcherState) : Prop where
  recorded : OnlyRecorded s (.new m) s'
  trades : ∃ e, s.effect env (.new m) received = .ok e ∧ e.trades = []

/-- The trades of an accepted order without the condition. -/
theorem effect_immediate {env : Primitives} {s : MatcherState} (hs : s.WellFormed)
    {m : NewMessage} (hfok : m.terms.timeInForce = .fillOrKill) {order : IncomingOrder}
    {staged : Option (FokPlan × Ledger)} (hverdict : s.verdict m = .ok (order, staged))
    {received : Option Bytes} {e : Effect} (heffect : s.effect env (.new m) received = .ok e) :
    ∃ e', s.effect env (.new (immediate m)) received = .ok e' ∧ e.trades = e'.trades := by
  obtain ⟨u, happly, rfl⟩ := exists_apply_of_effect heffect
  obtain ⟨hid, t, hdispatch, hconsume⟩ := apply_eq_ok happly
  have hverdict : s.observed.verdict m = .ok (order, staged) :=
    (verdict_observed s m).trans hverdict
  obtain ⟨t', hnew, hnew'⟩ := applyNew_immediate hs.observed hfok hverdict
  cases Except.ok.inj (hnew.symm.trans hdispatch)
  obtain ⟨u', hconsume'⟩ : ∃ u', consume env t (.new (immediate m)) received = .ok u' := by
    obtain ⟨hnext, hmax, -⟩ := consume_eq_ok hconsume
    exact ⟨_, consume_of_next env received hnext hmax⟩
  have hdispatch' : dispatch env s.observed (.new (immediate m)) = .ok t := hnew'
  have hid' : OrderMessage.id (.new (immediate m)) = s.observed.nextExpectedId := hid
  have happly' : s.observed.apply env (.new (immediate m)) received = .ok u' :=
    (apply_of_dispatch hid' hdispatch').trans hconsume'
  refine ⟨MatcherState.recorded u', ?_, ?_⟩
  · rw [effect, happly']
    rfl
  · exact (recordedTrades_consume hconsume).trans (recordedTrades_consume hconsume').symm

/-- A fill-or-kill order in turn is always run to its end. -/
theorem exists_apply_fok {env : Primitives} {s : MatcherState} (hs : s.WellFormed)
    {m : NewMessage} (hfok : m.terms.timeInForce = .fillOrKill) (received : Option Bytes)
    (hid : m.id = s.lastSeen + 1) (hmax : m.id ≤ u64Max) :
    ∃ s', s.apply env (.new m) received = .ok s' := by
  have hroom : s.lastSeen < u64Max := by
    rw [hid] at hmax
    exact hmax
  have hnext : OrderMessage.id (.new m) = s.nextExpectedId :=
    hid.trans (nextExpectedId_of_lt hroom).symm
  obtain ⟨t, ht⟩ : ∃ t, s.applyNew m = .ok t := by
    cases hverdict : s.verdict m with
    | error why => exact ⟨_, applyNew_of_refused hs.noEmptyBook hverdict⟩
    | ok prepared =>
        obtain ⟨t, ht, -⟩ := applyNew_immediate hs hfok hverdict
        exact ⟨t, ht⟩
  have hdispatch : dispatch env s (.new m) = .ok t := ht
  have hlast := lastSequence_dispatch hs.noEmptyLevel hdispatch
  have hcursor : OrderMessage.id (.new m) = t.ledger.lastSequence + 1 := by
    rw [hlast, hs.sequence]
    exact hid
  exact ⟨_, (apply_of_dispatch hnext hdispatch).trans (consume_of_next env received hcursor hmax)⟩

/-- In every state a run reaches, a fill-or-kill order that is run trades its whole quantity as the
same order would without the condition, or leaves nothing but the record of its refusal; and one
that arrives in turn is run. -/
theorem fill_or_kill {env : Primitives} {s : MatcherState} (hs : Reachable env s) {m : NewMessage}
    (hfok : m.terms.timeInForce = .fillOrKill) (received : Option Bytes) :
    (∀ s', s.apply env (.new m) received = .ok s' →
      s.FilledWhole env m received ∨ s.NothingDone env m received s') ∧
    (m.id = s.lastSeen + 1 → m.id ≤ u64Max → ∃ s', s.apply env (.new m) received = .ok s') := by
  have hwell := hs.wellFormed
  refine ⟨?_, exists_apply_fok hwell hfok received⟩
  intro s' happly
  cases hverdict : s.verdict m with
  | error why =>
      right
      obtain ⟨-, t, hdispatch, hconsume⟩ := apply_eq_ok happly
      have hid := hwell.next_eq hdispatch hconsume
      obtain ⟨-, hmax, -⟩ := consume_eq_ok hconsume
      rw [apply_of_refused hwell received hid hmax hverdict] at happly
      cases happly
      refine ⟨onlyRecorded_consumed env s why _ received, ?_⟩
      have hobserved : s.observed.apply env (.new m) received =
          .ok (consumed env (s.observed.ignoreOrder why) (.new m) received) :=
        apply_of_refused hwell.observed received hid hmax ((verdict_observed s m).trans hverdict)
      refine ⟨MatcherState.recorded (consumed env (s.observed.ignoreOrder why) (.new m) received),
        ?_, rfl⟩
      rw [effect, hobserved]
      rfl
  | ok prepared =>
      left
      obtain ⟨order, staged⟩ := prepared
      obtain ⟨haccepted, hstage⟩ := accepted_of_verdict hverdict
      obtain ⟨e, heffect, hfollows⟩ := price_time_priority hs hverdict happly
      obtain ⟨e', heffect', htrades⟩ := effect_immediate hwell hfok hverdict heffect
      have hcondition : order.timeInForce = .fillOrKill := by
        obtain ⟨limitCents, qtyTenths, listing, horder, -⟩ := haccepted.terms
        rw [horder]
        exact hfok
      obtain ⟨reserved, after, -, -, hrun⟩ := fills_of_staged hwell haccepted hcondition hstage
      have hwalked := followsWalk hwell hs.counted hs.lastSeen_le haccepted hstage hrun
      obtain ⟨left, hleft, hfilled⟩ := hwalked.left
      have hzero : left = 0 := by
        rcases hleft with hleft | hleft
        · cases hleft
          rfl
        · cases hleft
      obtain ⟨signed, hlimited⟩ := hfollows.limited
      refine ⟨applyNew_immediate hwell hfok hverdict, order.qtyTenths, e, e', hlimited.quantity,
        heffect, heffect', htrades, ?_⟩
      rw [hfollows.trades_eq, sum_tradeRows]
      have htaken : s.taken order = takenOf order (s.bookAndTrades order.symbol).book
          (s.bookAndTrades order.symbol).positions := rfl
      rw [htaken, hfilled, hzero, sub_zero]

/-- A fill-or-kill order for half of what rests on the short log's book, as its next message. -/
def Sample.wholeOrder : NewMessage where
  id := 5
  timestamp := 1004
  account := 3
  symbol := "ETH-USDC"
  side := .buy
  price := .ofNat 101
  quantity := .ofNat 1
  nonce := none
  terms := { orderType := .limit, timeInForce := .fillOrKill, postOnly := false }

/-- The same order for more than rests. -/
def Sample.tooLargeOrder : NewMessage := { Sample.wholeOrder with quantity := .ofNat 2 }

theorem Sample.fok_refusals :
    Sample.state.refusal Sample.wholeOrder = none ∧
      Sample.state.refusal Sample.tooLargeOrder = some ⟨"fill_or_kill_unavailable"⟩ ∧
      Sample.state.lastSeen = 4 := by
  decide +kernel

/-- One of the two orders is not refused, and both are run. -/
theorem fill_or_kill_sample :
    (∃ s', Sample.state.apply Sample.env (.new Sample.wholeOrder) none = .ok s' ∧
      (Sample.state.FilledWhole Sample.env Sample.wholeOrder none ∨
        Sample.state.NothingDone Sample.env Sample.wholeOrder none s')) ∧
    ∃ s', Sample.state.apply Sample.env (.new Sample.tooLargeOrder) none = .ok s' ∧
      (Sample.state.FilledWhole Sample.env Sample.tooLargeOrder none ∨
        Sample.state.NothingDone Sample.env Sample.tooLargeOrder none s') := by
  have hone : ∀ m ∈ [Sample.wholeOrder, Sample.tooLargeOrder],
      ∃ s', Sample.state.apply Sample.env (.new m) none = .ok s' ∧
        (Sample.state.FilledWhole Sample.env m none ∨
          Sample.state.NothingDone Sample.env m none s') := by
    intro m hm
    have hfields : m.terms.timeInForce = .fillOrKill ∧ m.id = 5 := by
      rcases List.mem_pair.1 hm with rfl | rfl
      · exact ⟨rfl, rfl⟩
      · exact ⟨rfl, rfl⟩
    obtain ⟨hcases, hrun⟩ := fill_or_kill Sample.reachable_state hfields.1 none
    obtain ⟨s', happly⟩ := hrun (by rw [hfields.2, Sample.fok_refusals.2.2])
      (by rw [hfields.2]; decide)
    exact ⟨s', happly, hcases s' happly⟩
  exact ⟨hone _ (List.mem_cons_self), hone _ (List.mem_cons_of_mem _ List.mem_cons_self)⟩

end MatcherState

end Matcher
end VerifiableExchange
