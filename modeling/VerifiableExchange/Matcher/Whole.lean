import VerifiableExchange.Matcher.Preflight
import VerifiableExchange.Matcher.Priority

/-!
# Whole — a funded message runs to its end

In a funded run every release finds the funds it gives back and every match that was accepted runs
whole, so nothing a message does fails before it is counted as consumed. What an accepted order does
is the plan of its fills, and a refused one does nothing.
-/

namespace VerifiableExchange
namespace Matcher

open Lib

/-! ## The plan is the walk -/

/-- The plan of one level is a greedy walk of it. -/
theorem planLevel_eq (price : Int) :
    ∀ {level : Level} {remaining : Int}, 0 ≤ remaining → (∀ o ∈ level, 0 < o.qtyTenths) →
      planLevel price remaining level =
        (plannedOf (Greedy.fills Waiting.size remaining (atPrice (price, level))),
          remaining - filled (Greedy.fills Waiting.size remaining (atPrice (price, level))))
  | [], remaining, _, _ => by simp [planLevel, atPrice, Greedy.fills, plannedOf, filled]
  | maker :: rest, remaining, hremaining, hpos => by
      have hmaker := hpos maker List.mem_cons_self
      have hrest : ∀ o ∈ rest, 0 < o.qtyTenths := fun o ho => hpos o (List.mem_cons_of_mem _ ho)
      have hcons : atPrice (price, maker :: rest) = (price, maker) :: atPrice (price, rest) := rfl
      rcases eq_or_lt_of_le hremaining with rfl | hwanted
      · simp [planLevel, plannedOf, filled]
      · have hsize : Waiting.size (price, maker) = maker.qtyTenths := rfl
        have hleft : 0 ≤ remaining - min remaining maker.qtyTenths := by omega
        rw [hcons, Greedy.fills_cons _ _ hwanted, hsize]
        simp only [planLevel, if_neg (ne_of_gt hwanted)]
        rw [planLevel_eq price hleft hrest]
        -- The plan stops at the order that fills it; the walk gives nothing more from there on.
        rcases eq_or_lt_of_le hleft with hdone | hmore
        · rw [← hdone, if_neg (lt_irrefl 0)]
          simp only [Greedy.fills_of_nonpos le_rfl, plannedOf, filled, List.map_cons, List.map_nil,
            List.sum_cons, List.sum_nil, Waiting.fill, Prod.mk.injEq, true_and]
          omega
        · rw [if_pos hmore]
          simp only [plannedOf, filled, List.map_cons, List.sum_cons, Waiting.fill, sub_sub]

/-- The plan of a sorted side is a greedy walk of what crosses. -/
theorem planLevels_eq {order : IncomingOrder} :
    ∀ {levels : List (Int × Level)} {remaining : Int}, 0 ≤ remaining →
      (∀ entry ∈ levels, ∀ o ∈ entry.2, 0 < o.qtyTenths) →
      levels.Pairwise (fun a b => match order.side with
        | .buy => a.1 < b.1
        | .sell => b.1 < a.1) →
      planLevels order remaining levels = plannedOf (Greedy.fills Waiting.size remaining
        ((levels.flatMap atPrice).filter (fun w => crosses order.side w.1 order.limitCents)))
  | [], remaining, _, _, _ => rfl
  | (price, level) :: rest, remaining, hremaining, hpos, hsorted => by
      obtain ⟨hlevel, hrest⟩ := List.forall_mem_cons.1 hpos
      obtain ⟨hbest, hsorted⟩ := List.pairwise_cons.1 hsorted
      have hprice : ∀ w ∈ atPrice (price, level), w.1 = price := by
        intro w hw
        obtain ⟨o, -, rfl⟩ := List.mem_map.1 hw
        rfl
      rw [List.flatMap_cons, List.filter_append]
      by_cases hcross : crosses order.side price order.limitCents
      · -- The whole level crosses, so the walk takes it like the plan.
        have hall : (atPrice (price, level)).filter
            (fun w => crosses order.side w.1 order.limitCents) = atPrice (price, level) := by
          refine List.filter_eq_self.2 (fun w hw => ?_)
          rw [hprice w hw]
          exact decide_eq_true hcross
        have hsize : ∀ w ∈ atPrice (price, level), 0 < w.size := by
          intro w hw
          obtain ⟨o, ho, rfl⟩ := List.mem_map.1 hw
          exact hlevel o ho
        have htaken := Greedy.sum_fills hremaining hsize
        rw [hall, Greedy.fills_append, plannedOf, List.map_append]
        rcases eq_or_lt_of_le hremaining with rfl | hwanted
        · simp [planLevels]
        · have hplan := planLevel_eq price hremaining hlevel
          have hleft : 0 ≤ remaining - filled (Greedy.fills Waiting.size remaining
              (atPrice (price, level))) := by
            rw [filled, htaken]
            omega
          simp only [planLevels, hcross, not_true_eq_false, ne_of_gt hwanted, or_self, if_false,
            hplan]
          rcases eq_or_lt_of_le hleft with hdone | hmore
          · have hnone : remaining - ((Greedy.fills Waiting.size remaining
                (atPrice (price, level))).map Prod.snd).sum = 0 := hdone.symm
            rw [← hdone, if_neg (lt_irrefl 0), hnone, Greedy.fills_of_nonpos le_rfl, List.map_nil,
              List.append_nil]
            rfl
          · rw [if_pos hmore, planLevels_eq hleft hrest hsorted]
            rfl
      · -- The best price does not cross, so no later one does.
        have hnone : ∀ w ∈ atPrice (price, level) ++ rest.flatMap atPrice,
            ¬crosses order.side w.1 order.limitCents := by
          intro w hw hlater
          rcases List.mem_append.1 hw with hw | hw
          · exact hcross (hprice w hw ▸ hlater)
          · obtain ⟨entry, hentry, hmem⟩ := List.mem_flatMap.1 hw
            obtain ⟨o, -, rfl⟩ := List.mem_map.1 hmem
            have hbetter := hbest entry hentry
            unfold crosses at hcross hlater
            cases hside : order.side with
            | buy =>
                simp only [hside] at hcross hlater hbetter
                exact hcross (hbetter.le.trans hlater)
            | sell =>
                simp only [hside] at hcross hlater hbetter
                exact hcross (hlater.trans hbetter.le)
        rw [← List.filter_append, List.filter_eq_nil_iff.2 (by simpa using hnone)]
        simp [planLevels, hcross, Greedy.fills, plannedOf]

/-- The plan of an order is its walk. -/
theorem planFills_eq {order : IncomingOrder} {book : Book} (hqty : 0 ≤ order.qtyTenths)
    (hpos : ∀ w ∈ waiting book order.side, 0 < w.size) :
    planFills order book = plannedOf (walkOf order book) := by
  refine planLevels_eq hqty ?_ (facing_sorted book order.side)
  rintro ⟨price, level⟩ hentry o ho
  exact hpos (price, o) (mem_waiting.2 ⟨level, mem_facing.1 hentry, ho⟩)

namespace MatcherState

/-! ## Nothing fails on the way -/

theorem exists_releaseFunds {config : FundingConfig} {l : Ledger} (h : Ledger.Conserving config l)
    (id : OrderId) (site : String) : ∃ l', releaseFunds l id site = .ok l' := by
  obtain ⟨⟨l', released⟩, hrelease⟩ := h.exists_release id
  exact ⟨l', releaseFunds_eq_ok.2 ⟨released, hrelease⟩⟩

theorem exists_finishMatch {config : FundingConfig} {after : BookAndTrades}
    (h : Ledger.Conserving config after.ledger) (s : MatcherState) (order : IncomingOrder)
    (left : Int) : ∃ t, s.finishMatch order (.crossed left, after) = .ok t := by
  have hfinish : ∃ into, finishRemainder order left after = .ok into := by
    unfold finishRemainder
    split_ifs
    · exact ⟨_, rfl⟩
    split
    · exact ⟨_, rfl⟩
    · obtain ⟨ledger, hledger⟩ := exists_releaseFunds h order.id "release checked remainder"
      rw [hledger]
      exact ⟨_, rfl⟩
  obtain ⟨into, hinto⟩ := hfinish
  simp only [finishMatch, hinto]
  exact ⟨_, rfl⟩

/-- What becomes of an accepted funded order: its match crossed, and was finished. -/
theorem FundedInv.exists_applyNew {config : FundingConfig} {s : MatcherState}
    (h : s.FundedInv config) (hs : s.WellFormed) {m : NewMessage} (hnew : s.lastSeen < m.id)
    {order : IncomingOrder} {staged : Option (FokPlan × Ledger)}
    (hverdict : s.verdict m = .ok (order, staged)) :
    ∃ left after t, runMatch order staged (s.bookAndTrades order.symbol) =
        .ok (.crossed left, after) ∧ s.applyNew m = .ok t := by
  obtain ⟨haccepted, hstage⟩ := accepted_of_verdict hverdict
  obtain ⟨left, after, hrun⟩ := h.exists_runMatch hs haccepted hstage
  obtain ⟨_, hexecuted, -⟩ := runMatch_executed haccepted.qty_range.1
    (hs.noEmptyLevel order.symbol order.side) hstage hrun
  obtain ⟨reserved, hreserve, hfills⟩ := hexecuted.filled
  have hafter := (h.fundedMatch hs hnew haccepted hreserve).fills hfills
  obtain ⟨t, ht⟩ := exists_finishMatch hafter.conserving s order left
  refine ⟨left, after, t, hrun, ?_⟩
  rw [applyNew_of_accepted hverdict, ← haccepted.symbol_eq, hrun]
  exact ht

theorem FundedInv.exists_applyCancel {config : FundingConfig} {s : MatcherState}
    (h : s.FundedInv config) (m : CancelMessage) : ∃ t, s.applyCancel m = .ok t := by
  unfold applyCancel
  split
  · exact ⟨_, rfl⟩
  rename_i ref owner howner
  split_ifs
  · exact ⟨_, rfl⟩
  obtain ⟨-, book, hbook, -⟩ := ownerOf_eq_some.1 howner
  obtain ⟨ledger, hledger⟩ := exists_releaseFunds h.conserving m.targetId
    "release checked cancelled obligation"
  simp only [removeCancelled, bind_eq_ok, expect_eq_ok, orFail_eq_ok]
  exact ⟨_, ledger, hledger, book, hbook, rfl⟩

theorem exists_foldlM_closeResting {config : FundingConfig} :
    ∀ (orders : List RestingOrder) (s : MatcherState), Ledger.Conserving config s.ledger →
      ∃ t, orders.foldlM closeResting s = .ok t
  | [], s, _ => ⟨s, rfl⟩
  | o :: orders, s, h => by
      obtain ⟨⟨ledger, released⟩, hrelease⟩ := h.exists_release o.id
      have hclosed : closeResting s o = .ok { s with
          ledger := ledger
          openOrders := s.openOrders.erase o.id
          pending := record s.pending (.orderClosed o.id) } := by
        simp only [closeResting, bind_eq_ok, releaseFunds_eq_ok]
        exact ⟨ledger, ⟨released, hrelease⟩, rfl⟩
      rw [List.foldlM_cons, hclosed]
      exact exists_foldlM_closeResting orders _ (h.release hrelease)

theorem exists_applyDelistSymbol {config : FundingConfig} (s : MatcherState)
    (h : Ledger.Conserving config s.ledger) (m : DelistSymbolMessage) : ∃ t, s.applyDelistSymbol m = .ok t := by
  unfold applyDelistSymbol
  split
  · exact ⟨_, rfl⟩
  rename_i symbols _
  have hclear : ∃ cleared, clearBook { s with symbols := symbols } m.symbol = .ok cleared := by
    unfold clearBook
    split
    · exact ⟨_, rfl⟩
    · rename_i book _
      obtain ⟨t, ht⟩ := exists_foldlM_closeResting (restingOrders book)
        { s with symbols := symbols, books := s.books.erase m.symbol } h
      exact ⟨_, bind_eq_ok.2 ⟨t, ht, rfl⟩⟩
  obtain ⟨cleared, hcleared⟩ := hclear
  exact ⟨_, bind_eq_ok.2 ⟨cleared, hcleared, rfl⟩⟩

theorem exists_whenSigned {env : Primitives} {s : MatcherState} {message : OrderMessage}
    {act : MatcherState → Except Fault MatcherState}
    (h : ∀ key ignored, ∃ t, act { s with operatorKey := key, listingsIgnored := ignored } = .ok t) :
    ∃ t, whenSigned env s message act = .ok t := by
  obtain ⟨key, ignored, -, hsigned⟩ := operatorSigned_eq env s message
  unfold whenSigned
  split
  · rename_i u hact
    rw [hact] at hsigned
    rw [show u = _ from hsigned]
    exact h key ignored
  · exact ⟨_, rfl⟩

/-- Whatever the message, a funded engine gets to where it counts it as consumed. -/
theorem FundedInv.exists_dispatch {config : FundingConfig} {s : MatcherState}
    (h : s.FundedInv config) (hs : s.WellFormed) (env : Primitives) {message : OrderMessage}
    (hnew : s.lastSeen < message.id) : ∃ t, MatcherState.dispatch env s message = .ok t := by
  cases message with
  | new m =>
      cases hverdict : s.verdict m with
      | error why => exact ⟨_, applyNew_of_refused hs.noEmptyBook hverdict⟩
      | ok answer =>
          obtain ⟨_, _, t, -, ht⟩ := h.exists_applyNew hs hnew hverdict
          exact ⟨t, ht⟩
  | cancel m => exact h.exists_applyCancel m
  | listSymbol m => exact exists_whenSigned (fun _ _ => ⟨_, rfl⟩)
  | delistSymbol m =>
      exact exists_whenSigned (fun key ignored => exists_applyDelistSymbol
        { s with operatorKey := key, listingsIgnored := ignored } h.conserving m)
  | engineRule m => exact exists_whenSigned (fun _ _ => ⟨_, rfl⟩)

theorem FundedInv.exists_apply {config : FundingConfig} {s : MatcherState}
    (h : s.FundedInv config) (hs : s.WellFormed) (env : Primitives) {message : OrderMessage}
    (received : Option Bytes) (hid : message.id = s.nextExpectedId) (hroom : s.lastSeen < u64Max) :
    ∃ s', s.apply env message received = .ok s' := by
  have hnext : message.id = s.lastSeen + 1 := hid.trans (nextExpectedId_of_lt hroom)
  have hnew : s.lastSeen < message.id := hnext ▸ Nat.lt_succ_self s.lastSeen
  obtain ⟨t, ht⟩ := h.exists_dispatch hs env hnew
  have hsequence := lastSequence_dispatch hs.noEmptyLevel ht
  rw [apply_of_dispatch hid ht]
  refine ⟨_, consume_of_next env received ?_ (hnext ▸ hroom)⟩
  rw [hsequence, hs.sequence, hnext]

/-! ## No order is half executed -/

/-- Nothing fails while the engine runs a message, and an order it accepted makes every fill of its
plan. -/
structure RunsWhole (env : Primitives) (s : MatcherState) (message : OrderMessage)
    (received : Option Bytes) : Prop where
  noPanic : ∀ site, s.apply env message received ≠ .error (.panicked site)
  whole : ∀ m order staged, message = .new m → m.id = s.nextExpectedId →
    s.verdict m = .ok (order, staged) →
    ∃ s' e, s.apply env message received = .ok s' ∧ s.effect env message received = .ok e ∧
      e.trades = tradeRows order s.tradesTotal (planFills order (s.bookOf m.symbol))
  refused : ∀ m why, message = .new m → m.id = s.nextExpectedId → s.verdict m = .error why →
    ∃ s', s.apply env message received = .ok s' ∧ OnlyRecorded s message s'

/-- An accepted funded order makes every fill of its plan. -/
theorem FundedInv.trades_eq {config : FundingConfig} {env : Primitives} {s s' : MatcherState}
    (h : s.FundedInv config) (hs : Reachable env s) {m : NewMessage} {order : IncomingOrder}
    {staged : Option (FokPlan × Ledger)} (hverdict : s.verdict m = .ok (order, staged))
    {received : Option Bytes} (happly : s.apply env (.new m) received = .ok s') :
    ∃ e, s.effect env (.new m) received = .ok e ∧
      e.trades = tradeRows order s.tradesTotal (planFills order (s.bookOf m.symbol)) := by
  have hwell := hs.wellFormed
  obtain ⟨haccepted, hstage⟩ := accepted_of_verdict hverdict
  obtain ⟨left, after, hrun⟩ := h.exists_runMatch hwell haccepted hstage
  have hwalk := followsWalk hwell hs.counted hs.lastSeen_le haccepted hstage hrun
  -- A match that was let through is not cut short.
  have hwhole : s.taken order = s.walk order := hwalk.ended
  have hsound : BookInv s.symbols s.lastSeen (s.books.insert order.symbol (s.bookOf order.symbol))
      s.openOrders := hwell.books.congr_levels (fun _ _ _ => levelAt_insert_getD _ _ _ _ _)
  have hplan : planFills order (s.bookOf order.symbol) = plannedOf (s.walk order) :=
    planFills_eq haccepted.qty_range.1.le (hsound.waiting_pos order.side)
  obtain ⟨t, ht, heffect, -⟩ := effect_of_apply happly
  have hfollows := follows_of_recording hwell.observed hs.counted hs.lastSeen_le rfl hverdict ht
  refine ⟨recorded t, heffect, ?_⟩
  calc
    (recorded t).trades = tradeRows order s.tradesTotal (plannedOf (s.taken order)) :=
      hfollows.trades_eq
    _ = tradeRows order s.tradesTotal (planFills order (s.bookOf m.symbol)) := by
      rw [hwhole, ← hplan, haccepted.symbol_eq]

/-- A funded message runs whole, exactly unless the largest id arrives again after it was used. -/
theorem runs_whole_iff {env : Primitives} {config : FundingConfig} {limits : Option ResourceLimits}
    {session pubkey : Option String} {recording : Bool} {start s : MatcherState}
    (hstart : ExecutionGenesis.opening ⟨.fundedSimulation, some config, limits⟩ session pubkey
      recording = .ok start) (hs : Reaches env start s) (message : OrderMessage)
    (received : Option Bytes) :
    RunsWhole env s message received ↔ ¬(s.lastSeen = u64Max ∧ message.id = u64Max) := by
  have hopening : Reachable env start := .genesis hstart
  have hreachable := hs.reachable hopening
  have hwell := hreachable.wellFormed
  have h := hs.fundedInv hopening (fundedInv_opening hstart)
  constructor
  · rintro hwhole ⟨hlast, hmax⟩
    -- Past the last cursor the message runs, and counting it as consumed panics.
    have hturn : message.id = s.nextExpectedId := by
      rw [nextExpectedId, hlast, hmax]
      rfl
    cases hrun : s.apply env message received with
    | error fault =>
        obtain ⟨site, rfl⟩ := OnlyPanics.apply received hturn fault hrun
        exact hwhole.noPanic site hrun
    | ok s' =>
        obtain ⟨-, t, ht, hconsume⟩ := MatcherState.apply_eq_ok hrun
        refine consume_ne_ok env received ?_ hconsume
        rw [lastSequence_dispatch hwell.noEmptyLevel ht, hwell.sequence, hlast]
  · intro hroom
    -- The exception aside, a message whose turn it is leaves room to count it.
    have hlt : message.id = s.nextExpectedId → s.lastSeen < u64Max := by
      intro hturn
      refine lt_of_le_of_ne hreachable.lastSeen_le (fun hlast => hroom ⟨hlast, ?_⟩)
      rw [hturn, nextExpectedId, hlast]
      rfl
    refine ⟨?_, ?_, ?_⟩
    · intro site hpanic
      by_cases hturn : message.id = s.nextExpectedId
      · obtain ⟨s', happly⟩ := h.exists_apply hwell env received hturn (hlt hturn)
        rw [happly] at hpanic
        cases hpanic
      · rw [apply, if_pos hturn] at hpanic
        cases hpanic
    · rintro m order staged rfl hturn hverdict
      obtain ⟨s', happly⟩ : ∃ s', s.apply env (.new m) received = .ok s' :=
        h.exists_apply hwell env received hturn (hlt hturn)
      obtain ⟨e, heffect, htrades⟩ := h.trades_eq hreachable hverdict happly
      exact ⟨s', e, happly, heffect, htrades⟩
    · rintro m why rfl hturn hverdict
      have hnext : m.id = s.lastSeen + 1 := hturn.trans (nextExpectedId_of_lt (hlt hturn))
      exact ⟨_, apply_of_refused hwell received hnext (hnext ▸ hlt hturn) hverdict,
        onlyRecorded_consumed env s why _ received⟩

/-- An order that takes from the cash order the short log leaves, as its next message. -/
def Sample.fundedTaking : NewMessage where
  id := 5
  timestamp := 1004
  account := 1
  symbol := "ETH-USDC"
  side := .sell
  price := .ofNat 99
  quantity := .ofNat 1
  nonce := none
  terms := { orderType := .limit, timeInForce := .goodTillCancel, postOnly := false }

theorem runs_whole_iff_sample :
    Sample.fundedState.refusal Sample.fundedTaking = none ∧
      RunsWhole Sample.env Sample.fundedState (.new Sample.fundedTaking) none := by
  have hvalues : Sample.fundedState.lastSeen = 4 ∧
      Sample.fundedState.refusal Sample.fundedTaking = none := by decide +kernel
  obtain ⟨hlast, hrefusal⟩ := hvalues
  refine ⟨hrefusal, ?_⟩
  have hreaches := Sample.reaches_fundedState
  generalize Sample.fundedState = s at hlast hreaches ⊢
  refine (runs_whole_iff Sample.opening_fundedStart hreaches _ none).2 ?_
  rintro ⟨hend, -⟩
  rw [hlast] at hend
  simp [u64Max] at hend

/-- A funded engine that used every id takes the last one again, and it panics. -/
theorem not_runs_whole_at_end :
    ∃ s, run Sample.env Sample.fundedStart (idleLog u64Max) = .ok s ∧
      Reaches Sample.env Sample.fundedStart s ∧ s.ledger.isFunded = true ∧
      s.apply Sample.env (idle u64Max) none =
        .error (.panicked "matcher and ledger share the checked sequence") ∧
      ¬RunsWhole Sample.env s (idle u64Max) none := by
  have hstart : Reachable Sample.env Sample.fundedStart := .genesis Sample.opening_fundedStart
  have hzero : Sample.fundedStart.lastSeen = 0 := by
    obtain ⟨_, -, -, heq⟩ := ExecutionGenesis.opening_eq_ok Sample.opening_fundedStart
    rw [heq]
    rfl
  obtain ⟨s, hrun, hs, hlast⟩ :=
    exists_run_idleLog Sample.env hstart.wellFormed hzero u64Max le_rfl
  have hreaches := reaches_of_run hrun
  have hfunded := hreaches.fundedInv hstart (fundedInv_opening Sample.opening_fundedStart)
  have hpanic := apply_idle_at_end Sample.env hs hlast
  exact ⟨s, hrun, hreaches, hfunded.conserving.isFunded, hpanic,
    fun hwhole => hwhole.noPanic _ hpanic⟩

end MatcherState

end Matcher
end VerifiableExchange
