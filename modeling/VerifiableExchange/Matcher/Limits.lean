import VerifiableExchange.Matcher.Capacity

/-!
# Limits — the limits of a genesis hold in every state

What an accepted order opens was counted before its first fill, and a remainder takes the place that
was free before the match. So no message takes the engine past a limit, and an order is refused for
positions only where its plan would have.
-/

namespace VerifiableExchange
namespace Matcher

open Lib

namespace MatcherState

/-! ## An order that reaches execution -/

theorem WellFormed.waiting_pos {s : MatcherState} (hs : s.WellFormed) (symbol : String)
    (side : Side) : ∀ w ∈ waiting (s.bookOf symbol) side, 0 < w.size := by
  have hbooks : BookInv s.symbols s.lastSeen (s.books.insert symbol (s.bookOf symbol))
      s.openOrders :=
    hs.books.congr_levels (fun q side price => levelAt_insert_getD s.books symbol q side price)
  exact hbooks.waiting_pos side

/-- What was counted for an accepted order are the positions its plan opens. -/
theorem Accepted.counted {s : MatcherState} (hs : s.WellFormed) {limits : ResourceLimits}
    (hlimits : s.resourceLimits = some limits) (hroom : s.positions.size ≤ limits.maxPositions)
    {m : NewMessage} {order : IncomingOrder} (h : s.Accepted m order) :
    ∃ opening, limits.countPositions order (s.bookOf m.symbol) s.positions = .ok opening ∧
      opening.added.toFinset =
        openedBy order s.positions (planFills order (s.bookOf m.symbol)) ∧
      s.positions.size + (openedBy order s.positions
        (planFills order (s.bookOf m.symbol))).card ≤ limits.maxPositions := by
  obtain ⟨arrived, -, heffective⟩ := h.checked
  obtain ⟨_, -, -, -, hcheck⟩ := effectiveOrder_eq_ok heffective
  obtain ⟨opening, hcount⟩ := ResourceLimits.checkPositions_eq_ok.1 (hcheck limits hlimits)
  rcases ResourceLimits.countPositions_cases hroom h.qty_range.1.le
    (hs.waiting_pos m.symbol order.side) with hwithin | ⟨hfull, -⟩
  · exact hwithin
  · exact absurd (hcount.symm.trans hfull) (by simp)

/-- What the match of an accepted order opens: the start of what its plan opens, and all of it when
the match was not stopped. -/
theorem Executed.opened {s : MatcherState} (hs : s.WellFormed) {m : NewMessage}
    {order : IncomingOrder} (haccepted : s.Accepted m order) {left : Int} {after : BookAndTrades}
    (h : s.Executed order left after) :
    after.positions.keys \ s.positions.keys ⊆
        keysOf order (openedBy order s.positions (planFills order (s.bookOf m.symbol))) ∧
      (Stopped order left after → after.positions.keys \ s.positions.keys =
        keysOf order (openedBy order s.positions (planFills order (s.bookOf m.symbol)))) := by
  obtain ⟨reserved, -, hfills⟩ := h.filled
  have hbook : s.bookOf m.symbol = (s.bookAndTrades order.symbol).book := by
    rw [haccepted.symbol_eq]
    rfl
  have hpos := hs.waiting_pos order.symbol order.side
  have hplan : planFills order (s.bookAndTrades order.symbol).book =
      plannedOf (walkOf order (s.bookAndTrades order.symbol).book) :=
    planFills_eq haccepted.qty_range.1.le hpos
  obtain ⟨made, hwalk, hkeys⟩ := hfills.opened hpos
  have hwalk : walkOf order (s.bookAndTrades order.symbol).book = made ++ _ := hwalk
  have hopened : after.positions.keys \ s.positions.keys =
      keysOf order (openedBy order s.positions (plannedOf made)) := keys_sdiff hkeys
  rw [hbook, hplan, hopened, hwalk]
  constructor
  · refine keysOf_mono (without_mono ?_)
    rw [plannedOf, plannedOf, List.map_append, parties_append]
    exact Finset.subset_union_left
  · intro hstopped
    have hbefore : MatchInv s.symbols s.lastSeen s.books order order.qtyTenths
        { s.bookAndTrades order.symbol with ledger := reserved } := hs.matchInv haccepted
    rw [fills_of_stopped (hbefore.fills hfills).noEmptyLevel hstopped, List.append_nil]

/-! ## The limits over a run -/

/-- Checks the size of everything the engine holds. -/
def validateResourceCapacity (s : MatcherState) : Except String Unit :=
  match s.resourceLimits with
  | none => .ok ()
  | some limits =>
      require (s.openOrders.size ≤ limits.maxActiveOrders ∧ s.positions.size ≤ limits.maxPositions ∧
          s.symbols.size ≤ limits.maxSymbols)
        "restored execution state exceeds its committed resource limits"

/-- The engine runs under these limits and is within them. -/
structure WithinLimits (limits : ResourceLimits) (s : MatcherState) : Prop where
  policy : s.resourceLimits = some limits
  orders : s.openOrders.size ≤ limits.maxActiveOrders
  positions : s.positions.size ≤ limits.maxPositions
  symbols : s.symbols.size ≤ limits.maxSymbols

/-- A listing that may be opened keeps the registry within its limit. -/
theorem size_of_listingOf {limits : ResourceLimits} {s : MatcherState}
    {m : ListSymbolMessage} {listing : Listing} (hpolicy : s.resourceLimits = some limits)
    (hsymbols : s.symbols.size ≤ limits.maxSymbols) (h : s.listingOf m = some listing) :
    (s.symbols.insert m.symbol listing).size ≤ limits.maxSymbols := by
  unfold listingOf at h
  split_ifs at h with hname hfull
  have hroom : s.symbols.contains m.symbol = true ∨ s.symbols.size < limits.maxSymbols := by
    by_contra hnone
    push Not at hnone
    exact hfull ⟨limits, hpolicy, by simpa using hnone.1, hnone.2⟩
  rcases hroom with hheld | hroom
  · obtain ⟨old, hold⟩ := SortedMap.contains_iff.1 hheld
    rw [SortedMap.size_insert_of_get? hold]
    exact hsymbols
  · exact (SortedMap.size_insert_le _ _ _).trans hroom

theorem WithinLimits.validate {limits : ResourceLimits} {s : MatcherState}
    (h : WithinLimits limits s) : s.validateResourceCapacity = .ok () := by
  rw [validateResourceCapacity, h.policy]
  exact require_eq_ok.2 ⟨h.orders, h.positions, h.symbols⟩

/-- A match only takes orders out of the index. -/
theorem Executed.openOrders_size {s : MatcherState} {order : IncomingOrder} {left : Int}
    {after : BookAndTrades} (h : s.Executed order left after) :
    after.openOrders.size ≤ s.openOrders.size := by
  obtain ⟨reserved, -, hfills⟩ := h.filled
  refine Fills.invariant (P := fun _ into => into.openOrders.size ≤ s.openOrders.size) ?_ hfills
    le_rfl
  intro remaining before e _ hbefore
  refine le_trans ?_ hbefore
  show (indexAfter before.openOrders e.maker.id (e.makerLeft remaining)).size ≤ _
  unfold indexAfter
  split_ifs
  · exact SortedMap.size_erase_le _ _
  · exact le_rfl

theorem WithinLimits.matched {limits : ResourceLimits} {s t : MatcherState}
    (h : WithinLimits limits s) (hs : s.WellFormed) {m : NewMessage} {order : IncomingOrder}
    {left : Int} {after : BookAndTrades} (haccepted : s.Accepted m order)
    (hexecuted : s.Executed order left after) (hfinished : Finished s order left after t) :
    WithinLimits limits t := by
  have hopen := hexecuted.openOrders_size
  have hpositions : after.positions.size ≤ limits.maxPositions := by
    obtain ⟨_, -, -, hcard⟩ := haccepted.counted hs h.policy h.positions
    have hnew := Finset.card_le_card (hexecuted.opened hs haccepted).1
    calc
      after.positions.size = after.positions.keys.card := (SortedMap.card_keys _).symm
      _ ≤ (after.positions.keys \ s.positions.keys).card + s.positions.keys.card :=
        Finset.card_le_card_sdiff_add_card
      _ ≤ (openedBy order s.positions (planFills order (s.bookOf m.symbol))).card +
          s.positions.size := by
        rw [SortedMap.card_keys]
        exact Nat.add_le_add_right (hnew.trans Finset.card_image_le) _
      _ ≤ limits.maxPositions := by omega
  cases hfinished with
  | overflowed => exact ⟨h.policy, hopen.trans h.orders, hpositions, h.symbols⟩
  | filled => exact ⟨h.policy, hopen.trans h.orders, hpositions, h.symbols⟩
  | cancelled => exact ⟨h.policy, hopen.trans h.orders, hpositions, h.symbols⟩
  | rested =>
      -- The place was free before the match, and the match took none.
      obtain ⟨arrived, hadmitted, -⟩ := haccepted.checked
      obtain ⟨_, -, -, hcapacity, -⟩ := admitOrder_eq_ok hadmitted
      have hroom : s.openOrders.size < limits.maxActiveOrders :=
        require_eq_ok.1 hcapacity limits (by rw [h.policy]; rfl)
      refine ⟨h.policy, ?_, hpositions, h.symbols⟩
      calc
        (rest order left after).openOrders.size ≤ after.openOrders.size + 1 :=
          SortedMap.size_insert_le _ _ _
        _ ≤ s.openOrders.size + 1 := Nat.add_le_add_right hopen 1
        _ ≤ limits.maxActiveOrders := hroom

theorem WithinLimits.dispatch {limits : ResourceLimits} {env : Primitives} {s t : MatcherState}
    (h : WithinLimits limits s) (hs : s.WellFormed) {message : OrderMessage}
    (hdispatch : dispatch env s message = .ok t) : WithinLimits limits t := by
  cases dispatch_cases hs.noEmptyLevel hdispatch with
  | refused | refusedOnBook | cancelRejected | ignored | ruled =>
      exact ⟨h.policy, h.orders, h.positions, h.symbols⟩
  | matched _ _ _ _ _ haccepted hexecuted hfinished =>
      exact h.matched hs haccepted hexecuted hfinished
  | cancelIgnored | cancelled =>
      exact ⟨h.policy, (SortedMap.size_erase_le _ _).trans h.orders, h.positions, h.symbols⟩
  | listed m key count _ listing hlisting _ =>
      refine ⟨h.policy, h.orders, h.positions, ?_⟩
      exact size_of_listingOf h.policy h.symbols hlisting
  | delisted m key count _ listing cleared hlisting hcleared =>
      have hsymbols : (s.symbols.insert m.symbol { listing with listed := false }).size ≤
          limits.maxSymbols := by
        rw [SortedMap.size_insert_of_get? (Option.filter_eq_some_iff.1 hlisting).1]
        exact h.symbols
      rcases clearBook_eq_ok hcleared with ⟨-, rfl⟩ | ⟨_, ledger, -, -, rfl⟩
      · exact ⟨h.policy, h.orders, h.positions, hsymbols⟩
      · exact ⟨h.policy, (SortedMap.size_filter_le _ _).trans h.orders, h.positions, hsymbols⟩

theorem WithinLimits.apply {limits : ResourceLimits} {env : Primitives} {s s' : MatcherState}
    (h : WithinLimits limits s) (hs : s.WellFormed) {message : OrderMessage}
    {received : Option Bytes} (happly : s.apply env message received = .ok s') :
    WithinLimits limits s' := by
  obtain ⟨-, t, hdispatch, hconsume⟩ := apply_eq_ok happly
  have ht := h.dispatch hs hdispatch
  simp only [consume, bind_eq_ok, expect_eq_ok] at hconsume
  obtain ⟨ledger, -, hconsume⟩ := hconsume
  cases hconsume
  exact ⟨ht.policy, ht.orders, ht.positions, ht.symbols⟩

/-- A genesis under these limits, with a registry that is within them. -/
structure LimitedGenesis (limits : ResourceLimits) (start : MatcherState) : Prop where
  opened : ∃ genesis session pubkey recording opening,
    ExecutionGenesis.opening genesis session pubkey recording = .ok opening ∧
      genesis.resourceLimits = some limits ∧ start = { opening with symbols := start.symbols }
  rows : RegistryInv start.symbols
  symbols : start.symbols.size ≤ limits.maxSymbols

theorem LimitedGenesis.wellFormed {limits : ResourceLimits} {start : MatcherState}
    (h : LimitedGenesis limits start) : start.WellFormed := by
  obtain ⟨genesis, session, pubkey, recording, opening, hopening, -, hstart⟩ := h.opened
  obtain ⟨ledger, hledger, -, rfl⟩ := ExecutionGenesis.opening_eq_ok hopening
  rw [hstart]
  exact {
    books := BookInv.empty
    noEmptyBook := by simp [NoEmptyBook, MatcherState.new]
    registry := h.rows
    sequence := lastSequence_openingLedger hledger }

theorem LimitedGenesis.withinLimits {limits : ResourceLimits} {start : MatcherState}
    (h : LimitedGenesis limits start) : WithinLimits limits start := by
  obtain ⟨genesis, session, pubkey, recording, opening, hopening, hlimits, hstart⟩ := h.opened
  obtain ⟨ledger, -, -, rfl⟩ := ExecutionGenesis.opening_eq_ok hopening
  have hsymbols := h.symbols
  rw [hstart] at hsymbols ⊢
  exact ⟨hlimits, Nat.zero_le _, Nat.zero_le _, hsymbols⟩

theorem LimitedGenesis.reaches {limits : ResourceLimits} {env : Primitives}
    {start s : MatcherState} (h : LimitedGenesis limits start) (hs : Reaches env start s) :
    s.WellFormed ∧ WithinLimits limits s := by
  induction hs with
  | refl => exact ⟨h.wellFormed, h.withinLimits⟩
  | applied _ happly ih => exact ⟨ih.1.apply happly, ih.2.apply ih.1 happly⟩

/-- A refusal for position capacity is a plan that would go past the limit. -/
theorem WithinLimits.of_refusal {limits : ResourceLimits} {s : MatcherState}
    (h : WithinLimits limits s) (hs : s.WellFormed) {m : NewMessage}
    (hverdict : s.verdict m = .error ⟨"position_capacity"⟩) :
    ∃ arrived limitCents, s.admitOrder m = .ok arrived ∧
      bound arrived (s.mids.referenceCents m.symbol m.timestamp) = .ok limitCents ∧
      limits.maxPositions < s.positions.size +
        (openedBy { arrived with limitCents := limitCents } s.positions
          (planFills { arrived with limitCents := limitCents } (s.bookOf m.symbol))).card := by
  simp only [verdict, prepare, effectiveOrder, checkSelfTrade, bind_eq_error] at hverdict
  -- Of the checks on the way only one gives this reason.
  rcases hverdict with hadmitted | ⟨arrived, hadmitted, (hbound | ⟨limitCents, hbound, hself |
    ⟨_, -, hlimits⟩⟩) | ⟨order, -, hstage | ⟨_, -, hdone⟩⟩⟩
  · exact absurd (blames_admitOrder s m _ hadmitted) (by decide)
  · exact absurd (blames_bound _ _ _ hbound) (by decide)
  · obtain ⟨-, hreason⟩ := require_eq_error.1 hself
    exact absurd hreason (by decide)
  · obtain ⟨terms, hterms, rfl, -, -⟩ := admitOrder_eq_ok hadmitted
    refine ⟨_, limitCents, hadmitted, hbound, ?_⟩
    rw [h.policy] at hlimits
    simp only [bind_eq_error] at hlimits
    have hrefused := hlimits.resolve_right (by rintro ⟨_, -, hdone⟩; cases hdone)
    have hcheck := ResourceLimits.checkPositions_eq_error.1 hrefused
    have hqty : 0 ≤ terms.2 := by
      obtain ⟨_, -, -, hgrid, -⟩ := resolve_eq_ok hterms
      exact (toGrid_range hgrid).1.le
    rcases @ResourceLimits.countPositions_cases limits
      { incomingOf m terms with limitCents := limitCents } _ _ h.positions hqty
      (hs.waiting_pos m.symbol m.side) with ⟨opening, hcount, -⟩ | ⟨-, hfull⟩
    · exact absurd (hcheck.symm.trans hcount) (by simp)
    · exact hfull
  · exact absurd (blames_stage _ _ _ hstage) (by decide)
  · cases hdone

/-- The positions an order creates are those that were counted for it, or fewer where a total would
have left its range. -/
def OpensCounted (limits : ResourceLimits) (s : MatcherState) (order : IncomingOrder)
    (matched : Matched) (s' : MatcherState) : Prop :=
  ∃ opening, limits.countPositions order (s.bookOf order.symbol) s.positions = .ok opening ∧
    match matched with
    | .crossed _ => s'.positions.keys \ s.positions.keys = keysOf order opening.added.toFinset
    | .overflowed _ => s'.positions.keys \ s.positions.keys ⊆ keysOf order opening.added.toFinset

/-- The limits of a genesis hold in every state of a run, the count they are checked on is what
execution creates, and an order is refused for positions only where its plan would go past the
limit. -/
theorem limits_hold {env : Primitives} {limits : ResourceLimits} {start s : MatcherState}
    (hstart : LimitedGenesis limits start) (hs : Reaches env start s) :
    s.validateResourceCapacity = .ok () ∧
    (∀ m order staged matched after received s', s.verdict m = .ok (order, staged) →
      runMatch order staged (s.bookAndTrades order.symbol) = .ok (matched, after) →
      s.apply env (.new m) received = .ok s' → OpensCounted limits s order matched s') ∧
    (∀ m, s.verdict m = .error ⟨"position_capacity"⟩ →
      ∃ arrived limitCents, s.admitOrder m = .ok arrived ∧
        bound arrived (s.mids.referenceCents m.symbol m.timestamp) = .ok limitCents ∧
        limits.maxPositions < s.positions.size +
          (openedBy { arrived with limitCents := limitCents } s.positions
            (planFills { arrived with limitCents := limitCents } (s.bookOf m.symbol))).card) := by
  obtain ⟨hwell, hwithin⟩ := hstart.reaches hs
  refine ⟨hwithin.validate, ?_, fun m hverdict => hwithin.of_refusal hwell hverdict⟩
  intro m order staged matched after received s' hverdict hrun happly
  obtain ⟨haccepted, hstage⟩ := accepted_of_verdict hverdict
  obtain ⟨left, hexecuted, hmatched⟩ := runMatch_executed haccepted.qty_range.1
    (hwell.noEmptyLevel order.symbol order.side) hstage hrun
  have hpositions : s'.positions = after.positions := by
    obtain ⟨-, t, hdispatch, hconsume⟩ := apply_eq_ok happly
    obtain ⟨-, -, -, -, -, -, -, hsame, -⟩ := consume_eq_ok hconsume
    have hnew : s.applyNew m = .ok t := hdispatch
    rw [applyNew_of_accepted hverdict, ← haccepted.symbol_eq, hrun] at hnew
    obtain ⟨_, -, -, -, hafter, -⟩ := finishMatch_parts hnew
    rw [hsame, hafter]
  obtain ⟨opening, hcount, hset, -⟩ := haccepted.counted hwell hwithin.policy hwithin.positions
  obtain ⟨hfewer, hall⟩ := hexecuted.opened hwell haccepted
  refine ⟨opening, by rw [haccepted.symbol_eq]; exact hcount, ?_⟩
  rw [hpositions, hset]
  rcases hmatched with ⟨rfl, hstopped⟩ | ⟨rfl, -⟩
  · exact hall hstopped
  · exact hfewer

namespace Sample

/-! The short log under limits that leave no place for a third position. -/

def limits : ResourceLimits where
  maxActiveOrders := 3
  maxPositions := 2
  maxSymbols := 1
  inRange := by decide

def limitedStart : MatcherState := { start with resourceLimits := some limits }

def limitedState : MatcherState := (run env limitedStart log).toOption.getD .new

/-- A third account's order, which would trade. -/
def thirdAccount : NewMessage where
  id := 5
  timestamp := 1004
  account := 3
  symbol := "ETH-USDC"
  side := .buy
  price := .ofNat 101
  quantity := .ofNat 1
  nonce := none
  terms := { orderType := .limit, timeInForce := .goodTillCancel, postOnly := false }

theorem limitedState_values :
    (run env limitedStart log).toOption.isSome = true ∧ limitedState.positions.size = 2 ∧
      limitedState.refusal thirdAccount = some ⟨"position_capacity"⟩ := by
  decide +kernel

theorem reaches_limitedState : Reaches env limitedStart limitedState :=
  reaches_of_run (eq_ok_getD limitedState_values.1)

theorem limitedGenesis_start : LimitedGenesis limits limitedStart where
  opened := ⟨⟨.syntheticLegacy, none, some limits⟩, some session, none, false, limitedStart,
    by decide +kernel, rfl, rfl⟩
  rows := by simp [RegistryInv, limitedStart, start, MatcherState.new]
  symbols := Nat.zero_le _

end Sample

/-- Two accounts hold the two positions of the short log, and a third one's order is refused. -/
theorem limits_hold_sample :
    Sample.limitedState.validateResourceCapacity = .ok () ∧
      ∃ order : IncomingOrder, 2 < Sample.limitedState.positions.size +
        (openedBy order Sample.limitedState.positions
          (planFills order (Sample.limitedState.bookOf "ETH-USDC"))).card := by
  obtain ⟨hvalid, -, hrefused⟩ :=
    limits_hold Sample.limitedGenesis_start Sample.reaches_limitedState
  have hrefusal : Sample.limitedState.verdict Sample.thirdAccount =
      .error ⟨"position_capacity"⟩ := refusal_eq_some.1 Sample.limitedState_values.2.2
  obtain ⟨arrived, limitCents, -, -, hfull⟩ := hrefused _ hrefusal
  exact ⟨hvalid, _, hfull⟩

end MatcherState

end Matcher
end VerifiableExchange
