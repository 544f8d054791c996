import VerifiableExchange.Matcher.Root
import VerifiableExchange.Matcher.Run

/-!
# Alike — engines that decide alike

`Alike` relates two engines that agree on everything a message can depend on. They may differ in the
trade window, the totals per symbol, the recent messages and the counters, and in which message
opened a listing. Alike engines answer every message alike and stay alike.
-/

namespace VerifiableExchange
namespace Matcher

open Lib

/-! ## What is watched -/

/-- What is asked of the changes two engines record, and whether their counters must agree. -/
structure Watch where
  changes : Option (List Change) → Option (List Change) → Prop
  /-- One more change on both sides is one more agreement. -/
  closed : ∀ p q change, changes p q → changes (record p change) (record q change)
  tally : Prop

namespace Watch

/-- Only what decides. -/
def decisions : Watch := ⟨fun _ _ => True, fun _ _ _ _ => trivial, False⟩

/-- Everything a message records and counts. -/
def effects : Watch := ⟨Eq, fun _ _ change h => congrArg (fun p => record p change) h, True⟩

/-- The first engine had recorded `before` when the second started its record. -/
def since (before : List Change) : Watch where
  changes p q := ∃ new, q = some new ∧ p = some (before ++ new)
  closed := by
    rintro _ _ change ⟨new, rfl, rfl⟩
    exact ⟨new ++ [change], rfl, by simp [record]⟩
  tally := False

end Watch

/-! ## The parts of a match -/

/-- The parts of two matches that decide alike, and record what the watch asks for. -/
structure PartsAlike (w : Watch) (x y : BookAndTrades) : Prop where
  book : x.book = y.book
  ledger : x.ledger = y.ledger
  openOrders : x.openOrders = y.openOrders
  positions : x.positions = y.positions
  tradesTotal : x.tradesTotal = y.tradesTotal
  pending : w.changes x.pending y.pending

namespace PartsAlike

variable {w : Watch} {x y : BookAndTrades}

theorem withLedger (h : PartsAlike w x y) (ledger : Ledger) :
    PartsAlike w { x with ledger := ledger } { y with ledger := ledger } :=
  ⟨h.book, rfl, h.openOrders, h.positions, h.tradesTotal, h.pending⟩

theorem commitFill (h : PartsAlike w x y) (order : IncomingOrder) (fill : PlannedFill)
    (makerNext takerNext : Position) (tradeId : Nat) :
    SameResult (PartsAlike w) (Matcher.commitFill order fill makerNext takerNext tradeId x)
      (Matcher.commitFill order fill makerNext takerNext tradeId y) := by
  unfold Matcher.commitFill
  rw [h.book, h.ledger, h.openOrders, h.positions, h.tradesTotal]
  refine SameResult.bind_left (fun maker _ => SameResult.bind_left (fun left _ => ?_))
  exact ⟨rfl, rfl, rfl, rfl, rfl, w.closed _ _ _ (w.closed _ _ _ h.pending)⟩

theorem settleAndCommit (h : PartsAlike w x y) (order : IncomingOrder) (fill : PlannedFill)
    (next : Position × Position) (tradeId : Nat) :
    SameResult (PartsAlike w) (Matcher.settleAndCommit order fill next tradeId x)
      (Matcher.settleAndCommit order fill next tradeId y) := by
  unfold Matcher.settleAndCommit
  rw [h.ledger]
  exact SameResult.bind_left (fun ledger _ => (h.withLedger ledger).commitFill order fill _ _ _)

/-- How two matches end alike. -/
def Ended (w : Watch) (a b : Matched × BookAndTrades) : Prop :=
  a.1 = b.1 ∧ PartsAlike w a.2 b.2

theorem executeLoop (order : IncomingOrder) :
    ∀ (fuel : Nat) (remaining : Int) {x y : BookAndTrades}, PartsAlike w x y →
      SameResult (Ended w) (Matcher.executeLoop order fuel remaining x)
        (Matcher.executeLoop order fuel remaining y)
  | 0, remaining, x, y, h => ⟨rfl, h⟩
  | fuel + 1, remaining, x, y, h => by
      unfold Matcher.executeLoop
      -- The loop reads the book, the positions and the trade count alone.
      rw [h.book, h.positions, h.tradesTotal]
      split_ifs with hleft
      · exact ⟨rfl, h⟩
      split
      · exact ⟨rfl, h⟩
      rename_i fill _
      split
      · rename_i next tradeId _ _
        rcases (h.settleAndCommit order fill next tradeId).cases with
          ⟨fault, hx, hy⟩ | ⟨x', y', hx, hy, halike⟩
        · rw [hx, hy]
          rfl
        · rw [hx, hy]
          exact executeLoop order fuel _ halike
      · exact ⟨rfl, h⟩

theorem commitPlanned (order : IncomingOrder) :
    ∀ (fills : List (PlannedFill × (Position × Position))) {x y : BookAndTrades},
      PartsAlike w x y →
      SameResult (PartsAlike w) (Matcher.commitPlanned order fills x)
        (Matcher.commitPlanned order fills y)
  | [], x, y, h => h
  | (fill, next) :: rest, x, y, h => by
      unfold Matcher.commitPlanned
      rw [h.tradesTotal]
      split
      · rfl
      · rename_i tradeId _
        rcases (h.commitFill order fill next.1 next.2 tradeId).cases with
          ⟨fault, hx, hy⟩ | ⟨x', y', hx, hy, halike⟩
        · rw [hx, hy]
          rfl
        · rw [hx, hy]
          exact commitPlanned order rest halike

theorem runMatch (h : PartsAlike w x y) (order : IncomingOrder)
    (staged : Option (FokPlan × Ledger)) :
    SameResult (Ended w) (MatcherState.runMatch order staged x)
      (MatcherState.runMatch order staged y) := by
  unfold MatcherState.runMatch
  split
  · rename_i plan ledger
    exact ((h.withLedger ledger).commitPlanned order _).bind (fun _ _ halike => ⟨rfl, halike⟩)
  · rw [h.ledger]
    refine SameResult.bind_left (fun ledger _ => ?_)
    have hbook : restingCount x.book order.side = restingCount y.book order.side := by rw [h.book]
    unfold Matcher.execute
    dsimp only
    rw [hbook]
    exact executeLoop order _ _ (h.withLedger ledger)

theorem rest (h : PartsAlike w x y) (order : IncomingOrder) (remaining : Int) :
    PartsAlike w (MatcherState.rest order remaining x) (MatcherState.rest order remaining y) := by
  unfold MatcherState.rest
  rw [h.book, h.openOrders]
  exact ⟨rfl, h.ledger, rfl, h.positions, h.tradesTotal, w.closed _ _ _ h.pending⟩

theorem finishRemainder (h : PartsAlike w x y) (order : IncomingOrder) (remaining : Int) :
    SameResult (PartsAlike w) (MatcherState.finishRemainder order remaining x)
      (MatcherState.finishRemainder order remaining y) := by
  unfold MatcherState.finishRemainder
  split_ifs
  · exact h
  · split
    · exact h.rest order remaining
    · rw [h.ledger]
      exact SameResult.bind_left (fun ledger _ => h.withLedger ledger)

end PartsAlike

/-! ## The engine -/

/-- What the counters of an engine say about the messages it did not act on, and the cancels it
did. -/
structure Tally where
  cancelsApplied : Nat
  cancelsIgnored : Nat
  cancelsRejected : Nat
  ordersIgnored : Nat
  kindsNotActedOn : Nat
  ordersIgnoredByKind : SortedMap String Nat
  listingsIgnored : Nat
  ordersDelisted : Nat
  deriving DecidableEq

/-- One more order that was left out. -/
def Tally.ignored (c : Tally) (why : Rejected) : Tally :=
  { c with
    ordersIgnored := saturatingAddU64 c.ordersIgnored 1
    ordersIgnoredByKind := c.ordersIgnoredByKind.insert why.kind
      (match c.ordersIgnoredByKind.get? why.kind with
        | some counted => saturatingAddU64 counted 1
        | none => 1) }

namespace MatcherState

def tally (s : MatcherState) : Tally where
  cancelsApplied := s.cancelsApplied
  cancelsIgnored := s.cancelsIgnored
  cancelsRejected := s.cancelsRejected
  ordersIgnored := s.ordersIgnored
  kindsNotActedOn := s.kindsNotActedOn
  ordersIgnoredByKind := s.ordersIgnoredByKind
  listingsIgnored := s.listingsIgnored
  ordersDelisted := s.ordersDelisted

/-- Two engines that agree on everything a message can depend on; `w` asks more of what they
record and count. -/
structure Alike (w : Watch) (s t : MatcherState) : Prop where
  extensions : ∀ name, name ≠ ledgerExtension → name ≠ resourceLimitsExtension →
    s.executionExtensions.get? name = t.executionExtensions.get? name
  resourceLimits : s.resourceLimits = t.resourceLimits
  symbols : s.symbols.mapValues Listing.terms = t.symbols.mapValues Listing.terms
  books : s.books = t.books
  openOrders : s.openOrders = t.openOrders
  tradesTotal : s.tradesTotal = t.tradesTotal
  positions : s.positions = t.positions
  ledger : s.ledger = t.ledger
  lastSeen : s.lastSeen = t.lastSeen
  rules : s.rules = t.rules
  operatorKey : s.operatorKey = t.operatorKey
  session : s.feedSession.getD "" = t.feedSession.getD ""
  pubkey : s.feedPubkey.getD "" = t.feedPubkey.getD ""
  chain : s.feedChain = t.feedChain
  mids : s.mids = t.mids
  pending : w.changes s.pending t.pending
  tally : w.tally → s.tally = t.tally

namespace Alike

variable {w : Watch} {s t : MatcherState}

theorem refl (s : MatcherState) : Alike .effects s s :=
  ⟨fun _ _ _ => rfl, rfl, rfl, rfl, rfl, rfl, rfl, rfl, rfl, rfl, rfl, rfl, rfl, rfl, rfl,
    rfl, fun _ => rfl⟩

theorem ignoreOrder (h : Alike w s t) (why : Rejected) :
    Alike w (s.ignoreOrder why) (t.ignoreOrder why) :=
  { h with
    tally := fun hs => congrArg (fun c : Tally => c.ignored why) (h.tally hs) }

theorem ignoreListing (h : Alike w s t) : Alike w s.ignoreListing t.ignoreListing :=
  { h with
    tally := fun hs => congrArg (fun c : Tally =>
      { c with listingsIgnored := saturatingAddU64 c.listingsIgnored 1 }) (h.tally hs) }

theorem bookAndTrades (h : Alike w s t) (symbol : String) :
    PartsAlike w (s.bookAndTrades symbol) (t.bookAndTrades symbol) where
  book := by simp only [MatcherState.bookAndTrades, h.books]
  ledger := h.ledger
  openOrders := h.openOrders
  positions := h.positions
  tradesTotal := h.tradesTotal
  pending := h.pending

theorem withBookAndTrades (h : Alike w s t) (symbol : String) {x y : BookAndTrades}
    (hparts : PartsAlike w x y) :
    Alike w (s.withBookAndTrades symbol x) (t.withBookAndTrades symbol y) :=
  { h with
    books := by simp only [MatcherState.withBookAndTrades, h.books, hparts.book]
    ledger := hparts.ledger
    openOrders := hparts.openOrders
    positions := hparts.positions
    tradesTotal := hparts.tradesTotal
    pending := hparts.pending }

theorem pruneBook (h : Alike w s t) (symbol : String) :
    Alike w (s.pruneBook symbol) (t.pruneBook symbol) :=
  { h with books := by simp only [MatcherState.pruneBook, h.books] }

theorem observeMid (h : Alike w s t) (symbol : String) (atMs : Nat) :
    Alike w (s.observeMid symbol atMs) (t.observeMid symbol atMs) :=
  { h with
    mids := by
      simp only [MatcherState.observeMid, bestBidCents, bestAskCents, h.books, h.mids] }

/-- A change both engines record. -/
theorem record (h : Alike w s t) (change : Change) :
    Alike w { s with pending := Matcher.record s.pending change }
      { t with pending := Matcher.record t.pending change } :=
  { h with pending := w.closed _ _ _ h.pending }

/-! ### Listings -/

theorem listing (h : Alike w s t) (symbol : String) :
    (SymbolRegistry.listing s.symbols symbol).map Listing.terms =
      (SymbolRegistry.listing t.symbols symbol).map Listing.terms := by
  have hrow := congrArg (fun m => m.get? symbol) h.symbols
  simp only [SortedMap.get?_mapValues] at hrow
  unfold SymbolRegistry.listing
  cases hs : s.symbols.get? symbol with
  | none =>
      cases ht : t.symbols.get? symbol with
      | none => rfl
      | some l => simp [hs, ht] at hrow
  | some l =>
      cases ht : t.symbols.get? symbol with
      | none => simp [hs, ht] at hrow
      | some l' =>
          simp only [hs, ht, Option.map_some, Option.some.injEq] at hrow
          have hlisted : l.listed = l'.listed := congrArg (fun terms => terms.2.2) hrow
          cases hl : l'.listed <;> simp [Option.filter, hlisted, hl, hrow]

/-- The listing of a symbol in both registries, where there is one. -/
theorem listing_cases (h : Alike w s t) (symbol : String) :
    (SymbolRegistry.listing s.symbols symbol = none ∧
      SymbolRegistry.listing t.symbols symbol = none) ∨
    ∃ l l', SymbolRegistry.listing s.symbols symbol = some l ∧
      SymbolRegistry.listing t.symbols symbol = some l' ∧ l.terms = l'.terms := by
  have hlisting := h.listing symbol
  cases hs : SymbolRegistry.listing s.symbols symbol with
  | none =>
      rw [hs] at hlisting
      exact Or.inl ⟨rfl, Option.map_eq_none_iff.1 hlisting.symm⟩
  | some l =>
      rw [hs] at hlisting
      obtain ⟨l', ht, hterms⟩ := Option.map_eq_some_iff.1 hlisting.symm
      exact Or.inr ⟨l, l', rfl, ht, hterms.symm⟩

theorem contains (h : Alike w s t) (symbol : String) :
    s.symbols.contains symbol = t.symbols.contains symbol := by
  have hrow := congrArg (fun m => (m.get? symbol).isSome) h.symbols
  simpa [SortedMap.contains] using hrow

theorem size (h : Alike w s t) : s.symbols.size = t.symbols.size := by
  have hlength := congrArg (fun m => m.entries.length) h.symbols
  simpa [SortedMap.mapValues, SortedMap.size] using hlength

theorem resolve (h : Alike w s t) (symbol : String) (price quantity : F64) :
    Matcher.resolve s.symbols symbol price quantity =
      Matcher.resolve t.symbols symbol price quantity := by
  unfold Matcher.resolve
  rcases h.listing_cases symbol with ⟨hs, ht⟩ | ⟨l, l', hs, ht, hterms⟩
  · rw [hs, ht]
  · have hprice : l.priceStepCents = l'.priceStepCents := congrArg Prod.fst hterms
    have hquantity : l.quantityStepTenths = l'.quantityStepTenths :=
      congrArg (fun terms => terms.2.1) hterms
    rw [hs, ht]
    simp only [orFail, bind, Except.bind, onSteps, hprice, hquantity]

/-! ### New orders -/

theorem admitOrder (h : Alike w s t) (m : NewMessage) : s.admitOrder m = t.admitOrder m := by
  simp only [MatcherState.admitOrder, checkCapacity, h.resolve, h.resourceLimits, h.openOrders,
    h.books]

theorem prepare (h : Alike w s t) (order : IncomingOrder) {x y : BookAndTrades}
    (hparts : PartsAlike w x y) : s.prepare order x = t.prepare order y := by
  simp only [MatcherState.prepare, effectiveOrder, stage, preflight, h.mids, h.rules,
    h.resourceLimits, h.positions, hparts.book, hparts.ledger, hparts.positions,
    hparts.tradesTotal]

theorem finishMatch (h : Alike w s t) (order : IncomingOrder) {a b : Matched × BookAndTrades}
    (hended : PartsAlike.Ended w a b) :
    SameResult (Alike w) (s.finishMatch order a) (t.finishMatch order b) := by
  obtain ⟨matched, x⟩ := a
  obtain ⟨matched', y⟩ := b
  obtain ⟨rfl, hparts⟩ := hended
  have hparts : PartsAlike w x y := hparts
  cases matched with
  | overflowed left =>
      unfold MatcherState.finishMatch
      dsimp only
      rw [hparts.ledger]
      refine SameResult.bind_left (fun ledger _ => ?_)
      exact (((h.withBookAndTrades order.symbol (hparts.withLedger ledger)).ignoreOrder _).pruneBook
        order.symbol).observeMid order.symbol order.timestamp
  | crossed left =>
      refine (hparts.finishRemainder order left).bind (fun x' y' hparts' => ?_)
      exact ((h.withBookAndTrades order.symbol hparts').pruneBook order.symbol).observeMid
        order.symbol order.timestamp

theorem applyNew (h : Alike w s t) (m : NewMessage) :
    SameResult (Alike w) (s.applyNew m) (t.applyNew m) := by
  unfold MatcherState.applyNew
  rw [h.admitOrder m]
  split
  · exact h.ignoreOrder _
  rename_i order _
  have hparts := h.bookAndTrades order.symbol
  simp only [matchOrder, h.prepare order hparts]
  split
  · exact ((h.withBookAndTrades order.symbol hparts).pruneBook order.symbol).ignoreOrder _
  rename_i order' staged _
  rcases (hparts.runMatch order' staged).cases with ⟨fault, hx, hy⟩ | ⟨a, b, hx, hy, hended⟩
  · rw [hx, hy]
    rfl
  · rw [hx, hy]
    exact h.finishMatch order' hended

/-! ### Cancels -/

theorem removeCancelled (h : Alike w s t) (ref : OrderRef) (target : OrderId)
    (timestamp : Nat) :
    SameResult (Alike w) (s.removeCancelled ref target timestamp)
      (t.removeCancelled ref target timestamp) := by
  unfold MatcherState.removeCancelled
  rw [h.ledger, h.books, h.openOrders]
  refine SameResult.bind_left (fun ledger _ => SameResult.bind_left (fun book _ => ?_))
  have hremoved : Alike w
      { s with
        ledger := ledger
        openOrders := t.openOrders.erase target
        books := t.books.insert ref.symbol (withoutOrder book ref target) }
      { t with
        ledger := ledger
        openOrders := t.openOrders.erase target
        books := t.books.insert ref.symbol (withoutOrder book ref target) } :=
    { h with ledger := rfl, openOrders := rfl, books := rfl }
  have hobserved := ((hremoved.pruneBook ref.symbol).observeMid ref.symbol timestamp).record
    (.orderClosed target)
  exact { hobserved with
    tally := fun hs => congrArg (fun c : Tally =>
      { c with cancelsApplied := saturatingAddU64 c.cancelsApplied 1 }) (hobserved.tally hs) }

theorem applyCancel (h : Alike w s t) (m : CancelMessage) :
    SameResult (Alike w) (s.applyCancel m) (t.applyCancel m) := by
  have howner : s.ownerOf m.targetId = t.ownerOf m.targetId := by
    simp only [ownerOf, h.openOrders, h.books]
  unfold MatcherState.applyCancel
  rw [howner]
  split
  · exact { h with
      openOrders := by
        show s.openOrders.erase _ = t.openOrders.erase _
        rw [h.openOrders]
      tally := fun hs => congrArg (fun c : Tally =>
        { c with cancelsIgnored := saturatingAddU64 c.cancelsIgnored 1 }) (h.tally hs) }
  · split_ifs
    · exact { h with
        tally := fun hs => congrArg (fun c : Tally =>
          { c with cancelsRejected := saturatingAddU64 c.cancelsRejected 1 }) (h.tally hs) }
    · exact h.removeCancelled _ _ _

/-! ### Operator messages -/

theorem listingOf (h : Alike w s t) (m : ListSymbolMessage) : s.listingOf m = t.listingOf m := by
  simp only [MatcherState.listingOf, h.resourceLimits, h.contains, h.size]

theorem applyListSymbol (h : Alike w s t) (m : ListSymbolMessage) :
    Alike w (s.applyListSymbol m) (t.applyListSymbol m) := by
  unfold MatcherState.applyListSymbol
  rw [h.listingOf m]
  split
  · exact h.ignoreListing
  rename_i listing _
  unfold SymbolRegistry.list
  rcases h.listing_cases m.symbol with ⟨hs, ht⟩ | ⟨l, l', hs, ht, -⟩
  · rw [hs, ht]
    have hsymbols : Alike w { s with symbols := s.symbols.insert m.symbol listing }
        { t with symbols := t.symbols.insert m.symbol listing } :=
      { h with
        symbols := by
          rw [SortedMap.mapValues_insert, SortedMap.mapValues_insert, h.symbols] }
    exact hsymbols.record _
  · rw [hs, ht]
    exact h.ignoreListing

theorem closeResting (h : Alike w s t) (o : RestingOrder) :
    SameResult (Alike w) (s.closeResting o) (t.closeResting o) := by
  unfold MatcherState.closeResting
  rw [h.ledger]
  refine SameResult.bind_left (fun ledger _ => ?_)
  have hclosed : Alike w
      { s with ledger := ledger, openOrders := s.openOrders.erase o.id }
      { t with ledger := ledger, openOrders := t.openOrders.erase o.id } :=
    { h with
      ledger := rfl
      openOrders := by
        show s.openOrders.erase _ = t.openOrders.erase _
        rw [h.openOrders] }
  exact hclosed.record _

theorem foldlM_closeResting : ∀ (orders : List RestingOrder) {s t : MatcherState},
    Alike w s t →
    SameResult (Alike w) (orders.foldlM MatcherState.closeResting s)
      (orders.foldlM MatcherState.closeResting t)
  | [], s, t, h => h
  | o :: orders, s, t, h => by
      rw [List.foldlM_cons, List.foldlM_cons]
      exact (h.closeResting o).bind (fun _ _ halike => foldlM_closeResting orders halike)

theorem clearBook (h : Alike w s t) (symbol : String) :
    SameResult (Alike w) (s.clearBook symbol) (t.clearBook symbol) := by
  unfold MatcherState.clearBook
  rw [h.books]
  split
  · exact h
  · rename_i book _
    have hbooks : Alike w { s with books := t.books.erase symbol }
        { t with books := t.books.erase symbol } := { h with books := rfl }
    refine (foldlM_closeResting (restingOrders book) hbooks).bind (fun u v halike => ?_)
    exact { halike with
      tally := fun hs => congrArg (fun c : Tally =>
        { c with ordersDelisted := saturatingAddU64 c.ordersDelisted (restingOrders book).length })
        (halike.tally hs) }

theorem applyDelistSymbol (h : Alike w s t) (m : DelistSymbolMessage) :
    SameResult (Alike w) (s.applyDelistSymbol m) (t.applyDelistSymbol m) := by
  unfold MatcherState.applyDelistSymbol SymbolRegistry.delist
  rcases h.listing_cases m.symbol with ⟨hs, ht⟩ | ⟨l, l', hs, ht, hterms⟩
  · rw [hs, ht]
    exact h.ignoreListing
  · rw [hs, ht]
    have hdelisted : Listing.terms { l with listed := false } =
        Listing.terms { l' with listed := false } :=
      congrArg (fun terms : Int × Int × Bool => (terms.1, terms.2.1, false)) hterms
    have hsymbols : Alike w
        { s with symbols := s.symbols.insert m.symbol { l with listed := false } }
        { t with symbols := t.symbols.insert m.symbol { l' with listed := false } } :=
      { h with
        symbols := by
          rw [SortedMap.mapValues_insert, SortedMap.mapValues_insert, h.symbols, hdelisted] }
    refine (hsymbols.clearBook m.symbol).bind (fun u v halike => ?_)
    exact (halike.observeMid m.symbol m.timestamp).record _

theorem applyEngineRule (h : Alike w s t) (m : EngineRuleMessage) :
    Alike w (s.applyEngineRule m) (t.applyEngineRule m) := by
  unfold MatcherState.applyEngineRule
  split
  · exact { h with rules := rfl }
  · exact { h with
      tally := fun hs => congrArg (fun c : Tally =>
        { c with kindsNotActedOn := saturatingAddU64 c.kindsNotActedOn 1 }) (h.tally hs) }

theorem operatorSigned (h : Alike w s t) (env : Primitives) (message : OrderMessage) :
    Alike w (MatcherState.operatorSigned env s message).1
        (MatcherState.operatorSigned env t message).1 ∧
      (MatcherState.operatorSigned env s message).2 =
        (MatcherState.operatorSigned env t message).2 := by
  unfold MatcherState.operatorSigned
  rw [h.operatorKey, h.session]
  dsimp only
  split
  · split_ifs
    · exact ⟨h, rfl⟩
    · exact ⟨h.ignoreListing, rfl⟩
  · split
    · exact ⟨h.ignoreListing, rfl⟩
    · split_ifs
      · exact ⟨{ h with operatorKey := rfl }, rfl⟩
      · exact ⟨h.ignoreListing, rfl⟩

theorem whenSigned (h : Alike w s t) (env : Primitives) (message : OrderMessage)
    {act : MatcherState → Except Fault MatcherState}
    (hact : ∀ {u v}, Alike w u v → SameResult (Alike w) (act u) (act v)) :
    SameResult (Alike w) (MatcherState.whenSigned env s message act)
      (MatcherState.whenSigned env t message act) := by
  obtain ⟨halike, hsigned⟩ := h.operatorSigned env message
  unfold MatcherState.whenSigned
  cases hs : MatcherState.operatorSigned env s message with
  | mk u signed =>
      cases ht : MatcherState.operatorSigned env t message with
      | mk v signed' =>
          rw [hs, ht] at halike hsigned
          have hsigned : signed = signed' := hsigned
          subst hsigned
          cases signed with
          | true => exact hact halike
          | false => exact halike

/-! ### One message -/

theorem dispatch (h : Alike w s t) (env : Primitives) (message : OrderMessage) :
    SameResult (Alike w) (MatcherState.dispatch env s message)
      (MatcherState.dispatch env t message) := by
  cases message with
  | new m => exact h.applyNew m
  | cancel m => exact h.applyCancel m
  | listSymbol m => exact h.whenSigned env _ (fun halike => halike.applyListSymbol m)
  | delistSymbol m => exact h.whenSigned env _ (fun halike => halike.applyDelistSymbol m)
  | engineRule m => exact h.whenSigned env _ (fun halike => halike.applyEngineRule m)

theorem consume (h : Alike w s t) (env : Primitives) (message : OrderMessage)
    (received : Option Bytes) :
    SameResult (Alike w) (MatcherState.consume env s message received)
      (MatcherState.consume env t message received) := by
  unfold MatcherState.consume
  rw [h.ledger, h.chain]
  refine SameResult.bind_left (fun ledger _ => ?_)
  exact { h with
    ledger := rfl
    lastSeen := rfl
    chain := rfl
    pending := w.closed _ _ _ h.pending }

/-- Alike engines take a message alike and stay alike. -/
theorem apply (h : Alike w s t) (env : Primitives) (message : OrderMessage)
    (received : Option Bytes) :
    SameResult (Alike w) (s.apply env message received) (t.apply env message received) := by
  have hnext : s.nextExpectedId = t.nextExpectedId := by simp only [nextExpectedId, h.lastSeen]
  unfold MatcherState.apply
  rw [hnext]
  split_ifs
  · rfl
  · rcases (h.dispatch env message).cases with ⟨fault, hx, hy⟩ | ⟨u, v, hx, hy, halike⟩
    · rw [hx, hy]
      rfl
    · rw [hx, hy]
      exact halike.consume env message received

/-- Alike engines run a whole log alike. -/
theorem run (env : Primitives) : ∀ (log : List (OrderMessage × Option Bytes)) {s t : MatcherState},
    Alike w s t → SameResult (Alike w) (MatcherState.run env s log)
      (MatcherState.run env t log)
  | [], s, t, h => h
  | m :: log, s, t, h => by
      unfold MatcherState.run
      rw [List.foldlM_cons, List.foldlM_cons]
      exact (h.apply env m.1 m.2).bind (fun _ _ halike => run env log halike)

theorem run_eq_ok (h : Alike w s t) {env : Primitives}
    {log : List (OrderMessage × Option Bytes)} {s' : MatcherState}
    (hrun : MatcherState.run env s log = .ok s') :
    ∃ t', MatcherState.run env t log = .ok t' ∧ Alike w s' t' :=
  (h.run env log).exists_ok hrun

end Alike

end MatcherState

end Matcher
end VerifiableExchange
