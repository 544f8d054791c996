import VerifiableExchange.Matcher.Fills

/-!
# Outcome — what one message can do

One inversion lemma for each kind of message. Invariants are proved from these, so a proof about
the engine's runs never unfolds the engine.
-/

namespace VerifiableExchange
namespace Matcher
namespace MatcherState

open Lib

/-! ## New orders -/

/-- The order `order` is the message `m`, past every check on the state `s`. -/
structure Accepted (s : MatcherState) (m : NewMessage) (order : IncomingOrder) : Prop where
  checked : ∃ arrived, s.admitOrder m = .ok arrived ∧
    s.effectiveOrder arrived (s.books.getD m.symbol .default) = .ok order

/-- A match of `order` on `s`: its funds are set aside and fills follow one another. -/
structure Executed (s : MatcherState) (order : IncomingOrder) (left : Int)
    (after : BookAndTrades) : Prop where
  filled : ∃ reserved, s.ledger.reserve order.id order.account order.symbol order.side
      order.limitCents order.qtyTenths = .ok reserved ∧
    Fills order order.qtyTenths { s.bookAndTrades order.symbol with ledger := reserved } left after

/-- How the engine goes on after a match that left `left` tenths unfilled. -/
inductive Finished (s : MatcherState) (order : IncomingOrder) (left : Int)
    (after : BookAndTrades) : MatcherState → Prop
  | overflowed (hleft : 0 < left) (ledger : Ledger) (released : Bool)
      (hrelease : after.ledger.release order.id = .ok (ledger, released)) :
      Finished s order left after
        ((((s.withBookAndTrades order.symbol { after with ledger := ledger }).ignoreOrder
          ⟨"position_overflow"⟩).pruneBook order.symbol).observeMid order.symbol order.timestamp)
  | filled (hleft : left ≤ 0) :
      Finished s order left after
        (((s.withBookAndTrades order.symbol after).pruneBook order.symbol).observeMid
          order.symbol order.timestamp)
  | rested (hleft : 0 < left) (hstopped : Stopped order left after)
      (hdecide : decideRemainder order = .rest) :
      Finished s order left after
        (((s.withBookAndTrades order.symbol (rest order left after)).pruneBook
          order.symbol).observeMid order.symbol order.timestamp)
  | cancelled (hleft : 0 < left) (hstopped : Stopped order left after)
      (hdecide : decideRemainder order = .cancel) (ledger : Ledger) (released : Bool)
      (hrelease : after.ledger.release order.id = .ok (ledger, released)) :
      Finished s order left after
        (((s.withBookAndTrades order.symbol { after with ledger := ledger }).pruneBook
          order.symbol).observeMid order.symbol order.timestamp)

/-- The engine after an order was refused with its book already open. -/
def refusedOnBook (s : MatcherState) (symbol : String) (why : Rejected) : MatcherState :=
  ((s.withBookAndTrades symbol (s.bookAndTrades symbol)).pruneBook symbol).ignoreOrder why

theorem effectiveOrder_eq_ok {s : MatcherState} {arrived order : IncomingOrder} {book : Book}
    (h : s.effectiveOrder arrived book = .ok order) :
    ∃ limitCents, bound arrived (s.mids.referenceCents arrived.symbol arrived.timestamp) =
        .ok limitCents ∧ order = { arrived with limitCents := limitCents } ∧
      (s.rules.atLeast 2 = true → ownOrderInTheWay order book = none) ∧
      ∀ limits, s.resourceLimits = some limits →
        limits.checkPositions order book s.positions = .ok () := by
  simp only [effectiveOrder, bind_eq_ok, checkSelfTrade, require_eq_ok] at h
  obtain ⟨limitCents, hbound, _, hself, h⟩ := h
  refine ⟨limitCents, hbound, ?_⟩
  cases hlimits : s.resourceLimits with
  | none =>
      rw [hlimits] at h
      cases h
      exact ⟨rfl, hself, by simp⟩
  | some limits =>
      rw [hlimits] at h
      simp only [bind_eq_ok] at h
      obtain ⟨_, hcheck, h⟩ := h
      cases h
      refine ⟨rfl, hself, ?_⟩
      intro _ hsome
      cases hsome
      exact hcheck

theorem admitOrder_eq_ok {s : MatcherState} {m : NewMessage} {order : IncomingOrder}
    (h : s.admitOrder m = .ok order) :
    ∃ terms, resolve s.symbols m.symbol m.price m.quantity = .ok terms ∧
      order = incomingOf m terms ∧ s.checkCapacity = .ok () ∧
      validate order (s.books.get? m.symbol) = .ok () := by
  simp only [admitOrder, bind_eq_ok] at h
  obtain ⟨terms, hterms, _, hcapacity, _, hvalid, h⟩ := h
  cases h
  exact ⟨terms, hterms, rfl, hcapacity, hvalid⟩

namespace Accepted

variable {s : MatcherState} {m : NewMessage} {order : IncomingOrder}

/-- An accepted order keeps the message's own fields, and its terms fit the listing. -/
theorem terms (h : s.Accepted m order) :
    ∃ limitCents qtyTenths listing,
      order = { incomingOf m (limitCents, qtyTenths) with limitCents := order.limitCents } ∧
        SymbolRegistry.listing s.symbols m.symbol = some listing ∧
        toGrid m.price 100 = some limitCents ∧ toGrid m.quantity 10 = some qtyTenths ∧
        limitCents.tmod listing.priceStepCents = 0 ∧
        qtyTenths.tmod listing.quantityStepTenths = 0 ∧
        (m.terms.orderType = .limit → order.limitCents = limitCents) := by
  obtain ⟨arrived, hadmit, heffective⟩ := h.checked
  obtain ⟨terms, hterms, rfl, -, -⟩ := admitOrder_eq_ok hadmit
  obtain ⟨listing, hlisting, hlimit, hqty, hprice, hlot⟩ := resolve_eq_ok hterms
  obtain ⟨limitCents, hbound, rfl, -, -⟩ := effectiveOrder_eq_ok heffective
  exact ⟨terms.1, terms.2, listing, rfl, hlisting, hlimit, hqty, hprice, hlot,
    fun htype => bound_of_limit htype hbound⟩

theorem symbol_eq (h : s.Accepted m order) : order.symbol = m.symbol := by
  obtain ⟨_, _, _, horder, _⟩ := h.terms
  rw [horder]
  rfl

theorem id_eq (h : s.Accepted m order) : order.id = m.id := by
  obtain ⟨_, _, _, horder, _⟩ := h.terms
  rw [horder]
  rfl

theorem qty_range (h : s.Accepted m order) : 0 < order.qtyTenths ∧ order.qtyTenths ≤ maxGridUnits := by
  obtain ⟨_, _, _, horder, _, _, hqty, _⟩ := h.terms
  rw [horder]
  exact toGrid_range hqty

end Accepted

theorem releaseFunds_eq_ok {ledger ledger' : Ledger} {id : OrderId} {site : String} :
    releaseFunds ledger id site = .ok ledger' ↔
      ∃ released, ledger.release id = .ok (ledger', released) := by
  simp only [releaseFunds, bind_eq_ok, expect_eq_ok]
  constructor
  · rintro ⟨⟨l, released⟩, hrelease, h⟩
    cases h
    exact ⟨released, hrelease⟩
  · rintro ⟨released, hrelease⟩
    exact ⟨(ledger', released), hrelease, rfl⟩

theorem finishMatch_finished {s s' : MatcherState} {order : IncomingOrder} {left : Int}
    {after : BookAndTrades} {matched : Matched}
    (hmatched : (matched = .crossed left ∧ Stopped order left after) ∨
      (matched = .overflowed left ∧ 0 < left))
    (h : s.finishMatch order (matched, after) = .ok s') : Finished s order left after s' := by
  rcases hmatched with ⟨rfl, hstopped⟩ | ⟨rfl, hleft⟩
  · simp only [finishMatch, bind_eq_ok] at h
    obtain ⟨into, hfinish, h⟩ := h
    cases h
    unfold finishRemainder at hfinish
    -- The walk is over: nothing left, or a remainder that rests or is cancelled.
    split_ifs at hfinish with hleft
    · cases hfinish
      exact .filled hleft
    · split at hfinish
      · rename_i hdecide
        cases hfinish
        exact .rested (not_le.1 hleft) hstopped hdecide
      · rename_i hdecide
        simp only [bind_eq_ok, releaseFunds_eq_ok] at hfinish
        obtain ⟨ledger, ⟨released, hrelease⟩, hinto⟩ := hfinish
        cases hinto
        exact .cancelled (not_le.1 hleft) hstopped hdecide ledger released hrelease
  · simp only [finishMatch, bind_eq_ok, releaseFunds_eq_ok] at h
    obtain ⟨ledger, ⟨released, hrelease⟩, h⟩ := h
    cases h
    exact .overflowed hleft ledger released hrelease

/-- The match of a staged order, whichever way it ran. -/
theorem runMatch_executed {s : MatcherState} {order : IncomingOrder}
    {staged : Option (FokPlan × Ledger)} {matched : Matched} {after : BookAndTrades}
    (hqty : 0 < order.qtyTenths)
    (hlevels : NoEmptyLevel (facing (s.books.getD order.symbol .default) order.side))
    (hstage : stage order (s.bookAndTrades order.symbol) = .ok staged)
    (h : runMatch order staged (s.bookAndTrades order.symbol) = .ok (matched, after)) :
    ∃ left, s.Executed order left after ∧
      ((matched = .crossed left ∧ Stopped order left after) ∨
        (matched = .overflowed left ∧ 0 < left)) := by
  unfold stage at hstage
  split at hstage
  · simp only [bind_eq_ok] at hstage
    obtain ⟨plan, hplan, ledger, hledger, hstage⟩ := hstage
    cases hstage
    -- A fill-or-kill order that was staged is filled whole.
    obtain ⟨reserved, hreserved, hfills, rfl⟩ := executeFok_fills hqty hlevels hplan hledger h
    exact ⟨0, ⟨reserved, hreserved, hfills⟩, Or.inl ⟨rfl, Or.inl le_rfl⟩⟩
  · simp only [bind_eq_ok] at hstage
    obtain ⟨_, -, hstage⟩ := hstage
    cases hstage
    simp only [runMatch, bind_eq_ok, expect_eq_ok] at h
    obtain ⟨reserved, hreserved, h⟩ := h
    obtain ⟨left, hfills, hmatched⟩ := execute_fills h
    exact ⟨left, ⟨reserved, hreserved, hfills⟩, hmatched⟩

/-- A `New` message is refused and counted, or its order matches and is finished. -/
theorem applyNew_cases {s s' : MatcherState} {m : NewMessage}
    (hlevels : ∀ side, NoEmptyLevel (facing (s.books.getD m.symbol .default) side))
    (h : s.applyNew m = .ok s') :
    (∃ why, s' = s.ignoreOrder why) ∨ (∃ why, s' = s.refusedOnBook m.symbol why) ∨
      ∃ order left after, s.Accepted m order ∧ s.Executed order left after ∧
        Finished s order left after s' := by
  unfold applyNew at h
  split at h
  · rename_i why _
    cases h
    exact Or.inl ⟨why, rfl⟩
  rename_i arrived hadmit
  obtain ⟨terms, -, harrived, -, -⟩ := admitOrder_eq_ok hadmit
  have harrivedSymbol : arrived.symbol = m.symbol := by
    rw [harrived]
    rfl
  simp only [matchOrder, harrivedSymbol] at h
  split at h
  · rename_i why _
    cases h
    exact Or.inr (Or.inl ⟨why, rfl⟩)
  rename_i order staged hprepare
  simp only [prepare, bind_eq_ok] at hprepare
  obtain ⟨order', heffective, staged', hstage, hprepare⟩ := hprepare
  cases hprepare
  -- Past every check: from here on only a panic of the match can stop it.
  have haccepted : s.Accepted m order := ⟨arrived, hadmit, heffective⟩
  have hsymbol := haccepted.symbol_eq
  split at h
  · cases h
  rename_i matched hrun
  obtain ⟨matched, after⟩ := matched
  rw [← hsymbol] at hrun hstage
  obtain ⟨left, hexecuted, hmatched⟩ := runMatch_executed haccepted.qty_range.1
    (hsymbol ▸ hlevels order.side) hstage hrun
  exact Or.inr (Or.inr ⟨order, left, after, haccepted, hexecuted, finishMatch_finished hmatched h⟩)

/-! ## Delists -/

/-- The ledger after releasing orders one by one. -/
def releaseAll : List OrderId → Ledger → Except String Ledger
  | [], ledger => .ok ledger
  | id :: rest, ledger =>
      match ledger.release id with
      | .error why => .error why
      | .ok (ledger, _) => releaseAll rest ledger

/-- The index without these orders. -/
def closeAll (openOrders : SortedMap OrderId OrderRef) (ids : List OrderId) :
    SortedMap OrderId OrderRef :=
  openOrders.filter (fun id _ => id ∉ ids)

/-- The engine after a whole book left it. -/
def bookCleared (s : MatcherState) (symbol : String) (ids : List OrderId) (ledger : Ledger) :
    MatcherState :=
  { s with
    books := s.books.erase symbol
    ledger := ledger
    openOrders := closeAll s.openOrders ids
    pending := s.pending.map (fun changes => changes ++ ids.map Change.orderClosed)
    ordersDelisted := saturatingAddU64 s.ordersDelisted ids.length }

theorem closeAll_nil (openOrders : SortedMap OrderId OrderRef) : closeAll openOrders [] = openOrders := by
  ext1 id
  cases h : openOrders.get? id <;> simp [closeAll, SortedMap.get?_filter, h]

theorem closeAll_cons (openOrders : SortedMap OrderId OrderRef) (id : OrderId)
    (ids : List OrderId) : closeAll openOrders (id :: ids) = closeAll (openOrders.erase id) ids := by
  ext1 q
  simp only [closeAll, SortedMap.get?_filter, SortedMap.get?_erase]
  by_cases hq : q = id
  · simp [hq]
  · simp [hq]

theorem foldlM_closeResting :
    ∀ {orders : List RestingOrder} {s s' : MatcherState},
      orders.foldlM closeResting s = .ok s' →
      ∃ ledger, releaseAll (orders.map RestingOrder.id) s.ledger = .ok ledger ∧
        s' = { s with
          ledger := ledger
          openOrders := closeAll s.openOrders (orders.map RestingOrder.id)
          pending := s.pending.map
            (fun changes => changes ++ (orders.map RestingOrder.id).map Change.orderClosed) }
  | [], s, s', h => by
      cases h
      exact ⟨s.ledger, rfl, by simp [closeAll_nil]⟩
  | o :: orders, s, s', h => by
      rw [List.foldlM_cons] at h
      obtain ⟨t, ht, h⟩ := bind_eq_ok.1 h
      simp only [closeResting, bind_eq_ok, releaseFunds_eq_ok] at ht
      obtain ⟨ledger, ⟨released, hrelease⟩, ht⟩ := ht
      cases ht
      obtain ⟨ledger', hall, hs'⟩ := foldlM_closeResting h
      refine ⟨ledger', by simpa [releaseAll, hrelease] using hall, ?_⟩
      rw [hs']
      simp [closeAll_cons, record, Function.comp_def]

theorem clearBook_eq_ok {s s' : MatcherState} {symbol : String} (h : s.clearBook symbol = .ok s') :
    (s.books.get? symbol = none ∧ s' = s) ∨
      ∃ book ledger, s.books.get? symbol = some book ∧
        releaseAll ((restingOrders book).map RestingOrder.id) s.ledger = .ok ledger ∧
        s' = s.bookCleared symbol ((restingOrders book).map RestingOrder.id) ledger := by
  unfold clearBook at h
  split at h
  · rename_i hnone
    cases h
    exact Or.inl ⟨hnone, rfl⟩
  · rename_i book hbook
    simp only [bind_eq_ok] at h
    obtain ⟨t, ht, h⟩ := h
    cases h
    obtain ⟨ledger, hledger, rfl⟩ := foldlM_closeResting ht
    exact Or.inr ⟨book, ledger, hbook, hledger, by simp [bookCleared]⟩

theorem applyDelistSymbol_cases {s s' : MatcherState} {m : DelistSymbolMessage}
    (h : s.applyDelistSymbol m = .ok s') :
    s' = s.ignoreListing ∨
      ∃ listing cleared, SymbolRegistry.listing s.symbols m.symbol = some listing ∧
        clearBook { s with symbols := s.symbols.insert m.symbol { listing with listed := false } }
          m.symbol = .ok cleared ∧
        s' = { cleared.observeMid m.symbol m.timestamp with
          pending := record cleared.pending (.symbolDelisted m.symbol) } := by
  unfold applyDelistSymbol at h
  split at h
  · cases h
    exact Or.inl rfl
  · rename_i symbols hsymbols
    simp only [SymbolRegistry.delist, Option.map_eq_some_iff] at hsymbols
    obtain ⟨listing, hlisting, rfl⟩ := hsymbols
    simp only [bind_eq_ok] at h
    obtain ⟨cleared, hcleared, h⟩ := h
    cases h
    exact Or.inr ⟨listing, cleared, hlisting, hcleared, rfl⟩

/-! ## Listings, rules and cancels -/

theorem applyListSymbol_cases (s : MatcherState) (m : ListSymbolMessage) :
    s.applyListSymbol m = s.ignoreListing ∨
      ∃ listing, s.listingOf m = some listing ∧
        SymbolRegistry.listing s.symbols m.symbol = none ∧
        s.applyListSymbol m = { s with
          symbols := s.symbols.insert m.symbol listing
          pending := record s.pending (.symbolListed {
            symbol := m.symbol
            priceStepCents := listing.priceStepCents
            quantityStepTenths := listing.quantityStepTenths
            listed := true
            listedBy := m.id }) } := by
  unfold applyListSymbol
  split
  · exact Or.inl rfl
  · rename_i listing hlisting
    unfold SymbolRegistry.list
    split_ifs with hlisted
    · exact Or.inl rfl
    · exact Or.inr ⟨listing, hlisting, by simpa using hlisted, rfl⟩

/-- What a listing that may be opened says. -/
theorem listingOf_eq_some {s : MatcherState} {m : ListSymbolMessage} {listing : Listing}
    (h : s.listingOf m = some listing) :
    Operator.validSymbol m.symbol = true ∧ toGrid m.priceStep 100 = some listing.priceStepCents ∧
      toGrid m.quantityStep 10 = some listing.quantityStepTenths ∧ listing.listed = true ∧
      listing.listedBy = m.id := by
  unfold listingOf at h
  split_ifs at h with hvalid hcapacity
  split at h
  · rename_i price qty hprice hqty
    cases h
    exact ⟨hvalid, hprice, hqty, rfl, rfl⟩
  · cases h

/-- The operator's key after a signature was checked: the one the log had, or the one it names. -/
def NamesOperator (env : Primitives) (s : MatcherState) (message : OrderMessage)
    (key : Option Bytes) : Prop :=
  key = s.operatorKey ∨ key = Operator.namedKey env message

/-- An operator message acts on a state that differs in the operator fields alone. -/
theorem operatorSigned_eq (env : Primitives) (s : MatcherState) (message : OrderMessage) :
    ∃ key count, s.NamesOperator env message key ∧ (operatorSigned env s message).1 =
      { s with operatorKey := key, listingsIgnored := count } := by
  unfold operatorSigned
  dsimp only
  split
  · split_ifs
    · exact ⟨s.operatorKey, s.listingsIgnored, .inl rfl, rfl⟩
    · exact ⟨s.operatorKey, _, .inl rfl, rfl⟩
  · split
    · exact ⟨s.operatorKey, _, .inl rfl, rfl⟩
    · rename_i key hkey
      split_ifs
      · exact ⟨some key, s.listingsIgnored, .inr hkey.symm, rfl⟩
      · exact ⟨s.operatorKey, _, .inl rfl, rfl⟩

theorem whenSigned_eq_ok {env : Primitives} {s s' : MatcherState} {message : OrderMessage}
    {act : MatcherState → Except Fault MatcherState} (h : whenSigned env s message act = .ok s') :
    ∃ key count, s.NamesOperator env message key ∧
      (s' = { s with operatorKey := key, listingsIgnored := count } ∨
        act { s with operatorKey := key, listingsIgnored := count } = .ok s') := by
  obtain ⟨key, count, hkey, hsigned⟩ := operatorSigned_eq env s message
  refine ⟨key, count, hkey, ?_⟩
  unfold whenSigned at h
  split at h
  · rename_i t hact
    rw [hact] at hsigned
    rw [← hsigned]
    exact Or.inr h
  · rename_i t hact
    rw [hact] at hsigned
    cases h
    exact Or.inl hsigned

theorem ownerOf_eq_some {s : MatcherState} {target : OrderId} {ref : OrderRef} {owner : AccountId} :
    s.ownerOf target = some (ref, owner) ↔
      s.openOrders.get? target = some ref ∧ ∃ book, s.books.get? ref.symbol = some book ∧
        ∃ level, (book.levels ref.side).get? ref.priceCents = some level ∧
          ∃ o, level.find? (fun resting => resting.id = target) = some o ∧ o.account = owner := by
  simp only [ownerOf, Option.bind_eq_bind, Option.bind_eq_some_iff, Option.pure_def,
    Option.some.injEq, Prod.mk.injEq]
  constructor
  · rintro ⟨ref', href, book, hbook, level, hlevel, o, ho, rfl, howner⟩
    exact ⟨href, book, hbook, level, hlevel, o, ho, howner⟩
  · rintro ⟨href, book, hbook, level, hlevel, o, ho, howner⟩
    exact ⟨ref, href, book, hbook, level, hlevel, o, ho, rfl, howner⟩

/-- The engine after a cancel removed its order. -/
def orderRemoved (s : MatcherState) (ref : OrderRef) (target : OrderId) (timestamp : Nat)
    (ledger : Ledger) (book : Book) : MatcherState :=
  { (({ s with
        ledger := ledger
        openOrders := s.openOrders.erase target
        books := s.books.insert ref.symbol (withoutOrder book ref target) } :
          MatcherState).pruneBook ref.symbol).observeMid ref.symbol timestamp with
    cancelsApplied := saturatingAddU64 s.cancelsApplied 1
    pending := record s.pending (.orderClosed target) }

theorem removeCancelled_eq_ok {s s' : MatcherState} {ref : OrderRef} {target : OrderId}
    {timestamp : Nat} (h : s.removeCancelled ref target timestamp = .ok s') :
    ∃ ledger released book, s.ledger.release target = .ok (ledger, released) ∧
      s.books.get? ref.symbol = some book ∧
      s' = s.orderRemoved ref target timestamp ledger book := by
  simp only [removeCancelled, bind_eq_ok, releaseFunds_eq_ok, expect_eq_ok, orFail_eq_ok] at h
  obtain ⟨ledger, ⟨released, hrelease⟩, book, hbook, h⟩ := h
  cases h
  exact ⟨ledger, released, book, hrelease, hbook, rfl⟩

/-! ## Any message -/

/-- Everything a message can do to the engine, before it is counted as consumed. -/
inductive Dispatched (env : Primitives) (s : MatcherState) : OrderMessage → MatcherState → Prop
  | refused (m : NewMessage) (why : Rejected) : Dispatched env s (.new m) (s.ignoreOrder why)
  | refusedOnBook (m : NewMessage) (why : Rejected) :
      Dispatched env s (.new m) (s.refusedOnBook m.symbol why)
  | matched (m : NewMessage) (order : IncomingOrder) (left : Int) (after : BookAndTrades)
      (t : MatcherState) (haccepted : s.Accepted m order) (hexecuted : s.Executed order left after)
      (hfinished : Finished s order left after t) : Dispatched env s (.new m) t
  | cancelIgnored (m : CancelMessage) (hnone : s.ownerOf m.targetId = none) :
      Dispatched env s (.cancel m) { s with
        openOrders := s.openOrders.erase m.targetId
        cancelsIgnored := saturatingAddU64 s.cancelsIgnored 1 }
  | cancelRejected (m : CancelMessage) :
      Dispatched env s (.cancel m) { s with
        cancelsRejected := saturatingAddU64 s.cancelsRejected 1 }
  | cancelled (m : CancelMessage) (ref : OrderRef) (ledger : Ledger) (released : Bool)
      (book : Book) (howner : s.ownerOf m.targetId = some (ref, m.account))
      (hrelease : s.ledger.release m.targetId = .ok (ledger, released))
      (hbook : s.books.get? ref.symbol = some book) :
      Dispatched env s (.cancel m) (s.orderRemoved ref m.targetId m.timestamp ledger book)
  | ignored (message : OrderMessage) (key : Option Bytes) (count : Nat)
      (hkey : s.NamesOperator env message key) :
      Dispatched env s message { s with operatorKey := key, listingsIgnored := count }
  | listed (m : ListSymbolMessage) (key : Option Bytes) (count : Nat)
      (hkey : s.NamesOperator env (.listSymbol m) key) (listing : Listing)
      (hlisting : s.listingOf m = some listing)
      (hnone : SymbolRegistry.listing s.symbols m.symbol = none) :
      Dispatched env s (.listSymbol m) { s with
        operatorKey := key
        listingsIgnored := count
        symbols := s.symbols.insert m.symbol listing
        pending := record s.pending (.symbolListed {
          symbol := m.symbol
          priceStepCents := listing.priceStepCents
          quantityStepTenths := listing.quantityStepTenths
          listed := true
          listedBy := m.id }) }
  | delisted (m : DelistSymbolMessage) (key : Option Bytes) (count : Nat)
      (hkey : s.NamesOperator env (.delistSymbol m) key) (listing : Listing)
      (cleared : MatcherState) (hlisting : SymbolRegistry.listing s.symbols m.symbol = some listing)
      (hcleared : clearBook { s with
        operatorKey := key
        listingsIgnored := count
        symbols := s.symbols.insert m.symbol { listing with listed := false } } m.symbol =
          .ok cleared) :
      Dispatched env s (.delistSymbol m) { cleared.observeMid m.symbol m.timestamp with
        pending := record cleared.pending (.symbolDelisted m.symbol) }
  | ruled (m : EngineRuleMessage) (key : Option Bytes) (count : Nat)
      (hkey : s.NamesOperator env (.engineRule m) key) (rules : RuleSet) (notActedOn : Nat) :
      Dispatched env s (.engineRule m) { s with
        operatorKey := key
        listingsIgnored := count
        rules := rules
        kindsNotActedOn := notActedOn }

theorem dispatch_cases {env : Primitives} {s t : MatcherState} {message : OrderMessage}
    (hlevels : ∀ symbol side, NoEmptyLevel (facing (s.books.getD symbol .default) side))
    (h : dispatch env s message = .ok t) : Dispatched env s message t := by
  cases message with
  | new m =>
      rcases applyNew_cases (hlevels m.symbol) h with ⟨why, rfl⟩ | ⟨why, rfl⟩ |
        ⟨order, left, after, haccepted, hexecuted, hfinished⟩
      · exact .refused m why
      · exact .refusedOnBook m why
      · exact .matched m order left after t haccepted hexecuted hfinished
  | cancel m =>
      have h : s.applyCancel m = .ok t := h
      unfold applyCancel at h
      split at h
      · rename_i hnone
        cases h
        exact .cancelIgnored m hnone
      · rename_i ref owner howner
        split_ifs at h with hother
        · cases h
          exact .cancelRejected m
        · obtain ⟨ledger, released, book, hrelease, hbook, rfl⟩ := removeCancelled_eq_ok h
          rw [not_not.1 hother] at howner
          exact .cancelled m ref ledger released book howner hrelease hbook
  | listSymbol m =>
      obtain ⟨key, count, hkey, rfl | hact⟩ := whenSigned_eq_ok h
      · exact .ignored _ key count hkey
      · cases hact
        rcases applyListSymbol_cases { s with operatorKey := key, listingsIgnored := count } m
          with heq | ⟨listing, hlisting, hnone, heq⟩
        · rw [heq]
          exact .ignored _ key _ hkey
        · rw [heq]
          exact .listed m key count hkey listing hlisting hnone
  | delistSymbol m =>
      obtain ⟨key, count, hkey, rfl | hact⟩ := whenSigned_eq_ok h
      · exact .ignored _ key count hkey
      · rcases applyDelistSymbol_cases hact with rfl | ⟨listing, cleared, hlisting, hcleared, rfl⟩
        · exact .ignored _ key _ hkey
        · exact .delisted m key count hkey listing cleared hlisting hcleared
  | engineRule m =>
      obtain ⟨key, count, hkey, rfl | hact⟩ := whenSigned_eq_ok h
      · exact .ignored _ key count hkey
      · cases hact
        unfold applyEngineRule
        split
        · rename_i rules _
          exact .ruled m key count hkey rules s.kindsNotActedOn
        · exact .ruled m key count hkey s.rules _

end MatcherState
end Matcher
end VerifiableExchange
