import VerifiableExchange.Ledger.Validity
import VerifiableExchange.Matcher.ReferenceLaws
import VerifiableExchange.Matcher.ZeroSum

/-!
# Extent — how much a log can have put into the engine

A message lists at most one symbol, leaves at most one order in a book and brings at most one
account to a symbol. So the cursor bounds the size of everything the engine holds, and each part
keeps the shape its bytes are read back by.
-/

namespace VerifiableExchange

open Lib

namespace Matcher

/-! ## Who can hold something -/

/-- Every position and every resting order belongs to a pair of `G`: an account, with a symbol it
sent an order in. -/
structure Holders (G : Finset AccountKey) (books : Books)
    (positions : SortedMap AccountKey Position) : Prop where
  position : ∀ key, positions.contains key = true → key ∈ G
  resting : ∀ ref o, Rests books ref o → Ledger.accountKey o.account ref.symbol ∈ G

theorem Holders.of_rests {G G' : Finset AccountKey} {books books' : Books}
    {positions : SortedMap AccountKey Position} (h : Holders G books positions) (hG : G ⊆ G')
    (hrests : ∀ ref o, Rests books' ref o → Rests books ref o) : Holders G' books' positions where
  position key hkey := hG (h.position key hkey)
  resting ref o ho := hG (h.resting ref o (hrests ref o ho))

theorem contains_positionsAfter {positions : SortedMap AccountKey Position} {order : IncomingOrder}
    {fill : PlannedFill} {makerNext takerNext : Position} {key : AccountKey}
    (h : (positionsAfter positions order fill makerNext takerNext).contains key = true) :
    key = Ledger.accountKey fill.makerAccount order.symbol ∨
      key = Ledger.accountKey order.account order.symbol ∨ positions.contains key = true := by
  by_cases htaker : key = Ledger.accountKey order.account order.symbol
  · exact .inr (.inl htaker)
  by_cases hmaker : key = Ledger.accountKey fill.makerAccount order.symbol
  · exact .inl hmaker
  refine .inr (.inr ?_)
  unfold positionsAfter SortedMap.contains at h
  dsimp only at h
  rw [SortedMap.get?_insert, if_neg htaker] at h
  split_ifs at h
  · rwa [SortedMap.get?_insert, if_neg hmaker] at h
  · exact h

/-- What a match keeps of the extent. -/
structure MatchExtent (G : Finset AccountKey) (books : Books) (order : IncomingOrder)
    (into : BookAndTrades) : Prop where
  holders : Holders G (books.insert order.symbol into.book) into.positions
  positive : into.openOrders.get? 0 = none
  trades : into.tradesTotal ≤ u64Max
  keyed : into.ledger.Keyed

theorem MatchExtent.fill {G : Finset AccountKey} {books : Books} {order : IncomingOrder}
    {remaining : Int} {into : BookAndTrades} {e : FillEvent} (h : MatchExtent G books order into)
    (htaker : Ledger.accountKey order.account order.symbol ∈ G)
    (enabled : e.Enabled order remaining into) :
    MatchExtent G books order (e.result order remaining into) := by
  have hedit := enabled.levelEdit books
  have hold : ∀ o ∈ e.maker :: e.rest, Ledger.accountKey o.account order.symbol ∈ G :=
    fun o ho => h.holders.resting _ o (hedit.mem_old.1 ho)
  refine {
    holders := ⟨?_, ?_⟩
    positive := ?_
    trades := enabled.counted
    keyed := h.keyed.settleFill enabled.settled }
  · intro key hkey
    rcases contains_positionsAfter hkey with rfl | rfl | hkey
    · exact hold e.maker List.mem_cons_self
    · exact htaker
    · exact h.holders.position key hkey
  · intro ref o ho
    by_cases hplace : ref = ⟨order.symbol, order.side.opposite, e.price⟩
    · subst hplace
      -- What is left of the level are orders that waited in it.
      rcases mem_levelAfter (hedit.rests_here.1 ho) with ho | ⟨-, rfl⟩
      · exact hold o (List.mem_cons_of_mem _ ho)
      · exact hold e.maker List.mem_cons_self
    · exact h.holders.resting ref o ((hedit.rests_elsewhere hplace).1 ho)
  · show (indexAfter into.openOrders e.maker.id (e.makerLeft remaining)).get? 0 = none
    unfold indexAfter
    split_ifs
    · rw [SortedMap.get?_erase, h.positive, ite_self]
    · exact h.positive

theorem MatchExtent.rest {G : Finset AccountKey} {books : Books} {order : IncomingOrder}
    {left : Int} {after : BookAndTrades} (h : MatchExtent G books order after)
    (htaker : Ledger.accountKey order.account order.symbol ∈ G) (hid : 0 < order.id) :
    MatchExtent G books order (MatcherState.rest order left after) := by
  have hedit := levelEdit_rest books order left after
  refine {
    holders := ⟨h.holders.position, ?_⟩
    positive := ?_
    trades := h.trades
    keyed := h.keyed }
  · intro ref o ho
    by_cases hplace : ref = ⟨order.symbol, order.side, order.limitCents⟩
    · subst hplace
      rcases List.mem_append.1 (hedit.rests_here.1 ho) with ho | ho
      · exact h.holders.resting _ o (hedit.mem_old.1 ho)
      · cases List.mem_singleton.1 ho
        exact htaker
    · exact h.holders.resting ref o ((hedit.rests_elsewhere hplace).1 ho)
  · show (after.openOrders.insert order.id _).get? 0 = none
    rw [SortedMap.get?_insert, if_neg (ne_of_lt hid)]
    exact h.positive

namespace MatcherState

/-! ## The extent of one state -/

/-- What the messages up to `next` can have left in the engine. -/
structure Extent (next : OrderId) (t : MatcherState) : Prop where
  symbols : t.symbols.size ≤ next
  positive : t.openOrders.get? 0 = none
  holders : ∃ G : Finset AccountKey, G.card ≤ next ∧
    (∀ key ∈ G, t.symbols.contains (ofLex key).2 = true) ∧ Holders G t.books t.positions
  trades : t.tradesTotal ≤ u64Max
  keyed : t.ledger.Keyed
  operatorKey : ∀ key, t.operatorKey = some key → key.length = 32
  mids : t.mids.Kept
  extensions : t.executionExtensions = .empty

theorem Extent.mono {n next : OrderId} {t : MatcherState} (h : Extent n t) (hle : n ≤ next) :
    Extent next t := by
  obtain ⟨G, hcard, hnames, hholders⟩ := h.holders
  exact { h with
    symbols := h.symbols.trans hle
    holders := ⟨G, hcard.trans hle, hnames, hholders⟩ }

/-- A middle price of two positive prices is positive, so watching it keeps the window in order. -/
theorem Extent.observed {next last : OrderId} {u : MatcherState} (h : Extent next u)
    {symbols : SymbolRegistry} {openOrders : SortedMap OrderId OrderRef}
    (hbooks : BookInv symbols last u.books openOrders) (symbol : String) (atMs : Nat) :
    Extent next (u.observeMid symbol atMs) := by
  have hprice : ∀ {side price level}, levelAt u.books symbol side price = some level → 0 < price := by
    intro side price level hlevel
    obtain ⟨o, ho⟩ := List.exists_mem_of_ne_nil level (hbooks.level_ne hlevel)
    exact (hbooks.sound hlevel o ho).price_pos
  refine { h with mids := h.mids.observe symbol atMs (fun mid hmid => ?_) }
  simp only [bestBidCents, bestAskCents, Option.bind_eq_some_iff, Option.map_eq_some_iff] at hmid
  obtain ⟨bid, ⟨book, hbook, ⟨_, bids⟩, hlast, rfl⟩, ask, ⟨book', hbook', ⟨_, asks⟩, hfirst, rfl⟩,
    rfl⟩ := hmid
  have hbid := hprice (levelAt_eq_some.2 ⟨book, hbook, SortedMap.get?_of_last? hlast⟩ :
    levelAt u.books symbol .buy _ = some bids)
  have hask := hprice (levelAt_eq_some.2 ⟨book', hbook', SortedMap.get?_of_first? hfirst⟩ :
    levelAt u.books symbol .sell _ = some asks)
  rw [Int.tdiv_eq_ediv_of_nonneg (by omega)]
  omega

/-- The engine after a match of `symbol` that kept the extent. -/
theorem Extent.finished {s : MatcherState} {next : OrderId} (h : Extent next s)
    {G : Finset AccountKey} (hcard : G.card ≤ next)
    (hnames : ∀ key ∈ G, s.symbols.contains (ofLex key).2 = true) {order : IncomingOrder}
    (into : BookAndTrades) (hinto : MatchExtent G s.books order into)
    (hbooks : BookInv s.symbols next
      ((s.withBookAndTrades order.symbol into).pruneBook order.symbol).books into.openOrders) :
    Extent next (((s.withBookAndTrades order.symbol into).pruneBook order.symbol).observeMid
      order.symbol order.timestamp) := by
  have hpruned : Extent next ((s.withBookAndTrades order.symbol into).pruneBook order.symbol) := {
    h with
    positive := hinto.positive
    holders := ⟨G, hcard, hnames, hinto.holders.of_rests (Finset.Subset.refl G)
      (fun _ _ ho => (rests_congr (fun _ _ _ => levelAt_pruneBook _ _ _ _ _)).1 ho)⟩
    trades := hinto.trades
    keyed := hinto.keyed }
  exact hpruned.observed hbooks order.symbol order.timestamp

/-! ## One message -/

theorem Extent.refusedOnBook {s : MatcherState} {next : OrderId} (h : Extent next s)
    (symbol : String) (why : Rejected) : Extent next (s.refusedOnBook symbol why) := by
  obtain ⟨G, hcard, hnames, hholders⟩ := h.holders
  refine { h with
    holders := ⟨G, hcard, hnames, hholders.of_rests (Finset.Subset.refl G) (fun ref o ho => ?_)⟩ }
  refine (rests_congr (fun symbol side price => ?_)).1 ho
  exact (levelAt_pruneBook _ _ _ _ _).trans (levelAt_insert_getD _ _ _ _ _)

theorem Extent.matched {s t : MatcherState} (h : Extent s.lastSeen s) {m : NewMessage}
    {order : IncomingOrder} {left : Int} {after : BookAndTrades} (hnew : s.lastSeen < m.id)
    (hbetween : Between m.id t) (haccepted : s.Accepted m order)
    (hexecuted : s.Executed order left after) (hfinished : Finished s order left after t) :
    Extent m.id t := by
  have hmono := h.mono hnew.le
  obtain ⟨reserved, hreserve, hfills⟩ := hexecuted.filled
  obtain ⟨G, hcard, hnames, hholders⟩ := h.holders
  -- One account can be new to the symbol: the one that sent the order.
  let taker := Ledger.accountKey order.account order.symbol
  have htaker : taker ∈ insert taker G := Finset.mem_insert_self _ _
  have hcard' : (insert taker G).card ≤ m.id :=
    (Finset.card_insert_le _ _).trans (Nat.succ_le_of_lt (lt_of_le_of_lt hcard hnew))
  have hnames' : ∀ key ∈ insert taker G, s.symbols.contains (ofLex key).2 = true := by
    intro key hkey
    rcases Finset.mem_insert.1 hkey with rfl | hkey
    · obtain ⟨_, _, listing, _, hlisting, _⟩ := haccepted.terms
      show s.symbols.contains order.symbol = true
      rw [haccepted.symbol_eq]
      exact SortedMap.contains_iff.2 ⟨listing, (Option.filter_eq_some_iff.1 hlisting).1⟩
    · exact hnames key hkey
  have hbefore : MatchExtent (insert taker G) s.books order
      { s.bookAndTrades order.symbol with ledger := reserved } := {
    holders := hholders.of_rests (Finset.subset_insert _ _) (fun _ _ ho =>
      (rests_congr (fun _ _ _ => levelAt_insert_getD _ _ _ _ _)).1 ho)
    positive := h.positive
    trades := h.trades
    keyed := h.keyed.reserve hreserve }
  have hafter : MatchExtent (insert taker G) s.books order after :=
    hfills.invariant (P := fun _ into => MatchExtent (insert taker G) s.books order into)
      (fun _ _ _ enabled hinto => hinto.fill htaker enabled) hbefore
  have hid : 0 < order.id := haccepted.id_eq ▸ Nat.zero_lt_of_lt hnew
  cases hfinished with
  | overflowed _ ledger _ hrelease =>
      exact { hmono.finished hcard' hnames' { after with ledger := ledger } ⟨hafter.holders, hafter.positive, hafter.trades,
          hafter.keyed.release hrelease⟩ hbetween.books with }
  | filled => exact hmono.finished hcard' hnames' after hafter hbetween.books
  | rested => exact hmono.finished hcard' hnames' _ (hafter.rest htaker hid) hbetween.books
  | cancelled _ _ _ ledger _ hrelease =>
      exact hmono.finished hcard' hnames' { after with ledger := ledger }
        ⟨hafter.holders, hafter.positive, hafter.trades, hafter.keyed.release hrelease⟩
        hbetween.books

theorem contains_insert {symbols : SymbolRegistry} {symbol : String} {l : Listing} {q : String}
    (h : symbols.contains q = true) : (symbols.insert symbol l).contains q = true := by
  unfold SortedMap.contains at h ⊢
  rw [SortedMap.get?_insert]
  split_ifs
  · rfl
  · exact h

theorem Extent.insertListing {n next : OrderId} {t : MatcherState} (h : Extent n t)
    (hnew : n < next) (symbol : String) (l : Listing) :
    Extent next { t with symbols := t.symbols.insert symbol l } := by
  obtain ⟨G, hcard, hnames, hholders⟩ := h.holders
  exact { h.mono hnew.le with
    symbols := (t.symbols.size_insert_le symbol l).trans
      (Nat.succ_le_of_lt (lt_of_le_of_lt h.symbols hnew))
    holders := ⟨G, hcard.trans hnew.le, fun key hkey => contains_insert (hnames key hkey),
      hholders⟩ }

theorem keyed_releaseAll : ∀ {ids : List OrderId} {l l' : Ledger}, l.Keyed →
    releaseAll ids l = .ok l' → l'.Keyed
  | [], l, l', hl, h => by
      cases h
      exact hl
  | id :: ids, l, l', hl, h => by
      unfold releaseAll at h
      split at h
      · cases h
      · rename_i hrelease
        exact keyed_releaseAll (hl.release hrelease) h

theorem Extent.delisted {s cleared : MatcherState} {n next : OrderId} (h : Extent n s)
    (hnew : n < next) {symbol : String} {listing : Listing}
    (hcleared : clearBook
      { s with symbols := s.symbols.insert symbol { listing with listed := false } } symbol =
        .ok cleared) : Extent next cleared := by
  have hlisted := h.insertListing hnew symbol { listing with listed := false }
  rcases clearBook_eq_ok hcleared with ⟨-, rfl⟩ | ⟨book, ledger, -, hledger, rfl⟩
  · exact hlisted
  obtain ⟨G, hcard, hnames, hholders⟩ := hlisted.holders
  refine { hlisted with
    positive := ?_
    holders := ⟨G, hcard, hnames, hholders.of_rests (Finset.Subset.refl G) ?_⟩
    keyed := keyed_releaseAll h.keyed hledger }
  · show (closeAll s.openOrders _).get? 0 = none
    rw [closeAll, SortedMap.get?_filter, h.positive]
    rfl
  · rintro ref o ⟨level, hlevel, ho⟩
    have hlevel : levelAt (s.books.erase symbol) _ _ _ = some level := hlevel
    rw [levelAt_erase] at hlevel
    split_ifs at hlevel
    exact ⟨level, hlevel, ho⟩

theorem Extent.positive_erase {n : OrderId} {s : MatcherState} (h : Extent n s)
    (target : OrderId) : (s.openOrders.erase target).get? 0 = none := by
  rw [SortedMap.get?_erase, h.positive, ite_self]

theorem Extent.cancelled {s : MatcherState} {next : OrderId} (h : Extent next s)
    {target : OrderId} {ref : OrderRef} {ledger : Ledger} {released : Bool} {book : Book}
    {level : Level} (hbook : s.books.get? ref.symbol = some book)
    (hget : (book.levels ref.side).get? ref.priceCents = some level)
    (hrelease : s.ledger.release target = .ok (ledger, released)) (timestamp : Nat)
    (hbetween : Between next (s.orderRemoved ref target timestamp ledger book)) :
    Extent next (s.orderRemoved ref target timestamp ledger book) := by
  obtain ⟨G, hcard, hnames, hholders⟩ := h.holders
  have hedit := levelEdit_withoutOrder hbook hget target
  have hremoved : Extent next (({ s with
      ledger := ledger
      openOrders := s.openOrders.erase target
      books := s.books.insert ref.symbol (withoutOrder book ref target) } :
        MatcherState).pruneBook ref.symbol) := by
    refine { h with
      positive := h.positive_erase target
      holders := ⟨G, hcard, hnames, hholders.of_rests (Finset.Subset.refl G) ?_⟩
      keyed := h.keyed.release hrelease }
    intro other o ho
    have ho := (rests_congr (fun _ _ _ => levelAt_pruneBook _ _ _ _ _)).1 ho
    -- The place of the cancelled order lost it, and no other place changed.
    by_cases hplace : other = ref
    · subst hplace
      exact hedit.mem_old.1 (List.mem_of_mem_filter (hedit.rests_here.1 ho))
    · exact (hedit.rests_elsewhere hplace).1 ho
  exact { hremoved.observed hbetween.books ref.symbol timestamp with }

theorem Extent.operatorKey_named {n : OrderId} {s : MatcherState} (h : Extent n s)
    {env : Primitives} {message : OrderMessage} {key : Option Bytes}
    (hkey : s.NamesOperator env message key) : ∀ k, key = some k → k.length = 32 := by
  rcases hkey with rfl | rfl
  · exact h.operatorKey
  · exact fun _ hnamed => Operator.length_namedKey hnamed

/-! ## Every run -/

theorem Extent.dispatch {env : Primitives} {s t : MatcherState} (h : Extent s.lastSeen s)
    (hs : s.WellFormed) {message : OrderMessage} (hnew : s.lastSeen < message.id)
    (hdispatch : dispatch env s message = .ok t) : Extent message.id t := by
  have hmono := h.mono hnew.le
  have hbetween := hs.dispatch hnew hdispatch
  cases dispatch_cases hs.noEmptyLevel hdispatch with
  | refused | cancelRejected => exact { hmono with }
  | refusedOnBook m why => exact hmono.refusedOnBook m.symbol why
  | matched _ _ _ _ _ haccepted hexecuted hfinished =>
      exact h.matched hnew hbetween haccepted hexecuted hfinished
  | cancelIgnored => exact { hmono with positive := hmono.positive_erase _ }
  | cancelled m _ _ _ book' howner hrelease hbook' =>
      obtain ⟨-, book, hbook, level, hget, -⟩ := ownerOf_eq_some.1 howner
      cases hbook.symm.trans hbook'
      exact hmono.cancelled hbook hget hrelease m.timestamp hbetween
  | ignored _ _ _ hkey => exact { hmono with operatorKey := h.operatorKey_named hkey }
  | listed m key count hkey listing =>
      exact { h.insertListing hnew m.symbol listing with operatorKey := h.operatorKey_named hkey }
  | delisted m key count hkey listing cleared hlisting hcleared =>
      have hsigned : Extent s.lastSeen { s with operatorKey := key, listingsIgnored := count } :=
        { h with operatorKey := h.operatorKey_named hkey }
      have hcleared := hsigned.delisted hnew hcleared
      exact { hcleared.observed hbetween.books m.symbol m.timestamp with }
  | ruled _ _ _ hkey => exact { hmono with operatorKey := h.operatorKey_named hkey }

/-- The extent of a state, with a cursor that is a 64-bit value. -/
structure Bounded (s : MatcherState) : Prop where
  lastSeen : s.lastSeen ≤ u64Max
  extent : Extent s.lastSeen s

theorem Bounded.apply {env : Primitives} {s s' : MatcherState} (h : s.Bounded) (hs : s.WellFormed)
    {message : OrderMessage} {received : Option Bytes}
    (happly : s.apply env message received = .ok s') : s'.Bounded := by
  obtain ⟨-, t, hdispatch, hconsume⟩ := apply_eq_ok happly
  have hnext := hs.next_eq hdispatch hconsume
  have hextent := h.extent.dispatch hs (hnext ▸ Nat.lt_succ_self _) hdispatch
  simp only [consume, bind_eq_ok, expect_eq_ok] at hconsume
  obtain ⟨ledger, hledger, hconsume⟩ := hconsume
  obtain ⟨-, hmax, rfl⟩ := Ledger.finishSequence_eq_ok hledger
  cases hconsume
  exact ⟨hmax, { hextent with }⟩

theorem reservations_openingLedger {genesis : ExecutionGenesis} {ledger : Ledger}
    (h : genesis.openingLedger = .ok ledger) : ledger.reservations = .empty := by
  unfold ExecutionGenesis.openingLedger at h
  split at h
  · cases h
    rfl
  · simp only [Ledger.funded, bind_eq_ok] at h
    obtain ⟨_, -, h⟩ := h
    cases h
    rfl
  · cases h

theorem bounded_opening {genesis : ExecutionGenesis} {session pubkey : Option String}
    {recording : Bool} {s : MatcherState}
    (h : genesis.opening session pubkey recording = .ok s) : s.Bounded := by
  obtain ⟨ledger, hledger, -, rfl⟩ := ExecutionGenesis.opening_eq_ok h
  refine ⟨Nat.zero_le _, ?_⟩
  exact {
    symbols := le_rfl
    positive := rfl
    holders := ⟨∅, le_rfl, by simp, by simp [MatcherState.new, SortedMap.contains], by
      rintro ref o ⟨level, hlevel, -⟩
      simp [levelAt, MatcherState.new] at hlevel⟩
    trades := Nat.zero_le _
    keyed := Ledger.keyed_of_empty (reservations_openingLedger hledger)
    operatorKey := by simp [MatcherState.new]
    mids := MidWindow.kept_empty
    extensions := rfl }

/-- Every reachable state holds no more than its cursor allows. -/
theorem Reachable.bounded {env : Primitives} {s : MatcherState} (h : Reachable env s) :
    s.Bounded := by
  induction h with
  | genesis h => exact bounded_opening h
  | applied hs h ih => exact ih.apply hs.wellFormed h

/-- There are at most as many positions as messages. -/
theorem Bounded.positions_size {s : MatcherState} (h : s.Bounded) :
    s.positions.size ≤ s.lastSeen := by
  obtain ⟨G, hcard, -, hholders⟩ := h.extent.holders
  exact (SortedMap.size_le_card hholders.position).trans hcard

/-- There are at most as many open orders as messages. -/
theorem Bounded.openOrders_size {s : MatcherState} (h : s.Bounded) (hs : s.WellFormed) :
    s.openOrders.size ≤ s.lastSeen := by
  have hids : ∀ id, s.openOrders.contains id = true → id ∈ Finset.Icc 1 s.lastSeen := by
    intro id hid
    obtain ⟨ref, href⟩ := SortedMap.contains_iff.1 hid
    refine Finset.mem_Icc.2 ⟨Nat.one_le_iff_ne_zero.2 ?_, ?_⟩
    · rintro rfl
      rw [h.extent.positive] at href
      cases href
    · obtain ⟨level, hlevel, o, ho, rfl⟩ := hs.books.exists_of_indexed href
      exact (hs.books.sound hlevel o ho).past
  exact (SortedMap.size_le_card hids).trans (by simp)

end MatcherState

end Matcher
end VerifiableExchange
