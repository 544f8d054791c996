import VerifiableExchange.Matcher.Resting
import Mathlib.Data.Set.Function

/-!
# WellFormed — what holds of the books in every reachable state

`WellFormed` collects the book invariant, the absence of empty books, the registry's own bounds and
the agreement of the two cursors. One applied message keeps it, so every reachable state has it.
-/

namespace VerifiableExchange
namespace Matcher

open Lib

/-- What every row of the registry says. -/
structure RowInv (symbol : String) (l : Listing) : Prop where
  name : Operator.validSymbol symbol = true
  price_pos : 0 < l.priceStepCents
  price_le : l.priceStepCents ≤ maxGridUnits
  quantity_pos : 0 < l.quantityStepTenths
  quantity_le : l.quantityStepTenths ≤ maxGridUnits

/-- Every row of the registry is one the engine can trade on. -/
def RegistryInv (symbols : SymbolRegistry) : Prop :=
  ∀ symbol l, symbols.get? symbol = some l → RowInv symbol l

namespace MatcherState

/-- The books, the registry and the cursors of one state fit together. -/
structure WellFormed (s : MatcherState) : Prop where
  books : BookInv s.symbols s.lastSeen s.books s.openOrders
  noEmptyBook : NoEmptyBook s.books
  registry : RegistryInv s.symbols
  sequence : s.ledger.lastSequence = s.lastSeen

theorem WellFormed.noEmptyLevel {s : MatcherState} (h : s.WellFormed) (symbol : String)
    (side : Side) : NoEmptyLevel (facing (s.books.getD symbol .default) side) :=
  h.books.noEmptyLevel symbol side

/-- The books and the registry while the message `next` is at work. -/
structure Between (next : OrderId) (t : MatcherState) : Prop where
  books : BookInv t.symbols next t.books t.openOrders
  noEmptyBook : NoEmptyBook t.books
  registry : RegistryInv t.symbols

theorem WellFormed.between {s : MatcherState} (h : s.WellFormed) {next : OrderId}
    (hnext : s.lastSeen < next) : Between next s where
  books := h.books.mono hnext.le (fun _ _ hl _ => hl)
  noEmptyBook := h.noEmptyBook
  registry := h.registry

/-! ## New orders -/

/-- The match of an accepted order starts from the books as they are. -/
theorem WellFormed.matchInv {s : MatcherState} (h : s.WellFormed) {m : NewMessage}
    {order : IncomingOrder} (haccepted : s.Accepted m order) {reserved : Ledger} :
    MatchInv s.symbols s.lastSeen s.books order order.qtyTenths
      { s.bookAndTrades order.symbol with ledger := reserved } := by
  obtain ⟨limitCents, qtyTenths, listing, horder, hlisting, -, -, -, hlot, -⟩ := haccepted.terms
  have hrange := haccepted.qty_range
  refine {
    books := h.books.congr_levels (fun _ _ _ => levelAt_insert_getD _ _ _ _ _)
    remaining_nonneg := hrange.1.le
    remaining_le := hrange.2
    onLot := ⟨listing, ?_, ?_⟩ }
  · rw [haccepted.symbol_eq]
    exact hlisting
  · rw [horder]
    exact Int.dvd_of_tmod_eq_zero hlot

/-- The limit of an order that may rest is the one it arrived with, on its listing's price step. -/
theorem Accepted.limit_sound {s : MatcherState} {m : NewMessage} {order : IncomingOrder}
    (h : s.Accepted m order) (hrest : decideRemainder order = .rest) :
    (0 < order.limitCents ∧ order.limitCents ≤ maxGridUnits) ∧
      ∀ listing, SymbolRegistry.listing s.symbols order.symbol = some listing →
        listing.priceStepCents ∣ order.limitCents := by
  obtain ⟨limitCents, qtyTenths, listing, horder, hlisting, hlimit, -, hprice, -, hkeep⟩ := h.terms
  have htype : m.terms.orderType = .limit := by
    have htype := (decideRemainder_eq_rest hrest).1
    rw [horder] at htype
    exact htype
  rw [hkeep htype]
  refine ⟨toGrid_range hlimit, ?_⟩
  intro other hother
  rw [h.symbol_eq, hlisting] at hother
  cases hother
  exact Int.dvd_of_tmod_eq_zero hprice

/-- The books after a match, with an emptied one dropped. -/
theorem between_of_match {s : MatcherState} {next : OrderId} {symbol : String}
    (into : BookAndTrades) (hempty : NoEmptyBook s.books)
    (h : BookInv s.symbols next (s.books.insert symbol into.book) into.openOrders) :
    BookInv s.symbols next ((s.withBookAndTrades symbol into).pruneBook symbol).books
        into.openOrders ∧
      NoEmptyBook ((s.withBookAndTrades symbol into).pruneBook symbol).books := by
  refine ⟨h.congr_levels (fun _ _ _ => levelAt_pruneBook _ _ _ _ _), noEmptyBook_pruneBook ?_⟩
  intro q hq book hbook
  exact hempty q book (by simpa [withBookAndTrades, hq] using hbook)

theorem WellFormed.refusedOnBook {s : MatcherState} (h : s.WellFormed) {next : OrderId}
    (hnew : s.lastSeen < next) (symbol : String) (why : Rejected) :
    Between next (s.refusedOnBook symbol why) := by
  have hbetween := h.between hnew
  have hbooks := between_of_match (s.bookAndTrades symbol) h.noEmptyBook
    (hbetween.books.congr_levels (fun _ _ _ => levelAt_insert_getD _ _ _ _ _))
  exact ⟨hbooks.1, hbooks.2, hbetween.registry⟩

theorem WellFormed.matched {s t : MatcherState} (h : s.WellFormed) {m : NewMessage}
    {order : IncomingOrder} {left : Int} {after : BookAndTrades} (hnew : s.lastSeen < m.id)
    (haccepted : s.Accepted m order) (hexecuted : s.Executed order left after)
    (hfinished : Finished s order left after t) : Between m.id t := by
  have hbetween := h.between hnew
  obtain ⟨reserved, -, hfills⟩ := hexecuted.filled
  have hmatch := (h.matchInv haccepted).fills hfills
  have hafter : BookInv s.symbols m.id (s.books.insert order.symbol after.book)
      after.openOrders := hmatch.books.mono hnew.le (fun _ _ hl _ => hl)
  cases hfinished with
  | overflowed _ ledger _ _ =>
      have hbooks := between_of_match { after with ledger := ledger } h.noEmptyBook hafter
      exact ⟨hbooks.1, hbooks.2, hbetween.registry⟩
  | filled =>
      have hbooks := between_of_match after h.noEmptyBook hafter
      exact ⟨hbooks.1, hbooks.2, hbetween.registry⟩
  | cancelled _ _ _ ledger _ _ =>
      have hbooks := between_of_match { after with ledger := ledger } h.noEmptyBook hafter
      exact ⟨hbooks.1, hbooks.2, hbetween.registry⟩
  | rested hleft hstopped hdecide =>
      -- Only an order with a price of its own rests, and that price is on the listing's steps.
      obtain ⟨hprice, hstep⟩ := haccepted.limit_sound hdecide
      have hid := haccepted.id_eq
      have hrested := hmatch.rest (hid ▸ hnew) hleft hstopped hprice hstep
      rw [hid] at hrested
      have hbooks := between_of_match (rest order left after) h.noEmptyBook hrested
      exact ⟨hbooks.1, hbooks.2, hbetween.registry⟩

/-! ## Listings, delists and cancels -/

theorem listing_insert_of_ne {symbols : SymbolRegistry} {symbol q : String} {l : Listing}
    (h : q ≠ symbol) :
    SymbolRegistry.listing (symbols.insert symbol l) q = SymbolRegistry.listing symbols q := by
  simp [SymbolRegistry.listing, h]

theorem WellFormed.listed {s : MatcherState} (h : s.WellFormed) {m : ListSymbolMessage}
    {listing : Listing} {next : OrderId} (hnew : s.lastSeen < next)
    (hlisting : s.listingOf m = some listing)
    (hnone : SymbolRegistry.listing s.symbols m.symbol = none) :
    Between next { s with symbols := s.symbols.insert m.symbol listing } := by
  have hbetween := h.between hnew
  obtain ⟨hname, hprice, hqty, -, -⟩ := listingOf_eq_some hlisting
  refine ⟨hbetween.books.mono le_rfl ?_, hbetween.noEmptyBook, ?_⟩
  · intro q l hl _
    rw [listing_insert_of_ne]
    · exact hl
    · -- Nothing was listed under this name, so no order can rest on it.
      rintro rfl
      rw [hnone] at hl
      cases hl
  · intro q l hl
    rw [SortedMap.get?_insert] at hl
    split_ifs at hl with hq
    · cases hl
      subst hq
      exact ⟨hname, (toGrid_range hprice).1, (toGrid_range hprice).2, (toGrid_range hqty).1,
        (toGrid_range hqty).2⟩
    · exact h.registry q l hl

theorem WellFormed.delisted {s cleared : MatcherState} (h : s.WellFormed) {symbol : String}
    {listing : Listing} {next : OrderId} (hnew : s.lastSeen < next)
    (hlisting : SymbolRegistry.listing s.symbols symbol = some listing)
    (hcleared : clearBook
      { s with symbols := s.symbols.insert symbol { listing with listed := false } } symbol =
        .ok cleared) : Between next cleared := by
  have hbetween := h.between hnew
  have hrow := (Option.filter_eq_some_iff.1 hlisting).1
  have hregistry : RegistryInv (s.symbols.insert symbol { listing with listed := false }) := by
    intro q l hl
    rw [SortedMap.get?_insert] at hl
    split_ifs at hl with hq
    · cases hl
      subst hq
      have hold := h.registry q listing hrow
      exact ⟨hold.name, hold.price_pos, hold.price_le, hold.quantity_pos, hold.quantity_le⟩
    · exact h.registry q l hl
  -- Every order that still rests is of another symbol, whose row did not change.
  have hmono : ∀ {books : Books} {openOrders : SortedMap OrderId OrderRef},
      BookInv s.symbols next books openOrders → books.get? symbol = none →
      BookInv (s.symbols.insert symbol { listing with listed := false }) next books openOrders := by
    intro books openOrders hbooks hnone
    refine hbooks.mono le_rfl ?_
    rintro q l hl ⟨side, price, level, hlevel⟩
    rw [listing_insert_of_ne]
    · exact hl
    · rintro rfl
      simp [levelAt, hnone] at hlevel
  rcases clearBook_eq_ok hcleared with ⟨hnone, rfl⟩ | ⟨book, ledger, hbook, -, rfl⟩
  · exact ⟨hmono hbetween.books hnone, hbetween.noEmptyBook, hregistry⟩
  · refine ⟨hmono (hbetween.books.clear hbook) (SortedMap.get?_erase_self _ _), ?_, hregistry⟩
    intro q book' hbook'
    have hbook' : (s.books.erase symbol).get? q = some book' := hbook'
    rw [SortedMap.get?_erase] at hbook'
    split_ifs at hbook'
    exact h.noEmptyBook q book' hbook'

/-- Under the invariant an index entry always has its owner. -/
theorem WellFormed.ownerOf_eq_none {s : MatcherState} (h : s.WellFormed) {target : OrderId}
    (hnone : s.ownerOf target = none) : s.openOrders.get? target = none := by
  cases hget : s.openOrders.get? target with
  | none => rfl
  | some ref =>
      obtain ⟨level, hlevel, o, ho, hid⟩ := h.books.exists_of_indexed hget
      obtain ⟨book, hbook, hlevel⟩ := levelAt_eq_some.1 hlevel
      cases hfind : level.find? (fun resting => resting.id = target) with
      | none => exact absurd hid (by simpa using List.find?_eq_none.1 hfind o ho)
      | some found =>
          have howner : s.ownerOf target = some (ref, found.account) :=
            ownerOf_eq_some.2 ⟨hget, book, hbook, level, hlevel, found, hfind, rfl⟩
          rw [hnone] at howner
          cases howner

theorem WellFormed.cancelled {s : MatcherState} (h : s.WellFormed) {next : OrderId}
    (hnew : s.lastSeen < next) {target : OrderId} {ref : OrderRef} {book : Book}
    (href : s.openOrders.get? target = some ref) (hbook : s.books.get? ref.symbol = some book)
    (timestamp : Nat) (ledger : Ledger) :
    Between next (s.orderRemoved ref target timestamp ledger book) := by
  have hbetween := h.between hnew
  refine ⟨(hbetween.books.cancel href hbook).congr_levels
    (fun _ _ _ => levelAt_pruneBook _ _ _ _ _), noEmptyBook_pruneBook ?_, hbetween.registry⟩
  intro q hq other hother
  exact h.noEmptyBook q other (by simpa [hq] using hother)

/-! ## One message, and every run -/

theorem WellFormed.dispatch {env : Primitives} {s t : MatcherState} (h : s.WellFormed)
    {message : OrderMessage} (hnew : s.lastSeen < message.id)
    (hdispatch : dispatch env s message = .ok t) : Between message.id t := by
  have hbetween := h.between hnew
  cases dispatch_cases h.noEmptyLevel hdispatch with
  | refused | cancelRejected | ignored | ruled =>
      exact ⟨hbetween.books, hbetween.noEmptyBook, hbetween.registry⟩
  | refusedOnBook m why => exact h.refusedOnBook hnew m.symbol why
  | matched _ _ _ _ _ haccepted hexecuted hfinished =>
      exact h.matched hnew haccepted hexecuted hfinished
  | cancelIgnored m hnone =>
      -- Nothing was in the index, so nothing leaves it.
      have hbooks := hbetween.books
      rw [← SortedMap.erase_eq_self (h.ownerOf_eq_none hnone)] at hbooks
      exact ⟨hbooks, hbetween.noEmptyBook, hbetween.registry⟩
  | cancelled m ref ledger _ book howner _ hbook =>
      exact h.cancelled hnew (ownerOf_eq_some.1 howner).1 hbook m.timestamp ledger
  | listed m key count _ listing hlisting hnone =>
      have hlisted := h.listed hnew hlisting hnone
      exact ⟨hlisted.books, hlisted.noEmptyBook, hlisted.registry⟩
  | delisted m key count _ listing cleared hlisting hcleared =>
      have hsame : WellFormed { s with operatorKey := key, listingsIgnored := count } :=
        ⟨h.books, h.noEmptyBook, h.registry, h.sequence⟩
      have hdelisted := hsame.delisted hnew hlisting hcleared
      exact ⟨hdelisted.books, hdelisted.noEmptyBook, hdelisted.registry⟩

/-- An applied message is the one after the cursor. -/
theorem WellFormed.next_eq {env : Primitives} {s t u : MatcherState} (h : s.WellFormed)
    {message : OrderMessage} {received : Option Bytes} (hdispatch : MatcherState.dispatch env s message = .ok t)
    (hconsume : consume env t message received = .ok u) : message.id = s.lastSeen + 1 := by
  have hsequence := lastSequence_dispatch h.noEmptyLevel hdispatch
  rw [(consume_eq_ok hconsume).1, hsequence, h.sequence]

theorem WellFormed.apply {env : Primitives} {s s' : MatcherState} (h : s.WellFormed)
    {message : OrderMessage} {received : Option Bytes}
    (happly : s.apply env message received = .ok s') : s'.WellFormed := by
  obtain ⟨-, t, hdispatch, hconsume⟩ := apply_eq_ok happly
  have hnext := h.next_eq hdispatch hconsume
  have hbetween := h.dispatch (hnext ▸ Nat.lt_succ_self _) hdispatch
  obtain ⟨-, -, hledger, hlast, hsymbols, hbooks, hopen, -⟩ := consume_eq_ok hconsume
  exact {
    books := by
      rw [hsymbols, hlast, hbooks, hopen]
      exact hbetween.books
    noEmptyBook := by
      rw [hbooks]
      exact hbetween.noEmptyBook
    registry := by
      rw [hsymbols]
      exact hbetween.registry
    sequence := by rw [hledger, hlast] }

theorem lastSequence_openingLedger {genesis : ExecutionGenesis} {ledger : Ledger}
    (h : genesis.openingLedger = .ok ledger) : ledger.lastSequence = 0 := by
  unfold ExecutionGenesis.openingLedger at h
  split at h
  · cases h
    rfl
  · simp only [Ledger.funded, bind_eq_ok] at h
    obtain ⟨_, -, h⟩ := h
    cases h
    rfl
  · cases h

theorem wellFormed_opening {genesis : ExecutionGenesis} {session pubkey : Option String}
    {recording : Bool} {s : MatcherState}
    (h : genesis.opening session pubkey recording = .ok s) : s.WellFormed := by
  obtain ⟨ledger, hledger, -, rfl⟩ := ExecutionGenesis.opening_eq_ok h
  exact {
    books := BookInv.empty
    noEmptyBook := by simp [NoEmptyBook, MatcherState.new]
    registry := by simp [RegistryInv, MatcherState.new]
    sequence := lastSequence_openingLedger hledger }

/-- Every reachable state is well formed. -/
theorem Reachable.wellFormed {env : Primitives} {s : MatcherState} (h : Reachable env s) :
    s.WellFormed := by
  induction h with
  | genesis h => exact wellFormed_opening h
  | applied _ h ih => exact ih.apply h

/-! ## What a reader of the books relies on -/

/-- Resting orders and index entries are in bijection, with the same id, symbol, side and price. -/
theorem WellFormed.bijOn {s : MatcherState} (h : s.WellFormed) :
    Set.BijOn (fun resting : OrderRef × RestingOrder => (resting.2.id, resting.1))
      {resting | Rests s.books resting.1 resting.2}
      {entry | s.openOrders.get? entry.1 = some entry.2} := by
  refine ⟨?_, ?_, ?_⟩
  · rintro ⟨ref, o⟩ ho
    exact h.books.get?_of_rests ho
  · rintro ⟨ref, o⟩ ho ⟨ref', o'⟩ ho' heq
    obtain ⟨href, ho⟩ := h.books.rests_unique ho ho' (Prod.mk.inj heq).1
    exact Prod.ext href ho
  · rintro ⟨id, ref⟩ hentry
    obtain ⟨level, hlevel, o, ho, rfl⟩ := h.books.exists_of_indexed hentry
    exact ⟨(ref, o), ⟨level, hlevel, ho⟩, rfl⟩

/-- The representation invariant of the books, in every state a run reaches. -/
theorem reachable_books {env : Primitives} {s : MatcherState} (hs : Reachable env s) :
    Set.BijOn (fun resting : OrderRef × RestingOrder => (resting.2.id, resting.1))
        {resting | Rests s.books resting.1 resting.2}
        {entry | s.openOrders.get? entry.1 = some entry.2} ∧
      (∀ symbol book, s.books.get? symbol = some book → book.isEmpty = false ∧
        ∀ side price level, (book.levels side).get? price = some level →
          level ≠ [] ∧ level.Pairwise (fun a b => a.id < b.id) ∧
          ∃ listing, SymbolRegistry.listing s.symbols symbol = some listing ∧
            listing.priceStepCents ∣ price ∧
            ∀ o ∈ level, 0 < o.qtyTenths ∧ listing.quantityStepTenths ∣ o.qtyTenths) := by
  have h := hs.wellFormed
  refine ⟨h.bijOn, ?_⟩
  intro symbol book hbook
  refine ⟨h.noEmptyBook symbol book hbook, ?_⟩
  intro side price level hlevel
  have hat : levelAt s.books symbol side price = some level := levelAt_eq_some.2 ⟨book, hbook, hlevel⟩
  have hne := h.books.level_ne hat
  -- A level is never empty, so its front order names the listing.
  obtain ⟨front, hfront⟩ := List.exists_mem_of_ne_nil level hne
  obtain ⟨listing, hlisting, hprice, -⟩ := (h.books.sound hat front hfront).onSteps
  refine ⟨hne, h.books.increasing hat, listing, hlisting, hprice, ?_⟩
  intro o ho
  obtain ⟨listing', hlisting', -, hlot⟩ := (h.books.sound hat o ho).onSteps
  cases hlisting.symm.trans hlisting'
  exact ⟨(h.books.sound hat o ho).qty_pos, hlot⟩

/-- The two orders the short log leaves are both in the index. -/
theorem reachable_books_sample :
    Sample.state.openOrders.size = 2 ∧
      Set.BijOn (fun resting : OrderRef × RestingOrder => (resting.2.id, resting.1))
        {resting | Rests Sample.state.books resting.1 resting.2}
        {entry | Sample.state.openOrders.get? entry.1 = some entry.2} :=
  ⟨Sample.state_values.2.2.1, (reachable_books Sample.reachable_state).1⟩

/-- No book a run reaches is crossed or locked. -/
theorem reachable_not_crossed {env : Primitives} {s : MatcherState} (hs : Reachable env s)
    {symbol : String} {bid ask : Int} (hbid : s.bestBidCents symbol = some bid)
    (hask : s.bestAskCents symbol = some ask) : bid < ask := by
  simp only [bestBidCents, bestAskCents, Option.bind_eq_some_iff, Option.map_eq_some_iff] at hbid hask
  obtain ⟨book, hbook, ⟨bid, bids⟩, hlast, rfl⟩ := hbid
  obtain ⟨book', hbook', ⟨ask, asks⟩, hfirst, rfl⟩ := hask
  cases hbook.symm.trans hbook'
  exact hs.wellFormed.books.uncrossed
    (levelAt_eq_some.2 ⟨book, hbook, SortedMap.get?_of_last? hlast⟩)
    (levelAt_eq_some.2 ⟨book, hbook, SortedMap.get?_of_first? hfirst⟩)

theorem reachable_not_crossed_sample :
    Sample.state.bestBidCents "ETH-USDC" = some 9900 ∧
      Sample.state.bestAskCents "ETH-USDC" = some 10100 ∧ (9900 : Int) < 10100 := by
  obtain ⟨hbid, hask, -⟩ := Sample.state_values
  exact ⟨hbid, hask, reachable_not_crossed Sample.reachable_state hbid hask⟩

end MatcherState
end Matcher
end VerifiableExchange
