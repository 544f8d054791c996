import VerifiableExchange.Matcher.Backing

/-!
# Funded — assets are conserved and orders backed in every funded run

One message keeps `FundedInv`: the ledger's own law, and a reservation for every resting order with
none to spare. Whatever state a funded run reaches therefore passes the ledger's validation against
its own books.
-/

namespace VerifiableExchange
namespace Matcher

open Lib

/-! ## Releasing a whole book -/

namespace MatcherState

theorem conserving_releaseAll {config : FundingConfig} :
    ∀ {ids : List OrderId} {l l' : Ledger}, Ledger.Conserving config l →
      releaseAll ids l = .ok l' → Ledger.Conserving config l'
  | [], l, l', hl, h => by
      cases h
      exact hl
  | id :: ids, l, l', hl, h => by
      unfold releaseAll at h
      split at h
      · cases h
      · rename_i hrelease
        exact conserving_releaseAll (hl.release hrelease) h

theorem get?_releaseAll (id : OrderId) :
    ∀ {ids : List OrderId} {l l' : Ledger}, releaseAll ids l = .ok l' →
      l'.reservations.get? id = if id ∈ ids then none else l.reservations.get? id
  | [], l, l', h => by
      cases h
      simp
  | released :: ids, l, l', h => by
      unfold releaseAll at h
      split at h
      · cases h
      · rename_i hrelease
        rw [get?_releaseAll id h, Ledger.reservations_release hrelease, SortedMap.get?_erase]
        by_cases hid : id = released
        · simp [hid]
        · simp [hid]

/-! ## One message -/

/-- What a funded state keeps between two messages. -/
structure FundedInv (config : FundingConfig) (s : MatcherState) : Prop where
  conserving : Ledger.Conserving config s.ledger
  backed : Backed s.books s.ledger.reservations noSpare

/-- The match of an accepted order starts with its own reservation set aside. -/
theorem FundedInv.fundedMatch {config : FundingConfig} {s : MatcherState} (h : s.FundedInv config)
    (hs : s.WellFormed) {m : NewMessage} {order : IncomingOrder} (hnew : s.lastSeen < m.id)
    (haccepted : s.Accepted m order) {reserved : Ledger}
    (hreserve : s.ledger.reserve order.id order.account order.symbol order.side order.limitCents
      order.qtyTenths = .ok reserved) :
    FundedMatch config s.symbols s.lastSeen s.books order order.qtyTenths
      { s.bookAndTrades order.symbol with ledger := reserved } := by
  obtain ⟨asset, units, hreservations⟩ :=
    Ledger.reservations_reserve h.conserving.isFunded hreserve
  have hlevels : ∀ symbol side price, levelAt (s.books.insert order.symbol
      (s.bookAndTrades order.symbol).book) symbol side price =
        levelAt s.books symbol side price :=
    fun _ _ _ => levelAt_insert_getD _ _ _ _ _
  have hpast : s.lastSeen < order.id := haccepted.id_eq ▸ hnew
  refine {
    inv := hs.matchInv haccepted
    conserving := h.conserving.reserve hreserve
    backed := Backed.congr_levels ⟨?_, ?_⟩ hlevels
    own := ?_
    held := ?_
    past := hpast }
  · intro ref o ho
    obtain ⟨r, hr, hbacks⟩ := h.backed.of_rests ref o ho
    -- What rests is older than the arriving order.
    have hne : o.id ≠ order.id := ne_of_lt (lt_of_le_of_lt (hs.books.sound_of_rests ho).past hpast)
    exact ⟨r, by rw [hreservations, SortedMap.get?_insert_of_ne _ hne, hr], hbacks⟩
  · intro id r hr
    -- Its own reservation is the one that backs no resting order yet.
    by_cases hid : id = order.id
    · exact Or.inl hid
    · rw [hreservations, SortedMap.get?_insert_of_ne _ hid] at hr
      exact Or.inr ((h.backed.to_rests id r hr).resolve_left (fun hspare => hspare))
  · intro r hr
    rw [hreservations, SortedMap.get?_insert_self] at hr
    cases hr
    exact ⟨rfl, rfl, rfl, rfl, rfl⟩
  · intro _
    exact ⟨_, by rw [hreservations, SortedMap.get?_insert_self]⟩

theorem FundedInv.matched {config : FundingConfig} {s t : MatcherState} (h : s.FundedInv config)
    (hs : s.WellFormed) {m : NewMessage} {order : IncomingOrder} {left : Int}
    {after : BookAndTrades} (hnew : s.lastSeen < m.id) (haccepted : s.Accepted m order)
    (hexecuted : s.Executed order left after) (hfinished : Finished s order left after t) :
    t.FundedInv config := by
  obtain ⟨reserved, hreserve, hfills⟩ := hexecuted.filled
  have hmatch := (h.fundedMatch hs hnew haccepted hreserve).fills hfills
  cases hfinished with
  | overflowed _ ledger released hrelease =>
      exact ⟨hmatch.conserving.release hrelease,
        (hmatch.backed_of_released hrelease).congr_levels
          (fun _ _ _ => levelAt_pruneBook _ _ _ _ _)⟩
  | filled hleft =>
      obtain rfl : left = 0 := le_antisymm hleft hmatch.inv.remaining_nonneg
      exact ⟨hmatch.conserving,
        hmatch.backed_of_filled.congr_levels (fun _ _ _ => levelAt_pruneBook _ _ _ _ _)⟩
  | rested hleft =>
      exact ⟨hmatch.conserving,
        (hmatch.backed_of_rested hleft).congr_levels (fun _ _ _ => levelAt_pruneBook _ _ _ _ _)⟩
  | cancelled _ _ _ ledger released hrelease =>
      exact ⟨hmatch.conserving.release hrelease,
        (hmatch.backed_of_released hrelease).congr_levels
          (fun _ _ _ => levelAt_pruneBook _ _ _ _ _)⟩

/-- A cancel takes one order and its reservation together. -/
theorem FundedInv.withoutOrder {config : FundingConfig} {s : MatcherState} (h : s.FundedInv config)
    (hs : s.WellFormed) {target : OrderId} {ref : OrderRef} {book : Book} {level : Level}
    {result : Ledger × Bool} (href : s.openOrders.get? target = some ref)
    (hbook : s.books.get? ref.symbol = some book)
    (hget : (book.levels ref.side).get? ref.priceCents = some level)
    (hrelease : s.ledger.release target = .ok result) :
    Backed (s.books.insert ref.symbol (withoutOrder book ref target)) result.1.reservations
      noSpare := by
  have hedit := levelEdit_withoutOrder hbook hget target
  have hreservations := Ledger.reservations_release hrelease
  constructor
  · intro other o ho
    -- What still rests is not the cancelled order.
    have hboth : Rests s.books other o ∧ o.id ≠ target := by
      by_cases hplace : other = ref
      · subst hplace
        obtain ⟨hmem, hne⟩ := List.mem_filter.1 (hedit.rests_here.1 ho)
        exact ⟨hedit.mem_old.1 hmem, by simpa using hne⟩
      · have hold := (hedit.rests_elsewhere hplace).1 ho
        refine ⟨hold, ?_⟩
        intro hid
        have hother := hs.books.get?_of_rests hold
        rw [hid, href] at hother
        exact hplace (Option.some.inj hother).symm
    obtain ⟨r, hr, hbacks⟩ := h.backed.of_rests other o hboth.1
    exact ⟨r, by rw [hreservations, SortedMap.get?_erase_of_ne _ hboth.2, hr], hbacks⟩
  · intro id r hr
    rw [hreservations, SortedMap.get?_erase] at hr
    split_ifs at hr with hid
    obtain ⟨other, o, ho, rfl⟩ := (h.backed.to_rests id r hr).resolve_left (fun hspare => hspare)
    refine Or.inr ⟨other, o, ?_, rfl⟩
    by_cases hplace : other = ref
    · subst hplace
      exact hedit.rests_here.2 (List.mem_filter.2 ⟨hedit.mem_old.2 ho, by simpa using hid⟩)
    · exact (hedit.rests_elsewhere hplace).2 ho

theorem FundedInv.bookCleared {config : FundingConfig} {s : MatcherState} (h : s.FundedInv config)
    (hs : s.WellFormed) {symbol : String} {book : Book} {ledger : Ledger}
    (hbook : s.books.get? symbol = some book)
    (hledger : releaseAll ((restingOrders book).map RestingOrder.id) s.ledger = .ok ledger) :
    Ledger.Conserving config ledger ∧
      Backed (s.books.erase symbol) ledger.reservations noSpare := by
  refine ⟨conserving_releaseAll h.conserving hledger, ⟨?_, ?_⟩⟩
  · rintro ref o ⟨level, hlevel, ho⟩
    rw [levelAt_erase] at hlevel
    split_ifs at hlevel with hsymbol
    -- What rests elsewhere was not released: its id would rest in two places.
    have hrests : Rests s.books ref o := ⟨level, hlevel, ho⟩
    obtain ⟨r, hr, hbacks⟩ := h.backed.of_rests ref o hrests
    refine ⟨r, ?_, hbacks⟩
    rw [get?_releaseAll _ hledger, if_neg]
    · exact hr
    · intro hmem
      obtain ⟨other, hother, hid⟩ := List.mem_map.1 hmem
      obtain ⟨side, price, level', hlevel', hmem'⟩ := mem_restingOrders.1 hother
      have hrests' : Rests s.books ⟨symbol, side, price⟩ other :=
        ⟨level', levelAt_eq_some.2 ⟨book, hbook, hlevel'⟩, hmem'⟩
      exact hsymbol (congrArg OrderRef.symbol (hs.books.rests_unique hrests hrests' hid.symm).1)
  · intro id r hr
    rw [get?_releaseAll _ hledger] at hr
    split_ifs at hr with hid
    obtain ⟨ref, o, ⟨level, hlevel, ho⟩, rfl⟩ :=
      (h.backed.to_rests id r hr).resolve_left (fun hspare => hspare)
    refine Or.inr ⟨ref, o, ⟨level, ?_, ho⟩, rfl⟩
    -- A reservation that was kept belongs to an order of another symbol.
    rw [levelAt_erase, if_neg]
    · exact hlevel
    · rintro rfl
      obtain ⟨book', hbook', hget⟩ := levelAt_eq_some.1 hlevel
      cases hbook.symm.trans hbook'
      exact hid (List.mem_map_of_mem (mem_restingOrders.2 ⟨_, _, _, hget, ho⟩))

theorem FundedInv.dispatch {config : FundingConfig} {env : Primitives} {s t : MatcherState}
    (h : s.FundedInv config) (hs : s.WellFormed) {message : OrderMessage}
    (hnew : s.lastSeen < message.id) (hdispatch : dispatch env s message = .ok t) :
    t.FundedInv config := by
  cases dispatch_cases hs.noEmptyLevel hdispatch with
  | refused | cancelIgnored | cancelRejected | ignored | listed | ruled =>
      exact ⟨h.conserving, h.backed⟩
  | refusedOnBook =>
      refine ⟨h.conserving, h.backed.congr_levels ?_⟩
      intro symbol side price
      exact (levelAt_pruneBook _ _ _ _ _).trans (levelAt_insert_getD _ _ _ _ _)
  | matched _ _ _ _ _ haccepted hexecuted hfinished =>
      exact h.matched hs hnew haccepted hexecuted hfinished
  | cancelled _ _ _ _ book' howner hrelease hbook' =>
      obtain ⟨href, book, hbook, level, hget, -⟩ := ownerOf_eq_some.1 howner
      cases hbook.symm.trans hbook'
      exact ⟨h.conserving.release hrelease, (h.withoutOrder hs href hbook hget hrelease).congr_levels
        (fun _ _ _ => levelAt_pruneBook _ _ _ _ _)⟩
  | delisted _ _ _ _ _ _ _ hcleared =>
      rcases clearBook_eq_ok hcleared with ⟨-, rfl⟩ | ⟨book, ledger, hbook, hledger, rfl⟩
      · exact ⟨h.conserving, h.backed⟩
      · obtain ⟨hconserving, hbacked⟩ := h.bookCleared hs hbook hledger
        exact ⟨hconserving, hbacked⟩

theorem FundedInv.apply {config : FundingConfig} {env : Primitives} {s s' : MatcherState}
    (h : s.FundedInv config) (hs : s.WellFormed) {message : OrderMessage} {received : Option Bytes}
    (happly : s.apply env message received = .ok s') : s'.FundedInv config := by
  obtain ⟨-, t, hdispatch, hconsume⟩ := apply_eq_ok happly
  have hnext := hs.next_eq hdispatch hconsume
  have ht := h.dispatch hs (hnext ▸ Nat.lt_succ_self _) hdispatch
  obtain ⟨-, -, hledger, -, -, hbooks, -⟩ := consume_eq_ok hconsume
  refine ⟨ht.conserving.finishSequence _ hledger, ?_⟩
  rw [hbooks, hledger]
  exact ht.backed

/-! ## Every run from a funded genesis -/

theorem fundedInv_opening {config : FundingConfig} {limits : Option ResourceLimits}
    {session pubkey : Option String} {recording : Bool} {start : MatcherState}
    (h : ExecutionGenesis.opening ⟨.fundedSimulation, some config, limits⟩ session pubkey recording =
      .ok start) : start.FundedInv (Ledger.sortedConfig config) := by
  obtain ⟨ledger, hledger, -, rfl⟩ := ExecutionGenesis.opening_eq_ok h
  have hempty : ledger.reservations = .empty := by
    have hledger : Ledger.funded config = .ok ledger := hledger
    simp only [Ledger.funded, bind_eq_ok] at hledger
    obtain ⟨_, -, hledger⟩ := hledger
    cases hledger
    rfl
  refine ⟨Ledger.conserving_funded hledger, ?_, ?_⟩
  · rintro ref o ⟨level, hlevel, -⟩
    simp [levelAt, MatcherState.new] at hlevel
  · intro id r hr
    have hr : ledger.reservations.get? id = some r := hr
    rw [hempty] at hr
    cases hr

theorem Reaches.fundedInv {config : FundingConfig} {env : Primitives} {start s : MatcherState}
    (h : Reaches env start s) (hreachable : Reachable env start) (hstart : start.FundedInv config) :
    s.FundedInv config := by
  induction h with
  | refl => exact hstart
  | applied hs happly ih => exact ih.apply (hs.reachable hreachable).wellFormed happly

/-! ## The resting orders as rows -/

/-- The row of one resting order. -/
def rowOf (symbol : String) (side : Side) (price : Int) (o : RestingOrder) : OrderRow where
  orderId := o.id
  account := o.account
  symbol := symbol
  side := side
  priceCents := price
  qtyTenths := o.qtyTenths

def sideRows (symbol : String) (book : Book) (side : Side) : List OrderRow :=
  (book.levels side).entries.flatMap (fun level => level.2.map (rowOf symbol side level.1))

/-- Every resting order, book by book, as the recovery path lists them for the ledger. -/
def restingRows (books : Books) : List OrderRow :=
  books.entries.flatMap (fun e => [Side.buy, .sell].flatMap (sideRows e.1 e.2))

theorem mem_sideRows {symbol : String} {book : Book} {side : Side} {row : OrderRow} :
    row ∈ sideRows symbol book side ↔ row.symbol = symbol ∧ row.side = side ∧
      ∃ level, (book.levels side).get? row.priceCents = some level ∧
        ⟨row.orderId, row.account, row.qtyTenths⟩ ∈ level := by
  simp only [sideRows, List.mem_flatMap, List.mem_map, Prod.exists, SortedMap.mem_entries]
  constructor
  · rintro ⟨price, level, hlevel, o, ho, rfl⟩
    exact ⟨rfl, rfl, level, hlevel, ho⟩
  · rintro ⟨rfl, rfl, level, hlevel, ho⟩
    exact ⟨_, level, hlevel, _, ho, rfl⟩

theorem mem_restingRows {books : Books} {row : OrderRow} :
    row ∈ restingRows books ↔ Rests books ⟨row.symbol, row.side, row.priceCents⟩
      ⟨row.orderId, row.account, row.qtyTenths⟩ := by
  simp only [restingRows, List.mem_flatMap, Prod.exists, SortedMap.mem_entries, mem_sideRows, Rests,
    levelAt_eq_some]
  constructor
  · rintro ⟨symbol, book, hbook, side, -, rfl, rfl, level, hlevel, ho⟩
    exact ⟨level, ⟨book, hbook, hlevel⟩, ho⟩
  · rintro ⟨level, ⟨book, hbook, hlevel⟩, ho⟩
    refine ⟨row.symbol, book, hbook, row.side, ?_, rfl, rfl, level, hlevel, ho⟩
    cases row.side <;> simp

theorem WellFormed.nodup_restingRows {s : MatcherState} (h : s.WellFormed) :
    (restingRows s.books).Nodup := by
  refine s.books.nodup_flatMap OrderRow.symbol ?_ ?_
  · intro e he row hrow
    obtain ⟨side, -, hrow⟩ := List.mem_flatMap.1 hrow
    exact (mem_sideRows.1 hrow).1
  · intro e he
    have hbook := SortedMap.mem_entries.1 he
    -- Within a level the ids increase; levels differ in price, sides and symbols in theirs.
    have hside : ∀ side, (sideRows e.1 e.2 side).Nodup := by
      intro side
      refine (e.2.levels side).nodup_flatMap OrderRow.priceCents ?_ ?_
      · rintro level - row hrow
        obtain ⟨o, -, rfl⟩ := List.mem_map.1 hrow
        rfl
      · intro level hlevel
        have hat : levelAt s.books e.1 side level.1 = some level.2 :=
          levelAt_eq_some.2 ⟨e.2, hbook, SortedMap.mem_entries.1 hlevel⟩
        have hlt := h.books.increasing hat
        refine List.pairwise_map.2 (hlt.imp ?_)
        intro o o' hid heq
        exact absurd (congrArg OrderRow.orderId heq) (ne_of_lt hid)
    rw [List.flatMap_cons, List.flatMap_cons, List.flatMap_nil, List.append_nil]
    refine (hside .buy).append (hside .sell) ?_
    intro row hbuy hsell
    have hboth := (mem_sideRows.1 hbuy).2.1.symm.trans (mem_sideRows.1 hsell).2.1
    cases hboth

/-- No id rests twice. -/
theorem WellFormed.nodup_restingIds {s : MatcherState} (h : s.WellFormed) :
    ((restingRows s.books).map OrderRow.orderId).Nodup := by
  refine h.nodup_restingRows.map_on ?_
  intro row hrow row' hrow' hid
  obtain ⟨href, ho⟩ := h.books.rests_unique (mem_restingRows.1 hrow) (mem_restingRows.1 hrow') hid
  cases row
  cases row'
  simp_all

/-- The ids of the resting orders are those of the reservations. -/
theorem FundedInv.perm_ids {config : FundingConfig} {s : MatcherState} (h : s.FundedInv config)
    (hs : s.WellFormed) :
    ((restingRows s.books).map OrderRow.orderId).Perm
      (s.ledger.reservations.entries.map Prod.fst) := by
  refine (List.perm_ext_iff_of_nodup hs.nodup_restingIds s.ledger.reservations.nodup_keys).2 ?_
  intro id
  constructor
  · intro hid
    obtain ⟨row, hrow, rfl⟩ := List.mem_map.1 hid
    obtain ⟨r, hr, -⟩ := h.backed.of_rests _ _ (mem_restingRows.1 hrow)
    exact List.mem_map_of_mem (f := Prod.fst) (SortedMap.mem_entries.2 hr)
  · intro hid
    obtain ⟨⟨id, r⟩, he, rfl⟩ := List.mem_map.1 hid
    obtain ⟨ref, o, ho, hoid⟩ := (h.backed.to_rests id r (SortedMap.mem_entries.1 he)).resolve_left
      (fun hspare => hspare)
    exact List.mem_map.2 ⟨rowOf ref.symbol ref.side ref.priceCents o, mem_restingRows.2 ho, hoid⟩

/-- The ledger's reservations are exactly the resting orders, however they are listed. -/
theorem FundedInv.validateObligations {config : FundingConfig} {s : MatcherState}
    (h : s.FundedInv config) (hs : s.WellFormed) {rows : List OrderRow}
    (hrows : rows.Perm (restingRows s.books)) : s.ledger.validateObligations rows = .ok () := by
  have hids := (hrows.map OrderRow.orderId).trans (h.perm_ids hs)
  have hlength : rows.length = s.ledger.reservations.size := by
    simpa [SortedMap.size] using hids.length_eq
  have hnodup : (rows.map OrderRow.orderId).Nodup := hids.nodup_iff.2
    s.ledger.reservations.nodup_keys
  have hmatches : ∀ row ∈ rows, s.ledger.matchesReservation row = .ok () := by
    intro row hrow
    obtain ⟨r, hr, hbacks⟩ :=
      h.backed.of_rests _ _ (mem_restingRows.1 (hrows.mem_iff.1 hrow))
    simp only [Ledger.matchesReservation, bind_eq_ok, orFail_eq_ok, require_eq_ok]
    exact ⟨r, hr, hbacks.account_eq, hbacks.symbol_eq, hbacks.side_eq, hbacks.price_eq,
      hbacks.qty_eq⟩
  simp only [Ledger.validateObligations, Ledger.matchesRows, bind_eq_ok, h.conserving.isFunded,
    Bool.not_true, Bool.false_eq_true, if_false, require_eq_ok]
  exact ⟨(), h.conserving.validate, (), hlength, (), hnodup, forM_eq_ok.2 hmatches⟩

end MatcherState

theorem granted_sortedConfig (config : FundingConfig) (asset : String) :
    Ledger.granted (Ledger.sortedConfig config) asset = Ledger.granted config asset :=
  ((List.perm_insertionSort _ config.funding).map _).sum_eq

namespace MatcherState

/-- Every state of a funded run passes the ledger's validation against its own resting orders:
assets are conserved, balances are not negative, each resting order has exactly its reservation,
and reserved balances are what the reservations require. -/
theorem reachable_funded {env : Primitives} {config : FundingConfig}
    {limits : Option ResourceLimits} {session pubkey : Option String} {recording : Bool}
    {start s : MatcherState}
    (hstart : ExecutionGenesis.opening ⟨.fundedSimulation, some config, limits⟩ session pubkey
      recording = .ok start) (hs : Reaches env start s) :
    s.ledger.validate = .ok () ∧
    (∀ rows : List OrderRow, rows.Perm (restingRows s.books) →
      s.ledger.validateObligations rows = .ok ()) ∧
    (∀ asset, Ledger.holdings s.ledger.balances asset = Ledger.granted config asset) ∧
    (∀ key b, s.ledger.balances.get? key = some b → 0 ≤ b.available ∧ 0 ≤ b.reserved) ∧
    (∀ ref o, Rests s.books ref o →
      ∃ r, s.ledger.reservations.get? o.id = some r ∧ Backs r ref o) ∧
    Set.BijOn (fun resting : OrderRef × RestingOrder => resting.2.id)
      {resting | Rests s.books resting.1 resting.2}
      {id | ∃ r, s.ledger.reservations.get? id = some r} ∧
    ∀ key, (s.ledger.balances.getD key .default).reserved =
      Ledger.obligation s.ledger.reservations key := by
  have hopening : Reachable env start := .genesis hstart
  have hwell := (hs.reachable hopening).wellFormed
  have h := hs.fundedInv hopening (fundedInv_opening hstart)
  refine ⟨h.conserving.validate, fun rows hrows => h.validateObligations hwell hrows, ?_, ?_,
    h.backed.of_rests, ⟨?_, ?_, ?_⟩, h.conserving.backed⟩
  · intro asset
    rw [h.conserving.conserved, granted_sortedConfig]
  · intro key b hb
    obtain ⟨havailable, hreserved, -⟩ :=
      Ledger.checkBalance_eq_ok.1 (h.conserving.balance key b hb).1
    exact ⟨havailable, hreserved⟩
  · rintro ⟨ref, o⟩ ho
    obtain ⟨r, hr, -⟩ := h.backed.of_rests ref o ho
    exact ⟨r, hr⟩
  · rintro ⟨ref, o⟩ ho ⟨ref', o'⟩ ho' hid
    obtain ⟨href, heq⟩ := hwell.books.rests_unique ho ho' hid
    exact Prod.ext href heq
  · rintro id ⟨r, hr⟩
    obtain ⟨ref, o, ho, rfl⟩ := (h.backed.to_rests id r hr).resolve_left (fun hspare => hspare)
    exact ⟨(ref, o), ho, rfl⟩

/-- The short log under a funded genesis: the seller holds the base asset, the buyer the cash. -/
def Sample.funding : FundingConfig where
  markets := [{ symbol := "ETH-USDC", baseAsset := "ETH", quoteAsset := "USDC" }]
  funding := [{ account := 1, asset := "ETH", units := 5000, inRange := by decide },
    { account := 2, asset := "USDC", units := 500000, inRange := by decide }]
  feeUnits := 0

def Sample.fundedStart : MatcherState :=
  ((ExecutionGenesis.opening ⟨.fundedSimulation, some Sample.funding, none⟩ (some Sample.session)
    none false).toOption).getD .new

def Sample.fundedState : MatcherState :=
  (run Sample.env Sample.fundedStart Sample.log).toOption.getD .new

theorem Sample.opening_fundedStart :
    ExecutionGenesis.opening ⟨.fundedSimulation, some Sample.funding, none⟩ (some Sample.session)
      none false = .ok Sample.fundedStart := eq_ok_getD (by decide +kernel)

theorem Sample.fundedState_values :
    (run Sample.env Sample.fundedStart Sample.log).toOption.isSome = true ∧
      Sample.fundedState.ledger.reservations.size = 2 ∧
      (Sample.fundedState.positions.getD (Ledger.accountKey 1 "ETH-USDC") .default).netQtyTenths =
        -10 := by
  decide +kernel

theorem Sample.reaches_fundedState : Reaches Sample.env Sample.fundedStart Sample.fundedState :=
  reaches_of_run (eq_ok_getD Sample.fundedState_values.1)

/-- The resting orders of the short log keep their funds aside. -/
theorem reachable_funded_sample :
    Sample.fundedState.ledger.reservations.size = 2 ∧
      Sample.fundedState.ledger.validateObligations (restingRows Sample.fundedState.books) = .ok () :=
  ⟨Sample.fundedState_values.2.1,
    (reachable_funded Sample.opening_fundedStart Sample.reaches_fundedState).2.1 _ (List.Perm.refl _)⟩

end MatcherState
end Matcher
end VerifiableExchange
