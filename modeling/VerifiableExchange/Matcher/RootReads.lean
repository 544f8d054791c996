import VerifiableExchange.Matcher.Alike
import VerifiableExchange.Matcher.Extent

/-!
# RootReads — the pre-image is read back in one way only

Every part of the pre-image carries its length or its width, and the JSON parts end where they say.
So two reachable engines with one pre-image agree on every part a message can depend on.
-/

namespace VerifiableExchange

open Lib

/-! ## The ledger -/

theorem LedgerMode.text_injective : Function.Injective LedgerMode.text := by
  intro a b h
  cases a <;> cases b <;> first | rfl | exact absurd h (by decide)

theorem Side.text_injective : Function.Injective Side.text := by
  intro a b h
  cases a <;> cases b <;> first | rfl | exact absurd h (by decide)

theorem MarketAssets.toJson_injective : Function.Injective MarketAssets.toJson := by
  intro a b h
  simp only [toJson, Json.record_inj, List.cons.injEq, Prod.mk.injEq, Json.text_inj, true_and,
    and_true] at h
  obtain ⟨hsymbol, hbase, hquote⟩ := h
  cases a
  cases b
  simp_all

theorem Funding.toJson_injective : Function.Injective Funding.toJson := by
  intro a b h
  simp only [toJson, Json.record_inj, List.cons.injEq, Prod.mk.injEq, Json.text_inj,
    Json.num.injEq, Nat.cast_inj, Fin.val_inj, true_and, and_true] at h
  obtain ⟨haccount, hasset, hunits⟩ := h
  cases a
  cases b
  simp_all

theorem FundingConfig.toJson_injective : Function.Injective FundingConfig.toJson := by
  intro a b h
  simp only [toJson, Json.record_inj, List.cons.injEq, Prod.mk.injEq, Json.arr.injEq,
    Json.num.injEq, true_and, and_true] at h
  obtain ⟨hmarkets, hfunding, hfee⟩ := h
  have hmarkets := List.map_injective_iff.2 MarketAssets.toJson_injective hmarkets
  have hfunding := List.map_injective_iff.2 Funding.toJson_injective hfunding
  cases a
  cases b
  simp_all

theorem balanceJson_injective : Function.Injective balanceJson := by
  intro a b h
  simp only [balanceJson, Json.record_inj, List.cons.injEq, Prod.mk.injEq, Json.text_inj,
    Json.num.injEq, Nat.cast_inj, Fin.val_inj, true_and, and_true] at h
  obtain ⟨haccount, hasset, havailable, hreserved⟩ := h
  refine Prod.ext (ofLex.injective (Prod.ext haccount hasset)) ?_
  cases ha : a.2
  cases hb : b.2
  simp_all

theorem Reservation.toJson_injective : Function.Injective Reservation.toJson := by
  intro a b h
  simp only [toJson, Json.record_inj, List.cons.injEq, Prod.mk.injEq, Json.text_inj,
    Json.num.injEq, Nat.cast_inj, Fin.val_inj, true_and, and_true] at h
  obtain ⟨hid, haccount, hsymbol, hside, hlimit, hremaining, hasset, hunits⟩ := h
  have hside := Side.text_injective hside
  cases a
  cases b
  simp_all

namespace Ledger

/-- The rows of the reservations say their own keys. -/
theorem Keyed.reservations_eq {l l' : Ledger} (hl : l.Keyed) (hl' : l'.Keyed)
    (h : l.reservations.entries.map (fun e => e.2.toJson) =
      l'.reservations.entries.map (fun e => e.2.toJson)) : l.reservations = l'.reservations := by
  have hrows : l.reservations.entries.map Prod.snd = l'.reservations.entries.map Prod.snd := by
    refine List.map_injective_iff.2 Reservation.toJson_injective ?_
    rw [List.map_map, List.map_map]
    exact h
  have hentries : ∀ {l : Ledger}, l.Keyed → l.reservations.entries =
      (l.reservations.entries.map Prod.snd).map (fun r => (r.orderId, r)) := by
    intro l hl
    rw [List.map_map]
    refine ((List.map_congr_left ?_).trans (List.map_id _)).symm
    rintro ⟨id, r⟩ hentry
    exact Prod.ext (hl id r (SortedMap.mem_entries.1 hentry)) rfl
  exact SortedMap.entries_inj (by rw [hentries hl, hentries hl', hrows])

theorem eq_of_toJson {l l' : Ledger} (hl : l.Keyed) (hl' : l'.Keyed) (h : l.toJson = l'.toJson) :
    l = l' := by
  simp only [toJson, Json.record_inj, List.cons.injEq, Prod.mk.injEq, Json.text_inj,
    Json.num.injEq, Nat.cast_inj, Json.arr.injEq, true_and, and_true] at h
  obtain ⟨hmode, hconfig, hsequence, hbalances, hreservations⟩ := h
  have hmode := LedgerMode.text_injective hmode
  have hconfig := Json.ofOption_inj FundingConfig.toJson_injective (fun _ h => by cases h) hconfig
  have hbalances := SortedMap.entries_inj
    (List.map_injective_iff.2 balanceJson_injective hbalances)
  have hreservations := hl.reservations_eq hl' hreservations
  cases l
  cases l'
  simp_all

end Ledger

namespace Matcher

/-! ## The execution state -/

theorem sampleJson_injective : Function.Injective sampleJson := by
  intro a b h
  simp only [sampleJson, Json.arr.injEq, List.cons.injEq, Json.num.injEq, Nat.cast_inj,
    and_true] at h
  have hnum : Function.Injective Json.num := fun _ _ h => Json.num.inj h
  exact Prod.ext h.1 (Json.ofOption_inj hnum (fun _ h => nomatch h) h.2)

theorem MidWindowRow.toJson_injective : Function.Injective MidWindowRow.toJson := by
  intro a b h
  simp only [toJson, Json.record_inj, List.cons.injEq, Prod.mk.injEq, Json.num.injEq,
    Nat.cast_inj, Json.arr.injEq, true_and, and_true] at h
  obtain ⟨hclip, hsamples⟩ := h
  have hsamples := List.map_injective_iff.2 sampleJson_injective hsamples
  cases a
  cases b
  simp_all

theorem bytesJson_injective : Function.Injective bytesJson := by
  intro a b h
  have hbyte : Function.Injective (fun b : UInt8 => Json.num b.toNat) := by
    intro x y hxy
    exact UInt8.toNat_inj.1 (Nat.cast_injective (Json.num.inj hxy))
  exact List.map_injective_iff.2 hbyte (Json.arr.inj h)

theorem ResourceLimits.snapshotBytes_injective : Function.Injective snapshotBytes := by
  intro a b h
  obtain ⟨ha, ha', ha''⟩ := a.inRange
  obtain ⟨hb, hb', hb''⟩ := b.inRange
  simp only [snapshotBytes, List.append_assoc] at h
  obtain ⟨horders, h⟩ := readable_leU64 ha hb (List.append_cancel_left h)
  obtain ⟨hpositions, h⟩ := readable_leU64 ha' hb' h
  obtain ⟨hsymbols, -⟩ := readable_leU64 ha'' hb'' (congrArg (· ++ []) h)
  cases a
  cases b
  simp_all

/-- Equal JSON says equal windows and, name by name, equal extension bytes. -/
theorem ExecutionState.toJson_inj {x y : ExecutionState} (h : x.toJson = y.toJson) :
    x.midWindows = y.midWindows ∧
      ∀ name, (x.extensions.get? name).map Extension.bytes =
        (y.extensions.get? name).map Extension.bytes := by
  simp only [toJson, Json.record_inj, List.cons.injEq, Prod.mk.injEq, true_and, and_true] at h
  obtain ⟨-, hwindows, hextensions⟩ := h
  refine ⟨?_, ?_⟩
  · have hrows := SortedMap.mapValues_eq_of_entries id Function.injective_id hwindows
    ext1 symbol
    have hrow := congrArg (fun rows => rows.get? symbol) hrows
    simp only [SortedMap.get?_mapValues] at hrow
    exact Option.map_injective MidWindowRow.toJson_injective hrow
  · intro name
    have hrows := SortedMap.mapValues_eq_of_entries id
      (f := fun e : Extension => bytesJson e.bytes) Function.injective_id hextensions
    have hrow := congrArg (fun rows => rows.get? name) hrows
    simp only [SortedMap.get?_mapValues] at hrow
    refine Option.map_injective bytesJson_injective ?_
    rw [Option.map_map, Option.map_map]
    exact hrow

/-! ## The rows -/

theorem readable_listingBytes :
    Readable (fun e : String × Int × Int × Bool =>
      (utf8 e.1).length ≤ u64Max ∧ InI64 e.2.1 ∧ InI64 e.2.2.1) listingBytes := by
  rintro ⟨name, price, qty, listed⟩ ⟨name', price', qty', listed'⟩ ⟨hname, hprice, hqty⟩
    ⟨hname', hprice', hqty'⟩ r r' h
  simp only [listingBytes, List.append_assoc] at h
  obtain ⟨hnames, h⟩ := readable_field hname hname' h
  obtain ⟨hprices, h⟩ := readable_leI64 hprice hprice' h
  obtain ⟨hqtys, h⟩ := readable_leI64 hqty hqty' h
  obtain ⟨hlisted, hr⟩ := List.cons.inj h
  have hflag : ∀ x y : Bool, (if x then (1 : UInt8) else 0) = (if y then 1 else 0) → x = y := by
    decide
  exact ⟨Prod.ext (utf8_inj hnames) (Prod.ext hprices (Prod.ext hqtys (hflag _ _ hlisted))), hr⟩

/-- An order whose numbers fit their widths. -/
def RowFits (row : Int × RestingOrder) : Prop :=
  InI64 row.1 ∧ row.2.id ≤ u64Max ∧ InI64 row.2.qtyTenths

theorem readable_orderBytes : Readable RowFits orderBytes := by
  rintro ⟨price, id, account, qty⟩ ⟨price', id', account', qty'⟩ ⟨hprice, hid, hqty⟩
    ⟨hprice', hid', hqty'⟩ r r' h
  simp only [orderBytes, List.append_assoc] at h
  obtain ⟨hprices, h⟩ := readable_leI64 hprice hprice' h
  obtain ⟨hids, h⟩ := readable_leU64 hid hid' h
  obtain ⟨haccounts, h⟩ := readable_leU32 account.isLt account'.isLt h
  obtain ⟨hqtys, hr⟩ := readable_leI64 hqty hqty' h
  cases hprices
  cases hids
  cases Fin.ext haccounts
  cases hqtys
  exact ⟨rfl, hr⟩

/-- The orders of one side, as the pre-image lists them. -/
def SideFits (orders : List (Int × RestingOrder)) : Prop :=
  orders.length ≤ u64Max ∧ ∀ row ∈ orders, RowFits row

theorem readable_sideBytes (tag : UInt8) : Readable SideFits (sideBytes tag) := by
  intro a b ha hb r r' h
  exact readable_orderBytes.counted ha hb (List.cons.inj h).2

theorem readable_bookBytes :
    Readable (fun e : String × List (Int × RestingOrder) × List (Int × RestingOrder) =>
      (utf8 e.1).length ≤ u64Max ∧ SideFits e.2.1 ∧ SideFits e.2.2) bookBytes := by
  rintro ⟨name, bids, asks⟩ ⟨name', bids', asks'⟩ ⟨hname, hbids, hasks⟩ ⟨hname', hbids', hasks'⟩
    r r' h
  simp only [bookBytes, List.append_assoc] at h
  obtain ⟨hnames, h⟩ := readable_field hname hname' h
  obtain ⟨hbuys, h⟩ := readable_sideBytes 0 hbids hbids' h
  obtain ⟨hsells, hr⟩ := readable_sideBytes 1 hasks hasks' h
  exact ⟨Prod.ext (utf8_inj hnames) (Prod.ext hbuys hsells), hr⟩

theorem readable_positionBytes :
    Readable (fun e : AccountKey × Position =>
      (utf8 (ofLex e.1).2).length ≤ u64Max ∧ e.2.InRange) positionBytes := by
  rintro ⟨key, p⟩ ⟨key', p'⟩ ⟨hname, hp⟩ ⟨hname', hp'⟩ r r' h
  simp only [positionBytes, List.append_assoc] at h
  obtain ⟨haccounts, h⟩ := readable_leU32 (ofLex key).1.isLt (ofLex key').1.isLt h
  obtain ⟨hnames, h⟩ := readable_field hname hname' h
  obtain ⟨hnet, h⟩ := readable_leI64 hp.net hp'.net h
  obtain ⟨hcash, h⟩ := readable_leI64 hp.cash hp'.cash h
  obtain ⟨hbasis, h⟩ := readable_leI64 hp.basis hp'.basis h
  obtain ⟨hrealized, hr⟩ := readable_leI64 hp.realized hp'.realized h
  have hkey : key = key' := ofLex.injective (Prod.ext (Fin.ext haccounts) (utf8_inj hnames))
  have hpos : p = p' := by
    cases p
    cases p'
    simp_all
  exact ⟨Prod.ext hkey hpos, hr⟩

/-! ## Books -/

/-- The orders of one side at a price are the level there. -/
theorem filterMap_sideOrders (levels : Levels) (price : Int) :
    (sideOrders levels).filterMap (fun row => if row.1 = price then some row.2 else none) =
      levels.getD price [] := by
  -- One level gives its orders at its own price and none at another.
  have hlevel : ∀ (q : Int) (level : Level),
      (level.map (fun o => (q, o))).filterMap
        (fun row => if row.1 = price then some row.2 else none) =
          if q = price then level else [] := by
    intro q level
    rw [List.filterMap_map]
    by_cases hq : q = price
    · simp [hq]
    · simp [hq]
  have hentries : ∀ entries : List (Int × Level), Entries.Sorted entries →
      (entries.flatMap (fun level => level.2.map (fun o => (level.1, o)))).filterMap
        (fun row => if row.1 = price then some row.2 else none) =
          (Entries.lookup price entries).getD [] := by
    intro entries hsorted
    induction entries with
    | nil => rfl
    | cons entry rest ih =>
        obtain ⟨hfirst, hrest⟩ := List.pairwise_cons.1 hsorted
        rw [List.flatMap_cons, List.filterMap_append, hlevel, ih hrest, Entries.lookup]
        by_cases hprice : entry.1 = price
        · -- The keys after the first one are larger.
          have hnone : Entries.lookup price rest = none :=
            Entries.lookup_eq_none_of_lt (fun e he => hprice ▸ hfirst e he)
          simp [hprice, hnone]
        · simp [hprice, Ne.symm hprice]
  exact hentries levels.entries levels.sorted

/-- A side without empty levels is the list of its orders. -/
theorem sideOrders_inj {levels levels' : Levels}
    (hne : ∀ price level, levels.get? price = some level → level ≠ [])
    (hne' : ∀ price level, levels'.get? price = some level → level ≠ [])
    (h : sideOrders levels = sideOrders levels') : levels = levels' := by
  ext1 price
  have hlevel := filterMap_sideOrders levels price
  rw [h, filterMap_sideOrders levels' price] at hlevel
  unfold SortedMap.getD at hlevel
  cases hget : levels.get? price with
  | none => cases hget' : levels'.get? price with
    | none => rfl
    | some level' =>
        rw [hget, hget'] at hlevel
        exact absurd hlevel (hne' price level' hget')
  | some level => cases hget' : levels'.get? price with
    | none =>
        rw [hget, hget'] at hlevel
        exact absurd hlevel.symm (hne price level hget)
    | some level' =>
        rw [hget, hget'] at hlevel
        exact congrArg some hlevel.symm

theorem mem_sideOrders {levels : Levels} {row : Int × RestingOrder} :
    row ∈ sideOrders levels ↔ ∃ level, levels.get? row.1 = some level ∧ row.2 ∈ level := by
  simp only [sideOrders, List.mem_flatMap, List.mem_map]
  constructor
  · rintro ⟨⟨price, level⟩, hentry, o, ho, rfl⟩
    exact ⟨level, SortedMap.mem_entries.1 hentry, ho⟩
  · rintro ⟨level, hlevel, ho⟩
    exact ⟨(row.1, level), SortedMap.mem_entries.2 hlevel, row.2, ho, rfl⟩

/-! ## What fits in a reachable engine -/

theorem keptByFills_inRange :
    KeptByFills (fun positions => ∀ key p, positions.get? key = some p → p.InRange) := by
  intro order fill positions next _ _ hnext h key p hget
  obtain ⟨makerNext, takerNext⟩ := next
  obtain ⟨hmaker, htaker⟩ := Position.afterBothFills_eq_some hnext
  have hgetD : ∀ key, (positions.getD key .default).InRange := by
    intro key
    unfold SortedMap.getD
    cases hold : positions.get? key with
    | none => exact Position.inRange_default
    | some p => exact h key p hold
  have hmakerRange := (hgetD _).afterFill hmaker
  rcases get?_positionsAfter hget with rfl | rfl | hold
  · exact hmakerRange
  · refine Position.InRange.afterFill ?_ htaker
    split_ifs
    · exact hmakerRange
    · exact hgetD _
  · exact h key p hold

namespace MatcherState

/-- The texts an engine starts with are no longer than a text in memory can be. -/
structure TextsFit (s : MatcherState) : Prop where
  session : (utf8 (s.feedSession.getD "")).length ≤ u64Max
  pubkey : (utf8 (s.feedPubkey.getD "")).length ≤ u64Max

/-- What the pre-image is read back by. -/
structure Readback (s : MatcherState) : Prop where
  wellFormed : s.WellFormed
  bounded : s.Bounded
  inRange : ∀ key p, s.positions.get? key = some p → p.InRange
  texts : s.TextsFit

theorem Reachable.readback {env : Primitives} {s : MatcherState} (h : Reachable env s)
    (htexts : s.TextsFit) : s.Readback where
  wellFormed := h.wellFormed
  bounded := h.bounded
  inRange := h.positions keptByFills_inRange (fun _ _ hget => nomatch hget)
  texts := htexts

namespace Readback

variable {s : MatcherState}

theorem symbol_fits (h : s.Readback) {symbol : String} (hsymbol : s.symbols.contains symbol = true) :
    (utf8 symbol).length ≤ u64Max := by
  obtain ⟨l, hl⟩ := SortedMap.contains_iff.1 hsymbol
  have hname := (h.wellFormed.registry symbol l hl).name
  simp only [Operator.validSymbol, Bool.and_eq_true, decide_eq_true_eq] at hname
  rw [length_utf8]
  exact hname.1.2.trans (by decide)

theorem listings_fit (h : s.Readback) :
    (s.symbols.entries.map (fun e => (e.1, e.2.terms))).length ≤ u64Max ∧
      ∀ e ∈ s.symbols.entries.map (fun e => (e.1, e.2.terms)),
        (utf8 e.1).length ≤ u64Max ∧ InI64 e.2.1 ∧ InI64 e.2.2.1 := by
  have hlast := h.bounded.lastSeen
  refine ⟨?_, ?_⟩
  · rw [List.length_map]
    exact h.bounded.extent.symbols.trans hlast
  · rintro e he
    obtain ⟨⟨symbol, l⟩, hentry, rfl⟩ := List.mem_map.1 he
    have hget := SortedMap.mem_entries.1 hentry
    have hrow := h.wellFormed.registry symbol l hget
    have hprice := hrow.price_pos
    have hprice' := hrow.price_le
    have hqty := hrow.quantity_pos
    have hqty' := hrow.quantity_le
    refine ⟨h.symbol_fits (SortedMap.contains_iff.2 ⟨l, hget⟩), ?_, ?_⟩
    · simp only [Listing.terms, InI64, i64Min, i64Max, maxGridUnits] at *
      omega
    · simp only [Listing.terms, InI64, i64Min, i64Max, maxGridUnits] at *
      omega

theorem positions_fit (h : s.Readback) :
    s.positions.entries.length ≤ u64Max ∧ ∀ e ∈ s.positions.entries,
      (utf8 (ofLex e.1).2).length ≤ u64Max ∧ e.2.InRange := by
  refine ⟨h.bounded.positions_size.trans h.bounded.lastSeen, ?_⟩
  rintro ⟨key, p⟩ hentry
  have hget := SortedMap.mem_entries.1 hentry
  obtain ⟨G, -, hnames, hholders⟩ := h.bounded.extent.holders
  have hkey := hholders.position key (SortedMap.contains_iff.2 ⟨p, hget⟩)
  exact ⟨h.symbol_fits (hnames key hkey), h.inRange key p hget⟩

theorem rests_of_sideOrders {symbol : String} {book : Book}
    (hbook : s.books.get? symbol = some book) {side : Side} {row : Int × RestingOrder}
    (hrow : row ∈ sideOrders (book.levels side)) : Rests s.books ⟨symbol, side, row.1⟩ row.2 := by
  obtain ⟨level, hlevel, ho⟩ := mem_sideOrders.1 hrow
  exact ⟨level, levelAt_eq_some.2 ⟨book, hbook, hlevel⟩, ho⟩

/-- No id waits twice on one side. -/
theorem nodup_sideIds (h : s.Readback) {symbol : String} {book : Book}
    (hbook : s.books.get? symbol = some book) (side : Side) :
    ((sideOrders (book.levels side)).map (fun row => row.2.id)).Nodup := by
  have hnodup : (sideOrders (book.levels side)).Nodup := by
    refine (book.levels side).nodup_flatMap Prod.fst ?_ ?_
    · rintro level - row hrow
      obtain ⟨o, -, rfl⟩ := List.mem_map.1 hrow
      rfl
    · intro level hlevel
      have hat : levelAt s.books symbol side level.1 = some level.2 :=
        levelAt_eq_some.2 ⟨book, hbook, SortedMap.mem_entries.1 hlevel⟩
      refine List.pairwise_map.2 ((h.wellFormed.books.increasing hat).imp ?_)
      intro o o' hlt heq
      exact absurd (congrArg (fun row : Int × RestingOrder => row.2.id) heq) (ne_of_lt hlt)
  refine hnodup.map_on (fun row hrow row' hrow' hid => ?_)
  obtain ⟨href, ho⟩ := h.wellFormed.books.rests_unique (rests_of_sideOrders hbook hrow)
    (rests_of_sideOrders hbook hrow') hid
  exact Prod.ext (congrArg OrderRef.priceCents href) ho

/-- One side has at most as many orders as the index. -/
theorem side_fits (h : s.Readback) {symbol : String} {book : Book}
    (hbook : s.books.get? symbol = some book) (side : Side) :
    SideFits (sideOrders (book.levels side)) := by
  have hlast := h.bounded.lastSeen
  refine ⟨?_, ?_⟩
  · calc
      (sideOrders (book.levels side)).length =
          ((sideOrders (book.levels side)).map (fun row => row.2.id)).toFinset.card := by
            rw [List.toFinset_card_of_nodup (h.nodup_sideIds hbook side), List.length_map]
      _ ≤ s.openOrders.keys.card := Finset.card_le_card (fun id hid => by
            obtain ⟨row, hrow, rfl⟩ := List.mem_map.1 (List.mem_toFinset.1 hid)
            exact SortedMap.mem_keys.2 (SortedMap.contains_iff.2
              ⟨_, h.wellFormed.books.get?_of_rests (rests_of_sideOrders hbook hrow)⟩))
      _ ≤ s.lastSeen := s.openOrders.card_keys ▸ h.bounded.openOrders_size h.wellFormed
      _ ≤ u64Max := hlast
  · intro row hrow
    have hsound := h.wellFormed.books.sound_of_rests (rests_of_sideOrders hbook hrow)
    have hprice := hsound.price_pos
    have hprice' := hsound.price_le
    have hqty := hsound.qty_pos
    have hqty' := hsound.qty_le
    refine ⟨?_, hsound.past.trans hlast, ?_⟩
    · simp only [InI64, i64Min, i64Max, maxGridUnits] at *
      omega
    · simp only [InI64, i64Min, i64Max, maxGridUnits] at *
      omega

/-- A book stays only while an order waits in it, and its symbol stays listed. -/
theorem book_symbol (h : s.Readback) {symbol : String} {book : Book}
    (hbook : s.books.get? symbol = some book) : s.symbols.contains symbol = true := by
  have hne := h.wellFormed.noEmptyBook symbol book hbook
  obtain ⟨side, price, level, hlevel⟩ : ∃ side price level,
      (book.levels side).get? price = some level := by
    by_contra hnone
    push Not at hnone
    have hside : ∀ side, (book.levels side).isEmpty = true := fun side =>
      SortedMap.isEmpty_iff.2 (fun price => Option.eq_none_iff_forall_ne_some.2 (hnone side price))
    have hempty : book.isEmpty = true := by
      unfold Book.isEmpty
      rw [Bool.and_eq_true]
      exact ⟨hside .buy, hside .sell⟩
    rw [hne] at hempty
    cases hempty
  have hat := levelAt_eq_some.2 ⟨book, hbook, hlevel⟩
  obtain ⟨o, ho⟩ := List.exists_mem_of_ne_nil level (h.wellFormed.books.level_ne hat)
  obtain ⟨listing, hlisting, -⟩ := (h.wellFormed.books.sound hat o ho).onSteps
  exact SortedMap.contains_iff.2 ⟨listing, (Option.filter_eq_some_iff.1 hlisting).1⟩

theorem books_fit (h : s.Readback) :
    (s.books.entries.map (fun e => (e.1, sideOrders e.2.bids, sideOrders e.2.asks))).length ≤
        u64Max ∧
      ∀ e ∈ s.books.entries.map (fun e => (e.1, sideOrders e.2.bids, sideOrders e.2.asks)),
        (utf8 e.1).length ≤ u64Max ∧ SideFits e.2.1 ∧ SideFits e.2.2 := by
  refine ⟨?_, ?_⟩
  · rw [List.length_map]
    calc
      s.books.size ≤ s.symbols.keys.card := SortedMap.size_le_card (fun symbol hsymbol => by
        obtain ⟨book, hbook⟩ := SortedMap.contains_iff.1 hsymbol
        exact SortedMap.mem_keys.2 (h.book_symbol hbook))
      _ = s.symbols.size := s.symbols.card_keys
      _ ≤ u64Max := h.bounded.extent.symbols.trans h.bounded.lastSeen
  · intro e he
    obtain ⟨⟨symbol, book⟩, hentry, rfl⟩ := List.mem_map.1 he
    have hbook := SortedMap.mem_entries.1 hentry
    exact ⟨h.symbol_fits (h.book_symbol hbook), h.side_fits hbook .buy, h.side_fits hbook .sell⟩

end Readback

/-! ## Reading the pre-image -/

/-- The rule set is written only when it is not the first one, under a name of its own. -/
theorem rules_read {x y : RuleSet} {name name' : String} {r r' : Bytes}
    (hname : name ≠ "rules") (hname' : name' ≠ "rules")
    (hlen : (utf8 name).length ≤ u64Max) (hlen' : (utf8 name').length ≤ u64Max)
    (h : rulesBytes x ++ (field (utf8 name) ++ r) = rulesBytes y ++ (field (utf8 name') ++ r')) :
    x = y ∧ field (utf8 name) ++ r = field (utf8 name') ++ r' := by
  have htag : (utf8 "rules").length ≤ u64Max := by
    rw [length_utf8]
    decide
  have hsmall : ∀ rules : RuleSet, rules.version < 4294967296 :=
    fun rules => lt_of_le_of_lt rules.isKnown.2 (by decide)
  unfold rulesBytes at h
  -- The genesis rules write nothing, so the next tag tells the two cases apart.
  split_ifs at h with hx hy hy
  · exact ⟨hx.trans hy.symm, h⟩
  · rw [List.nil_append, List.append_assoc] at h
    exact absurd (utf8_inj (readable_field hlen htag h).1) hname
  · rw [List.nil_append, List.append_assoc] at h
    exact absurd (utf8_inj (readable_field htag hlen' h).1).symm hname'
  · rw [List.append_assoc, List.append_assoc] at h
    obtain ⟨hversion, hr⟩ := readable_leU32 (hsmall x) (hsmall y) (List.append_cancel_left h)
    refine ⟨?_, hr⟩
    cases x
    cases y
    cases hversion
    rfl

theorem length_utf8_le {name : String} (h : Operator.byteLength name ≤ u64Max) :
    (utf8 name).length ≤ u64Max := (length_utf8 name).trans_le h

/-- What follows the rule set starts with a name that is not its own. -/
theorem operator_head (key : Option Bytes) (r : Bytes) :
    ∃ name r', name ≠ "rules" ∧ (utf8 name).length ≤ u64Max ∧
      operatorBytes key ++ (field (utf8 "execution-state-v5") ++ r) = field (utf8 name) ++ r' := by
  cases key with
  | none => exact ⟨"execution-state-v5", r, by decide, length_utf8_le (by decide), rfl⟩
  | some key =>
      exact ⟨"operator", _, by decide, length_utf8_le (by decide), List.append_assoc _ _ _⟩

theorem operator_read {x y : Option Bytes} (hx : ∀ key, x = some key → key.length = 32)
    (hy : ∀ key, y = some key → key.length = 32) {r r' : Bytes}
    (h : operatorBytes x ++ (field (utf8 "execution-state-v5") ++ r) =
      operatorBytes y ++ (field (utf8 "execution-state-v5") ++ r')) : x = y ∧ r = r' := by
  have hexecution : (utf8 "execution-state-v5").length ≤ u64Max := length_utf8_le (by decide)
  have hoperator : (utf8 "operator").length ≤ u64Max := length_utf8_le (by decide)
  have hne : utf8 "execution-state-v5" ≠ utf8 "operator" := fun h => absurd (utf8_inj h) (by decide)
  -- A log without an operator writes nothing, so the next tag tells the two cases apart.
  cases x with
  | none => cases y with
    | none => exact ⟨rfl, List.append_cancel_left h⟩
    | some key =>
        simp only [operatorBytes, List.nil_append, List.append_assoc] at h
        exact absurd (readable_field hexecution hoperator h).1 hne
  | some key => cases y with
    | none =>
        simp only [operatorBytes, List.nil_append, List.append_assoc] at h
        exact absurd (readable_field hoperator hexecution h).1.symm hne
    | some key' =>
        simp only [operatorBytes, List.append_assoc] at h
        have hkey : key.length ≤ u64Max := (hx key rfl).trans_le (by decide)
        have hkey' : key'.length ≤ u64Max := (hy key' rfl).trans_le (by decide)
        obtain ⟨hkeys, h⟩ := readable_field hkey hkey' (List.append_cancel_left h)
        exact ⟨congrArg some hkeys, List.append_cancel_left h⟩

/-- The execution state ends where its JSON says, however long it is. -/
theorem execution_read {x y : ExecutionState} {r r' : Bytes}
    (h : field x.toJson.print ++ r = field y.toJson.print ++ r') : x.toJson = y.toJson ∧ r = r' := by
  simp only [field, List.append_assoc] at h
  obtain ⟨hfields, hr⟩ := Json.record_read
    (List.append_inj h (by rw [leU64, leU64, length_littleEndian, length_littleEndian])).2
  exact ⟨congrArg Json.record hfields, hr⟩

theorem chain_read {x y : Option Bytes} (h : chainBytes x = chainBytes y) : x = y := by
  have hne : ∀ chain : Bytes, field chain ≠ [] := by
    intro chain hnil
    have hlength := congrArg List.length hnil
    simp [field, leU64] at hlength
  cases x with
  | none => cases y with
    | none => rfl
    | some chain => exact absurd h.symm (hne chain)
  | some chain => cases y with
    | none => exact absurd h (hne chain)
    | some chain' => exact congrArg some (field_inj h)

/-! ## What the extensions say -/

theorem get?_ledgerExtension (s : MatcherState) :
    s.executionState.extensions.get? ledgerExtension = some (.ledger s.ledger) := by
  have hname : ledgerExtension ≠ resourceLimitsExtension := by decide
  unfold executionState
  dsimp only
  split
  · rw [SortedMap.get?_insert, if_neg hname, SortedMap.get?_insert, if_pos rfl]
  · rw [SortedMap.get?_erase, if_neg hname, SortedMap.get?_insert, if_pos rfl]

theorem get?_resourceLimitsExtension (s : MatcherState) :
    s.executionState.extensions.get? resourceLimitsExtension =
      s.resourceLimits.map Extension.resourceLimits := by
  unfold executionState
  dsimp only
  split
  · rename_i hlimits
    rw [SortedMap.get?_insert, if_pos rfl, hlimits]
    rfl
  · rename_i hlimits
    rw [SortedMap.get?_erase, if_pos rfl, hlimits]
    rfl

namespace Readback

variable {s t : MatcherState}

/-- Books with equal rows are equal. -/
theorem books_eq (hs : s.Readback) (ht : t.Readback)
    (h : s.books.entries.map (fun e => (e.1, sideOrders e.2.bids, sideOrders e.2.asks)) =
      t.books.entries.map (fun e => (e.1, sideOrders e.2.bids, sideOrders e.2.asks))) :
    s.books = t.books := by
  have hrows := SortedMap.mapValues_eq_of_entries id
    (f := fun book : Book => (sideOrders book.bids, sideOrders book.asks)) Function.injective_id h
  have hne : ∀ {u : MatcherState}, u.Readback → ∀ {symbol book},
      u.books.get? symbol = some book → ∀ side price level,
        (book.levels side).get? price = some level → level ≠ [] := by
    intro u hu symbol book hbook side price level hlevel
    exact hu.wellFormed.books.level_ne (levelAt_eq_some.2 ⟨book, hbook, hlevel⟩)
  ext1 symbol
  have hrow := congrArg (fun rows => rows.get? symbol) hrows
  simp only [SortedMap.get?_mapValues] at hrow
  cases hbook : s.books.get? symbol with
  | none => cases hbook' : t.books.get? symbol with
    | none => rfl
    | some book' => simp [hbook, hbook'] at hrow
  | some book => cases hbook' : t.books.get? symbol with
    | none => simp [hbook, hbook'] at hrow
    | some book' =>
        simp only [hbook, hbook', Option.map_some, Option.some.injEq, Prod.mk.injEq] at hrow
        -- A side is read back from its rows, since no level of it is empty.
        have hbids := sideOrders_inj (hne hs hbook .buy) (hne ht hbook' .buy) hrow.1
        have hasks := sideOrders_inj (hne hs hbook .sell) (hne ht hbook' .sell) hrow.2
        cases book
        cases book'
        simp only [Book.levels] at hbids hasks
        rw [hbids, hasks]

/-- The index is the one of the books. -/
theorem openOrders_eq (hs : s.Readback) (ht : t.Readback) (hbooks : s.books = t.books) :
    s.openOrders = t.openOrders := by
  ext1 id
  refine Option.ext (fun ref => ?_)
  rw [hs.wellFormed.books.indexed, ht.wellFormed.books.indexed, hbooks]

/-- Two engines with one pre-image agree on everything a message can depend on. -/
theorem alike_of_rootPreimage (hs : s.Readback) (ht : t.Readback)
    (h : s.rootPreimage = t.rootPreimage) : Alike .decisions s t := by
  unfold rootPreimage at h
  have h := List.append_cancel_left h
  obtain ⟨hlast, h⟩ := readable_leU64 hs.bounded.lastSeen ht.bounded.lastSeen h
  obtain ⟨hsymbols, h⟩ := readable_listingBytes.counted hs.listings_fit ht.listings_fit h
  obtain ⟨hbooks, h⟩ := readable_bookBytes.counted hs.books_fit ht.books_fit h
  obtain ⟨hpositions, h⟩ := readable_positionBytes.counted hs.positions_fit ht.positions_fit h
  -- The two optional parts are told apart by the name that comes first.
  obtain ⟨name, r, hname, hlen, hhead⟩ := operator_head s.operatorKey _
  obtain ⟨name', r', hname', hlen', hhead'⟩ := operator_head t.operatorKey _
  rw [hhead, hhead'] at h
  obtain ⟨hrules, h⟩ := rules_read hname hname' hlen hlen' h
  rw [← hhead, ← hhead'] at h
  obtain ⟨hoperator, h⟩ := operator_read hs.bounded.extent.operatorKey
    ht.bounded.extent.operatorKey h
  obtain ⟨hexecution, h⟩ := execution_read h
  obtain ⟨htrades, h⟩ := readable_leU64 hs.bounded.extent.trades ht.bounded.extent.trades h
  obtain ⟨hsession, h⟩ := readable_field hs.texts.session ht.texts.session h
  obtain ⟨hpubkey, h⟩ := readable_field hs.texts.pubkey ht.texts.pubkey h
  obtain ⟨hwindows, hextensions⟩ := ExecutionState.toJson_inj hexecution
  have hbooks := hs.books_eq ht hbooks
  have hledger := hextensions ledgerExtension
  rw [get?_ledgerExtension, get?_ledgerExtension] at hledger
  have hlimits := hextensions resourceLimitsExtension
  rw [get?_resourceLimitsExtension, get?_resourceLimitsExtension, Option.map_map,
    Option.map_map] at hlimits
  exact {
    extensions := fun name _ _ => by
      rw [hs.bounded.extent.extensions, ht.bounded.extent.extensions]
    resourceLimits := Option.map_injective ResourceLimits.snapshotBytes_injective hlimits
    symbols := SortedMap.entries_inj hsymbols
    books := hbooks
    openOrders := hs.openOrders_eq ht hbooks
    tradesTotal := htrades
    positions := SortedMap.entries_inj hpositions
    ledger := Ledger.eq_of_toJson hs.bounded.extent.keyed ht.bounded.extent.keyed
      (Json.print_inj (Option.some.inj hledger))
    lastSeen := hlast
    rules := hrules
    operatorKey := hoperator
    session := utf8_inj hsession
    pubkey := utf8_inj hpubkey
    chain := chain_read h
    mids := hs.bounded.extent.mids.eq_of_snapshot ht.bounded.extent.mids hwindows
    pending := trivial
    tally := False.elim }

end Readback

end MatcherState

end Matcher

end VerifiableExchange
