import VerifiableExchange.Verify.Replay
import Mathlib.Data.Finset.Card

/-!
# Tradable — the exchange and the checker hold the same markets open

The checker knows no limit on how many symbols an exchange holds; an exchange run under limits
refuses a listing past its own. Up to there both hold the same markets on the same steps, so both
read an order as tradable or neither does, and a delist takes the same orders out of both books.
-/

namespace VerifiableExchange

open Lib Matcher MatcherState

/-! ## What a log listed -/

namespace Operator

/-- The symbol a message opens in a log that runs under `key`. -/
def opens (env : Primitives) (session : String) (key : Option Bytes) (message : OrderMessage) :
    Option String :=
  match message with
  | .listSymbol m =>
      if key.any (fun key => verify env message session key) then some m.symbol else none
  | .delistSymbol _ | .engineRule _ | .new _ | .cancel _ => none

/-- The symbols the operator of a log ever asked to open. -/
def listedNames (env : Primitives) (session : String) (messages : List OrderMessage) :
    Finset String :=
  (messages.filterMap (opens env session (firstKey env session messages))).toFinset

variable {env : Primitives} {session : String}

theorem mem_listedNames {messages : List OrderMessage} {symbol : String} :
    symbol ∈ listedNames env session messages ↔ ∃ message ∈ messages,
      opens env session (firstKey env session messages) message = some symbol := by
  rw [listedNames, List.mem_toFinset, List.mem_filterMap]

/-- A symbol opened under a key a shorter log already runs under. -/
theorem opens_mono {messages : List OrderMessage} {message m : OrderMessage} {symbol : String}
    (h : opens env session (firstKey env session messages) m = some symbol) :
    opens env session (firstKey env session (messages ++ [message])) m = some symbol := by
  cases hkey : firstKey env session messages with
  | none =>
      rw [hkey] at h
      cases m <;> simp [opens] at h
  | some key =>
      rw [firstKey_append, hkey, Option.some_or]
      rwa [hkey] at h

theorem listedNames_subset_append (messages : List OrderMessage) (message : OrderMessage) :
    listedNames env session messages ⊆ listedNames env session (messages ++ [message]) := by
  intro symbol hsymbol
  obtain ⟨m, hm, hopens⟩ := mem_listedNames.1 hsymbol
  exact mem_listedNames.2 ⟨m, List.mem_append_left _ hm, opens_mono hopens⟩

theorem mem_listedNames_append {messages : List OrderMessage} {m : ListSymbolMessage} {key : Bytes}
    (h : signedUnder env session (firstKey env session messages) (.listSymbol m) = some key) :
    m.symbol ∈ listedNames env session (messages ++ [.listSymbol m]) := by
  refine mem_listedNames.2 ⟨.listSymbol m, by simp, ?_⟩
  rw [firstKey_append, or_signedUnder h, opens, Option.any_some, if_pos (verify_of_signedUnder h)]

end Operator

namespace Verify

/-! ## The same markets -/

/-- An exchange under these limits lists every symbol the operator of this log asks to open. -/
def HasRoom (env : Primitives) (limits : Option ResourceLimits) (session : String)
    (messages : List OrderMessage) : Prop :=
  ∀ l, limits = some l → (Operator.listedNames env session messages).card ≤ l.maxSymbols

theorem HasRoom.of_append {env : Primitives} {limits : Option ResourceLimits} {session : String}
    {messages : List OrderMessage} {message : OrderMessage}
    (h : HasRoom env limits session (messages ++ [message])) :
    HasRoom env limits session messages := fun l hl =>
  (Finset.card_le_card (Operator.listedNames_subset_append messages message)).trans (h l hl)

/-- The registry of the exchange and the listings of the walk after the same messages. -/
structure SameMarkets (env : Primitives) (session : String) (messages : List OrderMessage)
    (s : MatcherState) : Prop where
  same : (Walk.along env session messages).openSymbols.Matches s.symbols
  named : ∀ symbol, s.symbols.contains symbol = true →
    symbol ∈ Operator.listedNames env session messages

namespace SameMarkets

variable {env : Primitives} {limits : Option ResourceLimits} {session : String}
  {messages : List OrderMessage} {s s' : MatcherState} {message : OrderMessage}
  {received : Option Bytes}

/-- A signed listing is never refused for room. -/
theorem exists_listingOf (h : SameMarkets env session messages s)
    (hlimits : s.resourceLimits = limits) {m : ListSymbolMessage}
    (hroom : HasRoom env limits session (messages ++ [.listSymbol m])) {key : Bytes}
    (hsigned : Operator.signedUnder env session (Operator.firstKey env session messages)
      (.listSymbol m) = some key) :
    ∃ listing, s.listingOf m = some listing := by
  obtain ⟨hname, price, quantity, hprice, hquantity⟩ :=
    Operator.verify_listSymbol (Operator.verify_of_signedUnder hsigned)
  have hfits : ¬∃ l ∈ s.resourceLimits,
      s.symbols.contains m.symbol = false ∧ l.maxSymbols ≤ s.symbols.size := by
    rintro ⟨l, hl, hnew, hfull⟩
    have hnotin : m.symbol ∉ s.symbols.keys := by
      rw [SortedMap.mem_keys, hnew]
      exact Bool.false_ne_true
    have hsubset : insert m.symbol s.symbols.keys ⊆
        Operator.listedNames env session (messages ++ [.listSymbol m]) := by
      intro symbol hsymbol
      rcases Finset.mem_insert.1 hsymbol with rfl | hold
      · exact Operator.mem_listedNames_append hsigned
      · exact Operator.listedNames_subset_append messages _
          (h.named symbol (SortedMap.mem_keys.1 hold))
    have hcount := (Finset.card_le_card hsubset).trans (hroom l (hlimits ▸ hl))
    rw [Finset.card_insert_of_notMem hnotin, SortedMap.card_keys] at hcount
    omega
  unfold listingOf
  rw [if_neg (not_not.2 hname), if_neg hfits, hprice, hquantity]
  exact ⟨_, rfl⟩

/-- An accepted message moves the registry and the listings alike. -/
theorem after (h : SameMarkets env session messages s) (hlimits : s.resourceLimits = limits)
    (hroom : HasRoom env limits session (messages ++ [message])) {key : Bytes}
    (hsigned : Operator.signedUnder env session (Operator.firstKey env session messages) message =
      some key) :
    ((Walk.along env session messages).openSymbols.after message).Matches (s.symbolsAfter message) ∧
      ∀ symbol, (s.symbolsAfter message).contains symbol = true →
        symbol ∈ Operator.listedNames env session (messages ++ [message]) := by
  have hold : ∀ symbol, s.symbols.contains symbol = true →
      symbol ∈ Operator.listedNames env session (messages ++ [message]) := fun symbol hsymbol =>
    Operator.listedNames_subset_append messages message (h.named symbol hsymbol)
  cases message with
  | new m => exact ⟨h.same, hold⟩
  | cancel m => exact ⟨h.same, hold⟩
  | engineRule m => exact ⟨h.same, hold⟩
  | listSymbol m =>
      obtain ⟨listing, hlisting⟩ := h.exists_listingOf hlimits hroom hsigned
      obtain ⟨hname, hprice, hquantity, hlisted, -⟩ := listingOf_eq_some hlisting
      simp only [symbolsAfter, hlisting, Option.bind_some]
      refine ⟨h.same.list hname hprice hquantity hlisted, ?_⟩
      intro symbol hsymbol
      unfold SymbolRegistry.list at hsymbol
      split_ifs at hsymbol
      · exact hold symbol hsymbol
      · rw [Option.getD_some, SortedMap.contains, SortedMap.get?_insert] at hsymbol
        split_ifs at hsymbol with heq
        · rw [heq]
          exact Operator.mem_listedNames_append hsigned
        · exact hold symbol hsymbol
  | delistSymbol m =>
      refine ⟨h.same.delist m.symbol, ?_⟩
      intro symbol hsymbol
      unfold symbolsAfter SymbolRegistry.delist at hsymbol
      dsimp only at hsymbol
      cases hlisting : SymbolRegistry.listing s.symbols m.symbol with
      | none =>
          rw [hlisting] at hsymbol
          exact hold symbol hsymbol
      | some listing =>
          rw [hlisting, Option.map_some, Option.getD_some, SortedMap.contains,
            SortedMap.get?_insert] at hsymbol
          split_ifs at hsymbol with heq
          · rw [heq]
            exact hold m.symbol (SortedMap.contains_iff.2
              ⟨_, (Option.filter_eq_some_iff.1 hlisting).1⟩)
          · exact hold symbol hsymbol

end SameMarkets

theorem Walk.openSymbols_act (w : Walk) (message : OrderMessage) :
    (w.act message).openSymbols = w.openSymbols.after message := by
  unfold act
  split
  · split <;> rfl
  all_goals rfl

/-- One message keeps the markets of the exchange and of the walk together. -/
theorem SameMarkets.apply {env : Primitives} {limits : Option ResourceLimits} {session : String}
    {messages : List OrderMessage} {s s' : MatcherState} {message : OrderMessage}
    {received : Option Bytes} (h : SameMarkets env session messages s)
    (hs : Follows env limits session messages s)
    (hroom : HasRoom env limits session (messages ++ [message]))
    (happly : s.apply env message received = .ok s') :
    SameMarkets env session (messages ++ [message]) s' := by
  rcases hs.moves happly with ⟨-, hsymbols, -, -, hwalk⟩ | ⟨key, hsigned, hsymbols, -, _, hwalk⟩
  · refine ⟨by rw [hsymbols, hwalk]; exact h.same, fun symbol hsymbol => ?_⟩
    rw [hsymbols] at hsymbol
    exact Operator.listedNames_subset_append messages message (h.named symbol hsymbol)
  · obtain ⟨hsame, hnamed⟩ := h.after hs.limits_eq hroom hsigned
    refine ⟨?_, hsymbols ▸ hnamed⟩
    rw [hwalk, Walk.openSymbols_act, hsymbols]
    exact hsame

theorem SameMarkets.opening {env : Primitives} {genesis : ExecutionGenesis}
    {announced pubkey : Option String} {recording : Bool} {start : MatcherState}
    (hstart : genesis.opening announced pubkey recording = .ok start) :
    SameMarkets env (announced.getD "") [] start := by
  obtain ⟨ledger, -, -, rfl⟩ := ExecutionGenesis.opening_eq_ok hstart
  exact ⟨fun symbol => rfl, fun symbol hsymbol => by cases hsymbol⟩

/-- A whole log with room for its symbols keeps the markets together. -/
theorem SameMarkets.run {env : Primitives} {genesis : ExecutionGenesis}
    {announced pubkey : Option String} {recording : Bool} {start s : MatcherState}
    {log : List (OrderMessage × Option Bytes)}
    (hstart : genesis.opening announced pubkey recording = .ok start)
    (hrun : MatcherState.run env start log = .ok s)
    (hroom : HasRoom env genesis.resourceLimits (announced.getD "") (log.map Prod.fst)) :
    SameMarkets env (announced.getD "") (log.map Prod.fst) s := by
  have hboth := foldlM_reads (fun read s =>
    Follows env genesis.resourceLimits (announced.getD "") (read.map Prod.fst) s ∧
      (HasRoom env genesis.resourceLimits (announced.getD "") (read.map Prod.fst) →
        SameMarkets env (announced.getD "") (read.map Prod.fst) s))
    (fun read s m s' hs happly => ?_) log [] start s
    ⟨Follows.opening hstart, fun _ => SameMarkets.opening hstart⟩ hrun
  · exact hboth.2 hroom
  · rw [List.map_append]
    exact ⟨hs.1.apply happly, fun hroom => (hs.2 hroom.of_append).apply hs.1 hroom happly⟩

/-! ## The orders a delist takes away -/

/-- The market a listing message closes: a delist of a symbol that is open. -/
def Listings.closes (listings : Listings) : OrderMessage → Option String
  | .delistSymbol m => if listings.contains m.symbol then some m.symbol else none
  | .listSymbol _ | .engineRule _ | .new _ | .cancel _ => none

/-- The market the walk closes at a message, if it accepts it. -/
def Walk.closes (env : Primitives) (session : String) (w : Walk) (message : OrderMessage) :
    Option String :=
  if w.accepts env session message then w.openSymbols.closes message else none

/-- What the walk keeps of the markets after an operator's message. -/
def Walk.marketsAfter (env : Primitives) (session : String) (w : Walk) (book : ReplayBook)
    (mids : MidHistory) (named : NamedOrders) (message : OrderMessage) : Markets :=
  let markets : Markets := ⟨w.openSymbols, book, mids, named⟩
  if w.accepts env session message then replayed markets message else markets

/-- The book without the market that was closed. -/
def ReplayBook.withoutMarket (book : ReplayBook) : Option String → ReplayBook
  | some symbol => book.closeSymbol symbol
  | none => book

theorem book_replayed (markets : Markets) (message : OrderMessage) :
    (replayed markets message).book =
      markets.book.withoutMarket (markets.openSymbols.closes message) := by
  cases message with
  | delistSymbol m =>
      unfold replayed Listings.closes Listings.delist
      dsimp only
      by_cases hopen : markets.openSymbols.contains m.symbol = true
      · rw [if_pos hopen, if_pos hopen]
        rfl
      · rw [if_neg hopen, if_neg hopen]
        rfl
  | _ => rfl

theorem Walk.book_marketsAfter (env : Primitives) (session : String) (w : Walk) (book : ReplayBook)
    (mids : MidHistory) (named : NamedOrders) (message : OrderMessage) :
    (w.marketsAfter env session book mids named message).book =
      book.withoutMarket (w.closes env session message) := by
  unfold marketsAfter closes
  by_cases haccepts : w.accepts env session message = true
  · simp only [if_pos haccepts]
    exact book_replayed _ message
  · simp only [if_neg haccepts]
    rfl

/-- A row that stays unless it is gone, read back. -/
theorem get?_of_kept {V : Type*} {before after : SortedMap OrderId V} {gone : V → Prop}
    [DecidablePred gone] {id : OrderId} {v : V}
    (h : ∀ w, after.get? id = some w ↔ ¬gone w ∧ before.get? id = some w)
    (hv : before.get? id = some v) : after.get? id = if gone v then none else some v := by
  by_cases hgone : gone v
  · rw [if_pos hgone]
    refine Option.eq_none_iff_forall_not_mem.2 (fun w hw => ?_)
    obtain ⟨hstays, hold⟩ := (h w).1 hw
    cases hv.symm.trans hold
    exact hstays hgone
  · rw [if_neg hgone]
    exact (h v).2 ⟨hgone, hv⟩

theorem ReplayBook.resting_withoutMarket {book : ReplayBook} {closed : Option String} {id : OrderId}
    {order : FeedOrder} :
    (book.withoutMarket closed).resting.get? id = some order ↔
      closed ≠ some order.symbol ∧ book.resting.get? id = some order := by
  cases closed with
  | none => simp [withoutMarket]
  | some symbol =>
      rw [withoutMarket, closeSymbol, SortedMap.get?_filter_eq_some, and_comm, decide_eq_true_iff,
        ne_comm, ne_eq, ne_eq, Option.some.injEq]

theorem ReplayBook.leftAt_withoutMarket (book : ReplayBook) (closed : Option String)
    (symbol : String) (side : Side) (priceCents : Int) (id : OrderId) :
    (book.withoutMarket closed).leftAt symbol side priceCents id =
      if closed = some symbol then none else book.leftAt symbol side priceCents id := by
  cases closed with
  | none => rw [withoutMarket, if_neg (by simp)]
  | some q => rw [withoutMarket, leftAt_closeSymbol]; simp only [Option.some.injEq, eq_comm]

theorem levelAt_withoutMarket (books : Books) (closed : Option String) (symbol : String)
    (side : Side) (priceCents : Int) :
    levelAt (withoutMarket books closed) symbol side priceCents =
      if closed = some symbol then none else levelAt books symbol side priceCents := by
  cases closed with
  | none => rw [withoutMarket, if_neg (by simp)]
  | some q => rw [withoutMarket, levelAt_erase]; simp only [Option.some.injEq, eq_comm]

/-- A replayed book holds the orders the engine holds: each one at the same place, with the same
quantity left. -/
structure SameOrders (book : ReplayBook) (s : MatcherState) : Prop where
  indexed : ∀ id ref, s.openOrders.get? id = some ref ↔ ∃ order,
    book.resting.get? id = some order ∧ ref = ⟨order.symbol, order.side, order.priceCents⟩
  waiting : ∀ symbol side priceCents id qtyTenths,
    book.leftAt symbol side priceCents id = some qtyTenths ↔ ∃ level,
      levelAt s.books symbol side priceCents = some level ∧
        ∃ o ∈ level, o.id = id ∧ o.qtyTenths = qtyTenths

/-- The engine keeps exactly the orders of the markets that stay open. -/
theorem openOrders_apply {env : Primitives} {s s' : MatcherState} (hs : Reachable env s)
    {message : OrderMessage} (hfields : message.fieldsOf ≠ none) {received : Option Bytes}
    (happly : s.apply env message received = .ok s') {id : OrderId} {ref : OrderRef} :
    s'.openOrders.get? id = some ref ↔
      marketClosed env s message ≠ some ref.symbol ∧ s.openOrders.get? id = some ref := by
  have hs' : Reachable env s' := .applied hs happly
  rw [hs'.wellFormed.books.indexed, hs.wellFormed.books.indexed, books_apply hfields happly,
    levelAt_withoutMarket]
  by_cases hclosed : marketClosed env s message = some ref.symbol
  · simp [hclosed]
  · simp [hclosed]

/-- What the exchange and the checker agree on after `messages` of a log, and at an operator's
message `message` that moves the engine from `s` to `s'`. -/
structure MarketsAgree (env : Primitives) (session : String) (messages : List OrderMessage)
    (message : OrderMessage) (s s' : MatcherState) : Prop where
  /-- An order resolves exactly when the checker reads it as tradable, on the same terms. -/
  tradable : ∀ (m : NewMessage) (terms : Int × Int),
    resolve s.symbols m.symbol m.price m.quantity = .ok terms ↔ ∃ order,
      FeedOrder.published (.new m) (Walk.along env session messages).openSymbols = some order ∧
        order.tradable = true ∧ terms = (order.priceCents, order.qtyTenths)
  /-- The exchange deletes the orders of the market the checker closes, and no other order. -/
  exchangeDeletes : message.fieldsOf ≠ none → ∀ id ref, s.openOrders.get? id = some ref →
    s'.openOrders.get? id =
      if (Walk.along env session messages).closes env session message = some ref.symbol then none
      else some ref
  /-- The checker deletes the orders of that market, and no other order. -/
  checkerDeletes : ∀ book mids named id order, book.resting.get? id = some order →
    ((Walk.along env session messages).marketsAfter env session book mids named
        message).book.resting.get? id =
      if (Walk.along env session messages).closes env session message = some order.symbol then none
      else some order
  /-- Books that hold the same orders hold the same orders after the message. -/
  sameOrders : message.fieldsOf ≠ none → ∀ book mids named, SameOrders book s →
    SameOrders ((Walk.along env session messages).marketsAfter env session book mids named
      message).book s'

/-- The walk closes the market the exchange closes. -/
theorem SameMarkets.closes_eq {env : Primitives} {limits : Option ResourceLimits} {session : String}
    {messages : List OrderMessage} {s : MatcherState} (h : SameMarkets env session messages s)
    (hs : Follows env limits session messages s) {message : OrderMessage}
    (hfields : message.fieldsOf ≠ none) :
    (Walk.along env session messages).closes env session message = marketClosed env s message := by
  cases message with
  | delistSymbol m =>
      simp only [Walk.closes, Listings.closes, marketClosed, hs.accepts_eq hfields, hs.session_eq,
        h.same.contains, Bool.and_eq_true, ite_and]
  | _ => exact ite_self none

/-- Wherever the operator's symbols fit the limits of the run, the exchange and the checker hold the
same markets open and a delist takes the same orders away. -/
theorem markets_agree {env : Primitives} {genesis : ExecutionGenesis}
    {announced pubkey : Option String} {recording : Bool} {start s s' : MatcherState}
    {log : List (OrderMessage × Option Bytes)} {message : OrderMessage} {received : Option Bytes}
    (hstart : genesis.opening announced pubkey recording = .ok start)
    (hrun : MatcherState.run env start log = .ok s)
    (happly : s.apply env message received = .ok s')
    (hroom : HasRoom env genesis.resourceLimits (announced.getD "") (log.map Prod.fst)) :
    MarketsAgree env (announced.getD "") (log.map Prod.fst) message s s' := by
  have hs := Follows.run_opening hstart hrun
  have h := SameMarkets.run hstart hrun hroom
  refine ⟨fun m terms => h.same.resolve_eq_ok_iff m terms, ?_, ?_, ?_⟩
  · intro hfields id ref href
    rw [h.closes_eq hs hfields]
    exact get?_of_kept (fun ref => openOrders_apply hs.reachable hfields happly) href
  · intro book mids named id order horder
    rw [Walk.book_marketsAfter]
    exact get?_of_kept (fun order => ReplayBook.resting_withoutMarket) horder
  · intro hfields book mids named hsame
    rw [Walk.book_marketsAfter, h.closes_eq hs hfields]
    refine ⟨fun id ref => ?_, fun symbol side priceCents id qtyTenths => ?_⟩
    · rw [openOrders_apply hs.reachable hfields happly, hsame.indexed]
      simp only [ReplayBook.resting_withoutMarket]
      constructor
      · rintro ⟨hopen, order, horder, rfl⟩
        exact ⟨order, ⟨hopen, horder⟩, rfl⟩
      · rintro ⟨order, ⟨hopen, horder⟩, rfl⟩
        exact ⟨hopen, order, horder, rfl⟩
    · rw [ReplayBook.leftAt_withoutMarket, books_apply hfields happly, levelAt_withoutMarket]
      split_ifs
      · simp
      · exact hsame.waiting symbol side priceCents id qtyTenths

theorem markets_agree_sample :
    MarketsAgree Sample.env Sample.session [] Sample.listing.1 Sample.start Sample.listed := by
  have hroom : HasRoom Sample.env none Sample.session [] := by
    intro l hl
    cases hl
  exact @markets_agree Sample.env .synthetic (some Sample.session) none false
    Sample.start Sample.start _ [] _ _ rfl rfl Sample.apply_listing.1 hroom

/-! ## Past the limit -/

/-- A policy whose runs list one symbol. -/
def Sample.oneSymbol : ExecutionGenesis where
  ledgerMode := .syntheticLegacy
  funding := none
  resourceLimits := some ⟨100, 100, 1, by decide⟩

/-- A second listing, signed by the operator of the short log. -/
def Sample.secondListing : ListSymbolMessage where
  id := 2
  timestamp := 1001
  account := 4294967295
  symbol := "BTC-USDC"
  priceStep := .ofNat 1
  quantityStep := .ofNat 1
  nonce := some "101112131415161718191a1b1c1d1e1f"
  publicKey := Sample.operatorKey
  signature :=
    "2c718d05c1e0700b21a99d41e980ed4426ab8a9aefb2126682bc353117c85979" ++
      "fd849c9d825a6a56b75fabbb2098bd9ca757d8a0219fc8affcc10a9168999009"

/-- The third-party functions at the values both listings give them. -/
def Sample.bothSigned : Primitives :=
  { Sample.env with
    verifyStrict := fun key statement signed =>
      Sample.env.verifyStrict key statement signed ||
        (key = Sample.hex Sample.operatorKey &&
          signed = Sample.hex Sample.secondListing.signature &&
          statement = "\n".intercalate ["exchange-operator-list-v1", Sample.session, "BTC-USDC",
            "100", "10", "101112131415161718191a1b1c1d1e1f"]) }

def Sample.twoListings : List (OrderMessage × Option Bytes) :=
  [(Sample.listing.1, none), (.listSymbol Sample.secondListing, none)]

def Sample.narrowStart : MatcherState :=
  (Sample.oneSymbol.opening (some Sample.session) none false).toOption.getD .new

def Sample.narrowState : MatcherState :=
  (MatcherState.run Sample.bothSigned Sample.narrowStart Sample.twoListings).toOption.getD .new

/-- An order on the second market. -/
def Sample.secondMarket : NewMessage where
  id := 3
  timestamp := 1002
  account := 1
  symbol := "BTC-USDC"
  side := .buy
  price := .ofNat 100
  quantity := .ofNat 1
  nonce := none
  terms := { orderType := .limit, timeInForce := .goodTillCancel, postOnly := false }

/-- An exchange at its symbol limit refuses the second listing and every order on it; the checker
reads them as tradable. -/
theorem markets_disagree_at_limit :
    Sample.oneSymbol.opening (some Sample.session) none false = .ok Sample.narrowStart ∧
      MatcherState.run Sample.bothSigned Sample.narrowStart Sample.twoListings =
        .ok Sample.narrowState ∧
      resolve Sample.narrowState.symbols Sample.secondMarket.symbol Sample.secondMarket.price
        Sample.secondMarket.quantity = .error ⟨"unlisted_symbol"⟩ ∧
      (FeedOrder.published (.new Sample.secondMarket) (Walk.along Sample.bothSigned Sample.session
        (Sample.twoListings.map Prod.fst)).openSymbols).any FeedOrder.tradable = true := by
  have hvalues : (Sample.oneSymbol.opening (some Sample.session) none false).toOption.isSome =
        true ∧
      (MatcherState.run Sample.bothSigned Sample.narrowStart
        Sample.twoListings).toOption.isSome = true ∧
      resolve Sample.narrowState.symbols Sample.secondMarket.symbol Sample.secondMarket.price
        Sample.secondMarket.quantity = .error ⟨"unlisted_symbol"⟩ ∧
      (FeedOrder.published (.new Sample.secondMarket) (Walk.along Sample.bothSigned Sample.session
        (Sample.twoListings.map Prod.fst)).openSymbols).any FeedOrder.tradable = true := by
    decide +kernel
  obtain ⟨hopening, hrun, hresolve, htradable⟩ := hvalues
  exact ⟨eq_ok_getD hopening, eq_ok_getD hrun, hresolve, htradable⟩

end Verify
end VerifiableExchange
