import VerifiableExchange.Matcher.Steps

/-!
# Listings — the checker's own reading of the listing rule

The checker keeps a map of the open symbols, filled by a listing and emptied by a delist. An order
for a symbol with no entry never entered a book.
-/

namespace VerifiableExchange

open Lib Operator

namespace Verify

/-- The most characters a symbol may hold. -/
def maxSymbolCharacters : Nat := 32

/-- Whether the log can open a market under this name. -/
def namesAMarket (symbol : String) : Bool :=
  let characters := symbol.toList.length
  if characters = 0 ∨ maxSymbolCharacters < characters then false
  else symbol.toList.all (fun c => ('A' ≤ c && c ≤ 'Z') || ('0' ≤ c && c ≤ '9') || c = '-')

/-- The steps one listing opened a symbol on, in whole cents and whole tenths. -/
structure Steps where
  priceCents : Int
  quantityTenths : Int
  deriving DecidableEq

/-- The symbols the log has opened and not closed. -/
abbrev Listings := SortedMap String Steps

namespace Listings

/-- Reads one `ListSymbol`. -/
def list (listings : Listings) (symbol : String) (priceStep quantityStep : F64) : Listings :=
  if ¬namesAMarket symbol then listings
  else if listings.contains symbol then listings
  else
    match toGrid priceStep 100, toGrid quantityStep 10 with
    | some priceCents, some quantityTenths => listings.insert symbol ⟨priceCents, quantityTenths⟩
    | _, _ => listings

/-- Reads one `DelistSymbol`, and says whether the symbol really was open. -/
def delist (listings : Listings) (symbol : String) : Listings × Bool :=
  (listings.erase symbol, listings.contains symbol)

/-- Whether an order at this price and quantity could have entered a book. -/
def admits (listings : Listings) (symbol : String) (priceCents qtyTenths : Int) : Bool :=
  match listings.get? symbol with
  | some steps => priceCents.tmod steps.priceCents = 0 && qtyTenths.tmod steps.quantityTenths = 0
  | none => false

end Listings

/-- A new order as the sequencer published it. -/
structure FeedOrder where
  account : AccountId
  symbol : String
  side : Side
  priceCents : Int
  qtyTenths : Int
  onGrid : Bool
  /-- Whether the exchange could have traded this order at all. -/
  tradable : Bool
  orderType : OrderType
  timeInForce : TimeInForce
  postOnly : Bool
  deriving DecidableEq

/-- The order one message publishes. A value off the steps is kept rounded. -/
def FeedOrder.published (message : OrderMessage) (listings : Listings) : Option FeedOrder :=
  match message with
  | .new m =>
      let priceCents := toGrid m.price 100
      let qtyTenths := toGrid m.quantity 10
      some {
        account := m.account
        symbol := m.symbol
        side := m.side
        priceCents := priceCents.getD (roundAsI64 m.price 100)
        qtyTenths := qtyTenths.getD (roundAsI64 m.quantity 10)
        onGrid := priceCents.isSome && qtyTenths.isSome
        tradable :=
          match priceCents, qtyTenths with
          | some cents, some tenths => listings.admits m.symbol cents tenths
          | _, _ => false
        orderType := m.terms.orderType
        timeInForce := m.terms.timeInForce
        postOnly := m.terms.postOnly }
  | .cancel _ | .engineRule _ | .listSymbol _ | .delistSymbol _ => none

/-- The levels of one side of one symbol: under each price, what is left of each order. -/
abbrev ReplayLevels := SortedMap Int (SortedMap OrderId Int)

/-- The book of resting orders, rebuilt from the sequencer's own messages. -/
structure ReplayBook where
  bids : SortedMap String ReplayLevels
  asks : SortedMap String ReplayLevels
  /-- The order behind every id resting above. -/
  resting : SortedMap OrderId FeedOrder

namespace ReplayBook

def levels (book : ReplayBook) (symbol : String) : Side → Option ReplayLevels
  | .buy => book.bids.get? symbol
  | .sell => book.asks.get? symbol

/-- What is left of one order at this place of the book. -/
def leftAt (book : ReplayBook) (symbol : String) (side : Side) (priceCents : Int) (id : OrderId) :
    Option Int := do
  let levels ← book.levels symbol side
  let level ← levels.get? priceCents
  level.get? id

/-- Empties a whole market. -/
def closeSymbol (book : ReplayBook) (symbol : String) : ReplayBook where
  bids := book.bids.erase symbol
  asks := book.asks.erase symbol
  resting := book.resting.filter (fun _ order => order.symbol ≠ symbol)

theorem levels_closeSymbol (book : ReplayBook) (symbol q : String) (side : Side) :
    (book.closeSymbol symbol).levels q side = if q = symbol then none else book.levels q side := by
  cases side <;> exact SortedMap.get?_erase _ _ _

theorem leftAt_closeSymbol (book : ReplayBook) (symbol q : String) (side : Side) (priceCents : Int)
    (id : OrderId) :
    (book.closeSymbol symbol).leftAt q side priceCents id =
      if q = symbol then none else book.leftAt q side priceCents id := by
  rw [leftAt, levels_closeSymbol]
  split_ifs <;> rfl

end ReplayBook

/-! ## The two registries -/

open Matcher

theorem utf8Size_of_symbolChar {c : Char} (h : symbolChar c = true) : c.utf8Size = 1 := by
  have hbound : c.val ≤ 127 := by
    simp only [symbolChar, Bool.or_eq_true, Bool.and_eq_true, decide_eq_true_eq] at h
    rcases h with (⟨-, h⟩ | ⟨-, h⟩) | rfl
    · exact UInt32.le_trans (Char.le_def.1 h) (by decide)
    · exact UInt32.le_trans (Char.le_def.1 h) (by decide)
    · decide
  exact Char.utf8Size_eq_one_iff.2 hbound

theorem byteLength_of_symbolChars {symbol : String} (h : symbol.toList.all symbolChar = true) :
    byteLength symbol = symbol.toList.length := by
  have hone : symbol.toList.map Char.utf8Size = symbol.toList.map (fun _ => 1) :=
    List.map_congr_left (fun c hc => utf8Size_of_symbolChar (List.all_eq_true.1 h c hc))
  rw [byteLength, hone]
  simp

/-- A name the checker opens a market under is a name the exchange lists. -/
theorem namesAMarket_eq_validSymbol (symbol : String) :
    namesAMarket symbol = validSymbol symbol := by
  have hnames : namesAMarket symbol =
      if symbol.toList.length = 0 ∨ maxSymbolCharacters < symbol.toList.length then false
      else symbol.toList.all symbolChar := rfl
  rw [hnames, validSymbol]
  by_cases hchars : symbol.toList.all symbolChar = true
  · rw [byteLength_of_symbolChars hchars, hchars]
    cases hlist : symbol.toList with
    | nil => rfl
    | cons c rest =>
        rw [Bool.eq_iff_iff]
        simp [maxSymbolCharacters, maxSymbolLength]
  · rw [Bool.eq_false_iff.2 hchars, Bool.and_false, ite_self]

namespace Listings

/-- The checker's open symbols are the listed ones, on the same steps. -/
def Matches (listings : Listings) (registry : SymbolRegistry) : Prop :=
  ∀ symbol, listings.get? symbol =
    (registry.listing symbol).map (fun l => ⟨l.priceStepCents, l.quantityStepTenths⟩)

theorem Matches.contains {listings : Listings} {registry : SymbolRegistry}
    (h : listings.Matches registry) (symbol : String) :
    listings.contains symbol = (registry.listing symbol).isSome := by
  rw [SortedMap.contains, h, Option.isSome_map]

/-- An order resolves exactly when the checker reads it as tradable, on the same whole numbers. -/
theorem Matches.resolve_eq_ok_iff {listings : Listings} {registry : SymbolRegistry}
    (h : listings.Matches registry) (m : NewMessage) (terms : Int × Int) :
    resolve registry m.symbol m.price m.quantity = .ok terms ↔
      ∃ order, FeedOrder.published (.new m) listings = some order ∧ order.tradable = true ∧
        terms = (order.priceCents, order.qtyTenths) := by
  obtain ⟨limitCents, qtyTenths⟩ := terms
  simp only [resolve, bind_eq_ok, orFail_eq_ok, onSteps_eq_ok, FeedOrder.published,
    Option.some.injEq, exists_eq_left', admits, h m.symbol]
  cases registry.listing m.symbol with
  | none =>
      cases toGrid m.price 100 <;> cases toGrid m.quantity 10 <;> simp
  | some listing =>
      cases hprice : toGrid m.price 100 with
      | none => simp
      | some cents =>
          cases hquantity : toGrid m.quantity 10 with
          | none => simp
          | some tenths =>
              have hanswer : ∀ {a b c d : Int}, (pure (a, b) : Except Rejected (Int × Int)) =
                  .ok (c, d) ↔ (c, d) = (a, b) := by
                intro a b c d
                exact ⟨fun h => by cases h; rfl, fun h => by cases h; rfl⟩
              simp [hanswer]

theorem listing_insert (registry : SymbolRegistry) (symbol q : String) (l : Listing) :
    SymbolRegistry.listing (registry.insert symbol l) q =
      if q = symbol then (if l.listed then some l else none) else registry.listing q := by
  rw [SymbolRegistry.listing, SymbolRegistry.listing, SortedMap.get?_insert]
  split_ifs <;> simp [*]

/-- A listing opens the same market on both sides; one of an open symbol opens none. -/
theorem Matches.list {listings : Listings} {registry : SymbolRegistry}
    (h : listings.Matches registry) {symbol : String} {priceStep quantityStep : F64} {l : Listing}
    (hname : validSymbol symbol = true) (hprice : toGrid priceStep 100 = some l.priceStepCents)
    (hquantity : toGrid quantityStep 10 = some l.quantityStepTenths) (hlisted : l.listed = true) :
    (listings.list symbol priceStep quantityStep).Matches
      ((registry.list symbol l).getD registry) := by
  rw [← namesAMarket_eq_validSymbol] at hname
  unfold Listings.list SymbolRegistry.list
  rw [if_neg (not_not.2 hname), h.contains, hprice, hquantity]
  split_ifs
  · exact h
  · intro q
    rw [Option.getD_some, listing_insert, hlisted, SortedMap.get?_insert]
    by_cases hq : q = symbol
    · rw [if_pos hq, if_pos hq]
      rfl
    · rw [if_neg hq, if_neg hq]
      exact h q

/-- A delist closes the same market on both sides. -/
theorem Matches.delist {listings : Listings} {registry : SymbolRegistry}
    (h : listings.Matches registry) (symbol : String) :
    (listings.delist symbol).1.Matches ((registry.delist symbol).getD registry) := by
  intro q
  rw [Listings.delist, SortedMap.get?_erase]
  unfold SymbolRegistry.delist
  cases hlisting : registry.listing symbol with
  | none =>
      rw [Option.map_none, Option.getD_none]
      by_cases hq : q = symbol
      · rw [if_pos hq, hq, hlisting]
        rfl
      · rw [if_neg hq]
        exact h q
  | some l =>
      rw [Option.map_some, Option.getD_some, listing_insert]
      by_cases hq : q = symbol
      · rw [if_pos hq, if_pos hq]
        rfl
      · rw [if_neg hq, if_neg hq]
        exact h q

end Listings
end Verify
end VerifiableExchange
