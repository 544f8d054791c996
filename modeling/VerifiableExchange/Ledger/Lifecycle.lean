import VerifiableExchange.Ledger.Calls
import VerifiableExchange.Ledger.Validity

/-!
# Lifecycle — what an order takes from its account and gives back

Each call that succeeds moves available units on behalf of orders: a reservation takes its worst
cost, a fill returns the price improvement and pays each side what the other gave, and a release
returns what is left. Over any run the movements of one order add up to what it held before, less
what its fills cost, less what it still holds.
-/

namespace VerifiableExchange
namespace Ledger

open Lib

/-! ## What a call moves -/

/-- A change of one available balance on behalf of an order. Proceeds come from the other side of
a fill; every other movement is of the order's own funds. -/
structure Movement where
  orderId : OrderId
  key : AccountKey
  units : Int
  proceeds : Bool
  deriving DecidableEq

/-- One side of a fill, under the key it pays from. -/
structure FillSide where
  orderId : OrderId
  key : AccountKey
  side : Side
  priceCents : Int
  qtyTenths : Int
  deriving DecidableEq

/-- What the side gives up: price times quantity, or the base quantity. -/
def FillSide.cost (fill : FillSide) : Int := reserveAmount fill.side fill.priceCents fill.qtyTenths

/-- The key an order's funds are set aside under. -/
def keyOf (r : Reservation) : AccountKey := accountKey r.account r.asset

/-- A fill gives the buyer back what it set aside too much, and each side what the other paid. -/
def fillMovements (maker taker : Reservation) (priceCents qtyTenths : Int) : List Movement :=
  let buyer := buyerOf maker taker
  let seller := sellerOf maker taker
  [⟨buyer.orderId, keyOf buyer, buyer.limitCents * qtyTenths - priceCents * qtyTenths, false⟩,
    ⟨seller.orderId, accountKey seller.account buyer.asset, priceCents * qtyTenths, true⟩,
    ⟨buyer.orderId, accountKey buyer.account seller.asset, qtyTenths * 100, true⟩]

def sidesOf (maker taker : Reservation) (priceCents qtyTenths : Int) : List FillSide :=
  let buyer := buyerOf maker taker
  let seller := sellerOf maker taker
  [⟨buyer.orderId, keyOf buyer, .buy, priceCents, qtyTenths⟩,
    ⟨seller.orderId, keyOf seller, .sell, priceCents, qtyTenths⟩]

/-- What a call that succeeds moves. -/
def movements (l : Ledger) : Call → List Movement
  | .reserve orderId account symbol side limitCents qtyTenths =>
      if l.isFunded then
        match l.market symbol with
        | .ok market =>
            [⟨orderId, accountKey account (reservedAsset market side),
              -reserveAmount side limitCents qtyTenths, false⟩]
        | .error _ => []
      else []
  | .settleFill makerOrder takerOrder priceCents qtyTenths =>
      if l.isFunded then
        match l.reservations.get? makerOrder, l.reservations.get? takerOrder with
        | some maker, some taker => fillMovements maker taker priceCents qtyTenths
        | _, _ => []
      else []
  | .release orderId =>
      match l.reservations.get? orderId with
      | some r => [⟨orderId, keyOf r, r.units, false⟩]
      | none => []
  | .finishSequence _ => []

/-- The fills of a call that succeeds, once for each side. -/
def fillSides (l : Ledger) : Call → List FillSide
  | .settleFill makerOrder takerOrder priceCents qtyTenths =>
      if l.isFunded then
        match l.reservations.get? makerOrder, l.reservations.get? takerOrder with
        | some maker, some taker => sidesOf maker taker priceCents qtyTenths
        | _, _ => []
      else []
  | _ => []

/-! ## Sums -/

def movedUnits (key : AccountKey) (moves : List Movement) : Int :=
  (moves.map (fun m => if m.key = key then m.units else 0)).sum

/-- What the movements of an order's own funds add up to under one key. -/
def ownUnits (id : OrderId) (key : AccountKey) (moves : List Movement) : Int :=
  (moves.map (fun m =>
    if m.orderId = id ∧ m.key = key ∧ m.proceeds = false then m.units else 0)).sum

/-- What the fills of one order cost under one key. -/
def costOf (id : OrderId) (key : AccountKey) (fills : List FillSide) : Int :=
  (fills.map (fun f => if f.orderId = id ∧ f.key = key then f.cost else 0)).sum

/-- What an order has set aside under one key. -/
def held (l : Ledger) (id : OrderId) (key : AccountKey) : Int :=
  (l.reservations.get? id).elim 0 (fun r => if keyOf r = key then r.units else 0)

def availableOf (l : Ledger) (key : AccountKey) : Int := (l.balances.getD key .default).available

/-- The movements account for the available balances, and the fills for the movements. -/
structure Accounted (l l' : Ledger) (moves : List Movement) (fills : List FillSide) : Prop where
  available : ∀ key, l'.availableOf key = l.availableOf key + movedUnits key moves
  own : ∀ id key, ownUnits id key moves = l.held id key - costOf id key fills - l'.held id key

theorem Accounted.refl (l : Ledger) : Accounted l l [] [] :=
  ⟨fun key => (add_zero _).symm, fun id key => by simp [ownUnits, costOf]⟩

theorem Accounted.trans {l m n : Ledger} {moves moves' : List Movement}
    {fills fills' : List FillSide} (h : Accounted l m moves fills)
    (h' : Accounted m n moves' fills') : Accounted l n (moves ++ moves') (fills ++ fills') := by
  constructor
  · intro key
    have hsum : movedUnits key (moves ++ moves') =
        movedUnits key moves + movedUnits key moves' := by simp [movedUnits]
    rw [h'.available key, h.available key, hsum, add_assoc]
  · intro id key
    have hown : ownUnits id key (moves ++ moves') =
        ownUnits id key moves + ownUnits id key moves' := by simp [ownUnits]
    have hcost : costOf id key (fills ++ fills') =
        costOf id key fills + costOf id key fills' := by simp [costOf]
    rw [hown, hcost, h.own id key, h'.own id key]
    ring

/-! ## One call -/

theorem accounted_reserve {config : FundingConfig} {l l' : Ledger} (h : Conserving config l)
    {id : OrderId} {account : AccountId} {symbol : String} {side : Side} {limit qty : Int}
    (hreserve : l.reserve id account symbol side limit qty = .ok l') :
    Accounted l l' (l.movements (.reserve id account symbol side limit qty)) [] := by
  simp only [Ledger.reserve, h.isFunded, Bool.not_true, Bool.false_eq_true, if_false, bind_eq_ok,
    require_eq_ok, orFail_eq_ok] at hreserve
  obtain ⟨expected, -, _, ⟨-, hfresh⟩, market, hmarket, units, hunits, available, havailable,
    reserved, hreserved, _, -, hreserve⟩ := hreserve
  cases hreserve
  obtain ⟨-, rfl⟩ := checkedSub_eq_some.1 (Option.filter_eq_some_iff.1 havailable).1
  obtain ⟨-, -, -, rfl⟩ := reserveUnits_eq_ok.1 hunits
  have hmoves : l.movements (.reserve id account symbol side limit qty) =
      [⟨id, accountKey account (reservedAsset market side),
        -reserveAmount side limit qty, false⟩] := by
    simp [movements, h.isFunded, hmarket]
  rw [hmoves]
  constructor
  · intro key
    unfold availableOf movedUnits
    dsimp only
    rw [SortedMap.getD_insert]
    by_cases hkey : key = accountKey account (reservedAsset market side)
    · rw [if_pos hkey, hkey]
      simp [Int.sub_eq_add_neg]
    · rw [if_neg hkey]
      simp [Ne.symm hkey]
  · intro q key
    unfold held ownUnits
    dsimp only
    by_cases hq : q = id
    · subst hq
      rw [hfresh, SortedMap.get?_insert_self]
      by_cases hkey : accountKey account (reservedAsset market side) = key
      · simp [hkey, keyOf, costOf]
      · simp [hkey, keyOf, costOf]
    · rw [SortedMap.get?_insert_of_ne _ hq]
      simp [Ne.symm hq, costOf]

theorem accounted_release {l : Ledger} {id : OrderId} {result : Ledger × Bool}
    (hrelease : l.release id = .ok result) :
    Accounted l result.1 (l.movements (.release id)) [] := by
  unfold Ledger.release at hrelease
  split at hrelease
  case h_1 hnone =>
    cases hrelease
    have hmoves : l.movements (.release id) = [] := by simp [movements, hnone]
    rw [hmoves]
    exact Accounted.refl l
  case h_2 r hr =>
    have hmoves : l.movements (.release id) = [⟨id, keyOf r, r.units, false⟩] := by
      simp [movements, hr]
    rw [hmoves]
    simp only [bind_eq_ok, orFail_eq_ok] at hrelease
    obtain ⟨before, hbefore, available, havailable, reserved, hreserved, _, -, hrelease⟩ :=
      hrelease
    cases hrelease
    obtain ⟨-, rfl⟩ := checkedAdd_eq_some.1 havailable
    constructor
    · intro key
      unfold availableOf movedUnits
      dsimp only
      rw [SortedMap.getD_insert]
      by_cases hkey : key = accountKey r.account r.asset
      · rw [if_pos hkey, hkey]
        simp [keyOf, SortedMap.getD, hbefore]
      · rw [if_neg hkey]
        simp [keyOf, Ne.symm hkey]
    · intro q key
      unfold held ownUnits
      dsimp only
      by_cases hq : q = id
      · subst hq
        rw [hr, SortedMap.get?_erase_self]
        simp [costOf]
      · rw [SortedMap.get?_erase_of_ne _ hq]
        simp [Ne.symm hq, costOf]

/-- The available half of a fill's deltas is what the fill moves. -/
theorem available_deltasOf (market : MarketAssets) (maker taker : Reservation) (price qty : Int)
    (hbuyer : (buyerOf maker taker).asset = market.quoteAsset)
    (hseller : (sellerOf maker taker).asset = market.baseAsset) (key : AccountKey) :
    ((deltasOf market maker taker price qty).getD key (0, 0)).1 =
      movedUnits key (fillMovements maker taker price qty) := by
  unfold deltasOf fillDeltas movedUnits fillMovements keyOf
  have hempty : (SortedMap.empty : SortedMap AccountKey (Int × Int)).getD key (0, 0) = (0, 0) := rfl
  simp only [getD_addDelta, Prod.fst_add, fst_ite, hempty, hbuyer, hseller, List.map_cons,
    List.map_nil, List.sum_cons, List.sum_nil, ite_self]
  ring

/-- What a side holds after a fill: less by what the quantity had set aside. -/
theorem held_filledBy {r : Reservation} (qty : Int)
    (hunits : r.units = reserveAmount r.side r.limitCents r.remainingTenths) (key : AccountKey) :
    (if (filledBy r qty).remainingTenths = 0 then none else some (filledBy r qty)).elim 0
        (fun r' => if keyOf r' = key then r'.units else 0) =
      if keyOf r = key then r.units - reserveAmount r.side r.limitCents qty else 0 := by
  have hsub := reserveAmount_sub r.side r.limitCents r.remainingTenths qty
  have hkey : keyOf (filledBy r qty) = keyOf r := rfl
  split
  case isTrue hzero =>
    have hzero' : r.remainingTenths - qty = 0 := hzero
    rw [hzero', reserveAmount_zero] at hsub
    rw [Option.elim_none, hunits]
    split_ifs <;> omega
  case isFalse =>
    rw [Option.elim_some, hkey, hunits, ← hsub]
    rfl

/-- A settled fill takes off each side what the quantity had set aside. -/
theorem held_settled {l l' : Ledger} {makerOrder takerOrder : OrderId} {price qty : Int}
    {maker taker : Reservation} {market : MarketAssets}
    (hs : Settled l makerOrder takerOrder price qty l' maker taker market)
    (hmaker : maker.orderId = makerOrder) (htaker : taker.orderId = takerOrder)
    (hmakerUnits : maker.units = reserveAmount maker.side maker.limitCents maker.remainingTenths)
    (htakerUnits : taker.units = reserveAmount taker.side taker.limitCents taker.remainingTenths)
    (id : OrderId) (key : AccountKey) :
    l'.held id key = l.held id key -
        (if maker.orderId = id ∧ keyOf maker = key then
          reserveAmount maker.side maker.limitCents qty else 0) -
      (if taker.orderId = id ∧ keyOf taker = key then
        reserveAmount taker.side taker.limitCents qty else 0) := by
  have hdistinct : maker.orderId ≠ taker.orderId := by
    rw [hmaker, htaker]
    exact hs.distinct
  have hmakerGet : l.reservations.get? maker.orderId = some maker := hmaker ▸ hs.maker_get
  have htakerGet : l.reservations.get? taker.orderId = some taker := htaker ▸ hs.taker_get
  have hmakerId : (filledBy maker qty).orderId = maker.orderId := rfl
  have htakerId : (filledBy taker qty).orderId = taker.orderId := rfl
  unfold held
  rw [hs.result]
  dsimp only
  rw [get?_putReservation, get?_putReservation, hmakerId, htakerId]
  by_cases hidTaker : id = taker.orderId
  · rw [if_pos hidTaker, held_filledBy qty htakerUnits, hidTaker, htakerGet, Option.elim_some]
    simp only [hdistinct, false_and, if_false, true_and]
    split_ifs <;> omega
  · rw [if_neg hidTaker]
    by_cases hidMaker : id = maker.orderId
    · rw [if_pos hidMaker, held_filledBy qty hmakerUnits, hidMaker, hmakerGet, Option.elim_some]
      simp only [hdistinct.symm, false_and, if_false, true_and]
      split_ifs <;> omega
    · rw [if_neg hidMaker]
      simp only [Ne.symm hidTaker, Ne.symm hidMaker, false_and, if_false]
      omega

theorem accounted_settleFill {config : FundingConfig} {l l' : Ledger} (h : Conserving config l)
    {makerOrder takerOrder : OrderId} {price qty : Int}
    (hsettle : l.settleFill makerOrder takerOrder price qty = .ok l') :
    Accounted l l' (l.movements (.settleFill makerOrder takerOrder price qty))
      (l.fillSides (.settleFill makerOrder takerOrder price qty)) := by
  obtain ⟨maker, taker, market, hs⟩ := settleFill_eq_ok h.isFunded hsettle
  have hmaker := h.reservation _ _ hs.maker_get
  have htaker := h.reservation _ _ hs.taker_get
  have hmarket := h.market_eq_ok.1 hs.market_eq
  have hmakerAsset : maker.asset = reservedAsset market maker.side := by
    obtain ⟨market', hmarket', hasset⟩ := hmaker.asset_eq
    cases hmarket.symm.trans hmarket'
    exact hasset
  have htakerAsset : taker.asset = reservedAsset market taker.side := by
    obtain ⟨market', hmarket', hasset⟩ := htaker.asset_eq
    rw [← hs.symbols] at hmarket'
    cases hmarket.symm.trans hmarket'
    exact hasset
  have htakerSide := Side.eq_opposite_of_ne hs.sides.symm
  have hmoves : l.movements (.settleFill makerOrder takerOrder price qty) =
      fillMovements maker taker price qty := by
    simp [movements, h.isFunded, hs.maker_get, hs.taker_get]
  have hfills : l.fillSides (.settleFill makerOrder takerOrder price qty) =
      sidesOf maker taker price qty := by
    simp [fillSides, h.isFunded, hs.maker_get, hs.taker_get]
  rw [hmoves, hfills]
  constructor
  · intro key
    have hbuyer : (buyerOf maker taker).asset = market.quoteAsset := by
      unfold buyerOf
      cases hside : maker.side with
      | buy =>
          rw [hside] at hmakerAsset
          exact hmakerAsset
      | sell =>
          rw [htakerSide, hside] at htakerAsset
          exact htakerAsset
    have hseller : (sellerOf maker taker).asset = market.baseAsset := by
      unfold sellerOf
      cases hside : maker.side with
      | buy =>
          rw [htakerSide, hside] at htakerAsset
          exact htakerAsset
      | sell =>
          rw [hside] at hmakerAsset
          exact hmakerAsset
    unfold availableOf
    rw [hs.result]
    dsimp only
    rw [getD_movedAll, moved, available_deltasOf market maker taker price qty hbuyer hseller]
  · intro id key
    rw [held_settled hs hmaker.id_eq htaker.id_eq (reserveUnits_eq_ok.1 hmaker.units_eq).2.2.2.symm
      (reserveUnits_eq_ok.1 htaker.units_eq).2.2.2.symm]
    unfold ownUnits costOf fillMovements sidesOf buyerOf sellerOf
    -- The buyer set its limit aside for the quantity, the seller the quantity itself.
    cases hside : maker.side with
    | buy =>
        rw [htakerSide, hside]
        simp only [if_true, List.map_cons, List.map_nil, List.sum_cons, List.sum_nil,
          FillSide.cost, reserveAmount, Side.opposite, reduceCtorEq, and_false, and_true, if_false,
          add_zero]
        split_ifs <;> ring
    | sell =>
        rw [htakerSide, hside]
        simp only [List.map_cons, List.map_nil, List.sum_cons, List.sum_nil,
          FillSide.cost, reserveAmount, Side.opposite, reduceCtorEq, and_false, and_true, if_false,
          add_zero]
        split_ifs <;> ring

/-! ## Any call, and any run -/

theorem answering_eq_ok {α : Type} {a : α} {x : Except String Ledger} {result : Ledger × α} :
    answering a x = .ok result ↔ x = .ok result.1 ∧ a = result.2 := by
  unfold answering
  rw [bind_eq_ok]
  constructor
  · rintro ⟨l', hx, h⟩
    cases h
    exact ⟨hx, rfl⟩
  · rintro ⟨hx, rfl⟩
    exact ⟨result.1, hx, rfl⟩

/-- A ledger that is not funded takes no reservation and no fill. -/
theorem next_unfunded {l l' : Ledger} (hmode : l.isFunded = false) {call : Call} {answer : Answer}
    (h : call.next l = .ok (l', answer)) :
    l'.mode = l.mode ∧ (l.Keyed → l'.Keyed) ∧
      Accounted l l' (l.movements call) (l.fillSides call) := by
  cases call with
  | reserve orderId account symbol side limitCents qtyTenths =>
      have hmoves :
          l.movements (.reserve orderId account symbol side limitCents qtyTenths) = [] := by
        simp [movements, hmode]
      obtain ⟨hreserve, -⟩ := answering_eq_ok.1 h
      simp only [Ledger.reserve, hmode, Bool.not_false, if_true] at hreserve
      cases hreserve
      rw [hmoves]
      exact ⟨rfl, id, Accounted.refl l⟩
  | settleFill makerOrder takerOrder priceCents qtyTenths =>
      have hmoves : l.movements (.settleFill makerOrder takerOrder priceCents qtyTenths) = [] := by
        simp [movements, hmode]
      have hfills : l.fillSides (.settleFill makerOrder takerOrder priceCents qtyTenths) = [] := by
        simp [fillSides, hmode]
      obtain ⟨hsettle, -⟩ := answering_eq_ok.1 h
      simp only [Ledger.settleFill, hmode, Bool.not_false, if_true] at hsettle
      cases hsettle
      rw [hmoves, hfills]
      exact ⟨rfl, id, Accounted.refl l⟩
  | release orderId =>
      simp only [Call.next] at h
      cases hrelease : l.release orderId with
      | error reason =>
          rw [hrelease] at h
          cases h
      | ok result =>
          rw [hrelease] at h
          cases h
          refine ⟨?_, fun hkeyed => hkeyed.release hrelease, accounted_release hrelease⟩
          unfold Ledger.release at hrelease
          split at hrelease
          · cases hrelease
            rfl
          · simp only [bind_eq_ok] at hrelease
            obtain ⟨_, -, _, -, _, -, _, -, hresult⟩ := hrelease
            cases hresult
            rfl
  | finishSequence sequence =>
      obtain ⟨hfinish, -⟩ := answering_eq_ok.1 h
      simp only [Ledger.finishSequence, bind_eq_ok] at hfinish
      obtain ⟨_, -, _, -, hfinish⟩ := hfinish
      cases hfinish
      exact ⟨rfl, id, ⟨fun key => (add_zero _).symm, fun q key => by
        simp [movements, fillSides, ownUnits, costOf, held]⟩⟩

theorem next_conserving {config : FundingConfig} {l l' : Ledger} (h : Conserving config l)
    {call : Call} {answer : Answer} (hnext : call.next l = .ok (l', answer)) :
    Conserving config l' ∧ Accounted l l' (l.movements call) (l.fillSides call) := by
  cases call with
  | reserve orderId account symbol side limitCents qtyTenths =>
      obtain ⟨hreserve, -⟩ := answering_eq_ok.1 hnext
      exact ⟨h.reserve hreserve, accounted_reserve h hreserve⟩
  | settleFill makerOrder takerOrder priceCents qtyTenths =>
      obtain ⟨hsettle, -⟩ := answering_eq_ok.1 hnext
      exact ⟨h.settleFill hsettle, accounted_settleFill h hsettle⟩
  | release orderId =>
      simp only [Call.next] at hnext
      cases hrelease : l.release orderId with
      | error reason =>
          rw [hrelease] at hnext
          cases hnext
      | ok result =>
          rw [hrelease] at hnext
          cases hnext
          exact ⟨h.release hrelease, accounted_release hrelease⟩
  | finishSequence sequence =>
      obtain ⟨hfinish, -⟩ := answering_eq_ok.1 hnext
      simp only [Ledger.finishSequence, bind_eq_ok] at hfinish
      obtain ⟨_, -, _, -, hfinish⟩ := hfinish
      cases hfinish
      exact ⟨h.finishSequence sequence rfl, ⟨fun key => (add_zero _).symm, fun q key => by
        simp [movements, fillSides, ownUnits, costOf, held]⟩⟩

/-- A call that succeeds on a valid ledger leaves a valid one, and what it moved is accounted
for. -/
theorem Valid.next {l l' : Ledger} (h : l.Valid) {call : Call} {answer : Answer}
    (hnext : call.next l = .ok (l', answer)) :
    l'.Valid ∧ Accounted l l' (l.movements call) (l.fillSides call) := by
  by_cases hmode : l.mode = .fundedSimulation
  · obtain ⟨config, -, hconserving⟩ := exists_conserving hmode h
    obtain ⟨hnextConserving, haccounted⟩ := next_conserving hconserving hnext
    exact ⟨hnextConserving.valid, haccounted⟩
  · have hunfunded : l.isFunded = false := by simp [isFunded, hmode]
    obtain ⟨hmode', hkeyed, haccounted⟩ := next_unfunded hunfunded hnext
    refine ⟨⟨hkeyed h.keyed, ?_⟩, haccounted⟩
    have hunfunded' : l'.isFunded = false := by simp [isFunded, hmode', hmode]
    simp [Ledger.validate, hunfunded']

theorem Valid.after {l : Ledger} (h : l.Valid) (call : Call) : (l.after call).Valid := by
  cases hnext : call.next l with
  | error reason =>
      rw [after_of_error hnext]
      exact h
  | ok result =>
      rw [after_of_ok hnext]
      exact (h.next hnext).1

theorem Valid.run {l : Ledger} (h : l.Valid) (calls : List Call) : (l.run calls).Valid := by
  induction calls generalizing l with
  | nil => exact h
  | cons call rest ih => exact ih (h.after call)

/-- Over a run, the movements of the calls that were not refused account for every available
balance and for every order. -/
theorem Valid.accounted_run {l : Ledger} (h : l.Valid) (calls : List Call) :
    Accounted l (l.run calls) (recorded movements l calls) (recorded fillSides l calls) := by
  induction calls generalizing l with
  | nil => exact Accounted.refl l
  | cons call rest ih =>
      have hrest := ih (h.after call)
      cases hnext : call.next l with
      | error reason =>
          have hsame : l.after call = l := after_of_error hnext
          have hnone : (call.next l).toOption.isSome = false := by rw [hnext]; rfl
          simp only [recorded, hnone, Bool.false_eq_true, if_false, List.nil_append]
          rw [hsame] at hrest ⊢
          have hrun : l.run (call :: rest) = l.run rest := by
            show (l.after call).run rest = l.run rest
            rw [hsame]
          rw [hrun]
          exact hrest
      | ok result =>
          have hstep := (h.next hnext).2
          have hsome : (call.next l).toOption.isSome = true := by rw [hnext]; rfl
          simp only [recorded, hsome, if_true]
          rw [← after_of_ok hnext] at hstep
          exact hstep.trans hrest

/-! ## Orders that hold nothing -/

/-- Whether the call sets funds aside for the order. -/
def Call.reserves (id : OrderId) : Call → Bool
  | .reserve orderId _ _ _ _ _ => orderId = id
  | _ => false

theorem absent_next {l l' : Ledger} (h : l.Valid) {id : OrderId} {call : Call} {answer : Answer}
    (habsent : l.reservations.get? id = none) (hcall : call.reserves id = false)
    (hnext : call.next l = .ok (l', answer)) : l'.reservations.get? id = none := by
  cases call with
  | reserve orderId account symbol side limitCents qtyTenths =>
      have hne : id ≠ orderId := fun heq => by simp [Call.reserves, heq] at hcall
      obtain ⟨hreserve, -⟩ := answering_eq_ok.1 hnext
      by_cases hmode : l.isFunded = true
      · obtain ⟨asset, units, hrows⟩ := reservations_reserve hmode hreserve
        rw [hrows, SortedMap.get?_insert_of_ne _ hne, habsent]
      · simp only [Ledger.reserve, Bool.eq_false_iff.2 hmode, Bool.not_false, if_true] at hreserve
        cases hreserve
        exact habsent
  | settleFill makerOrder takerOrder priceCents qtyTenths =>
      obtain ⟨hsettle, -⟩ := answering_eq_ok.1 hnext
      by_cases hmode : l.isFunded = true
      · obtain ⟨maker, taker, market, hs⟩ := settleFill_eq_ok hmode hsettle
        have hmaker : id ≠ (filledBy maker qtyTenths).orderId := by
          show id ≠ maker.orderId
          rw [h.keyed _ _ hs.maker_get]
          rintro rfl
          exact absurd (habsent.symm.trans hs.maker_get) (by simp)
        have htaker : id ≠ (filledBy taker qtyTenths).orderId := by
          show id ≠ taker.orderId
          rw [h.keyed _ _ hs.taker_get]
          rintro rfl
          exact absurd (habsent.symm.trans hs.taker_get) (by simp)
        have hrows := congrArg Ledger.reservations hs.result
        dsimp only at hrows
        rw [hrows, get?_putReservation, if_neg htaker, get?_putReservation, if_neg hmaker, habsent]
      · simp only [Ledger.settleFill, Bool.eq_false_iff.2 hmode, Bool.not_false, if_true] at hsettle
        cases hsettle
        exact habsent
  | release orderId =>
      simp only [Call.next] at hnext
      cases hrelease : l.release orderId with
      | error reason =>
          rw [hrelease] at hnext
          cases hnext
      | ok result =>
          rw [hrelease] at hnext
          cases hnext
          rw [reservations_release hrelease, SortedMap.get?_erase]
          split_ifs
          · rfl
          · exact habsent
  | finishSequence sequence =>
      obtain ⟨hfinish, -⟩ := answering_eq_ok.1 hnext
      simp only [Ledger.finishSequence, bind_eq_ok] at hfinish
      obtain ⟨_, -, _, -, hfinish⟩ := hfinish
      cases hfinish
      exact habsent

theorem absent_run {id : OrderId} : ∀ {calls : List Call} {l : Ledger}, l.Valid →
    l.reservations.get? id = none → (∀ call ∈ calls, Call.reserves id call = false) →
      (l.run calls).reservations.get? id = none
  | [], _, _, habsent, _ => habsent
  | call :: rest, l, h, habsent, hcalls => by
      obtain ⟨hcall, hrest⟩ := List.forall_mem_cons.1 hcalls
      have hnow : (l.after call).reservations.get? id = none := by
        cases hnext : call.next l with
        | error reason =>
            rw [after_of_error hnext]
            exact habsent
        | ok result =>
            rw [after_of_ok hnext]
            exact absent_next h habsent hcall hnext
      exact @absent_run id rest _ (h.after call) hnow hrest

/-- A release of an order that holds nothing changes nothing. -/
theorem perform_release_absent {l : Ledger} {id : OrderId}
    (h : l.reservations.get? id = none) :
    (Call.release id).perform l = (.ok (.released false), l) := by
  rw [Call.perform_eq]
  simp [Call.next, Ledger.release, h, Except.map, Mutation.outcome]

theorem reservations_after_release {l : Ledger} {id : OrderId} {result : Ledger × Bool}
    (h : l.release id = .ok result) :
    (l.after (.release id)).reservations.get? id = none := by
  have hnext : (Call.release id).next l = .ok (result.1, .released result.2) := by
    simp [Call.next, h, Except.map]
  rw [after_of_ok hnext, reservations_release h, SortedMap.get?_erase_self]

/-- A second release of an order changes nothing. -/
theorem after_release_twice (l : Ledger) (id : OrderId) :
    (l.after (.release id)).after (.release id) = l.after (.release id) := by
  cases hrelease : l.release id with
  | error reason =>
      have hnext : (Call.release id).next l = .error reason := by
        simp [Call.next, hrelease, Except.map]
      rw [after_of_error hnext, after_of_error hnext]
  | ok result =>
      have hagain := congrArg Prod.snd
        (perform_release_absent (reservations_after_release hrelease))
      exact hagain

/-- A release on a valid funded ledger succeeds, and the order holds nothing afterwards. -/
theorem Valid.released {l : Ledger} (h : l.Valid) (hmode : l.mode = .fundedSimulation)
    (id : OrderId) : (l.after (.release id)).reservations.get? id = none := by
  obtain ⟨config, -, hconserving⟩ := exists_conserving hmode h
  obtain ⟨result, hrelease⟩ := hconserving.exists_release id
  exact reservations_after_release hrelease

/-! ## The lifecycle -/

/-- What holds after any calls on a ledger. -/
structure Lifecycle (l : Ledger) (calls : List Call) : Prop where
  /-- The next call, where it is refused, changes nothing. -/
  refused : ∀ (call : Call) (reason : String),
    (call.perform (l.run calls)).1 = .error reason → (call.perform (l.run calls)).2 = l.run calls
  valid : (l.run calls).validate = .ok ()
  /-- Every change of an available balance is a movement of some order. -/
  available : ∀ key, (l.run calls).availableOf key =
    l.availableOf key + movedUnits key (recorded movements l calls)
  /-- An order's own funds went into its fills, at the fill prices, or are still set aside. -/
  own : ∀ id key, ownUnits id key (recorded movements l calls) =
    l.held id key - costOf id key (recorded fillSides l calls) - (l.run calls).held id key
  /-- An order that came and went took exactly what its fills cost. -/
  settled : ∀ id, l.reservations.get? id = none → (l.run calls).reservations.get? id = none →
    ∀ key, ownUnits id key (recorded movements l calls) =
      -costOf id key (recorded fillSides l calls)
  /-- A release gives back all an order still holds. -/
  released : l.mode = .fundedSimulation → ∀ id,
    (l.run (calls ++ [.release id])).reservations.get? id = none
  releasedTwice : ∀ id,
    l.run (calls ++ [.release id, .release id]) = l.run (calls ++ [.release id])
  neverReserved : ∀ id, l.reservations.get? id = none →
    (∀ call ∈ calls, Call.reserves id call = false) →
      (Call.release id).perform (l.run calls) = (.ok (.released false), l.run calls)

theorem mode_run {l : Ledger} (h : l.Valid) (hmode : l.mode = .fundedSimulation) :
    ∀ calls : List Call, (l.run calls).mode = .fundedSimulation := by
  intro calls
  induction calls generalizing l with
  | nil => exact hmode
  | cons call rest ih =>
      refine ih (h.after call) ?_
      obtain ⟨config, -, hconserving⟩ := exists_conserving hmode h
      cases hnext : call.next l with
      | error reason =>
          rw [after_of_error hnext]
          exact hmode
      | ok result =>
          rw [after_of_ok hnext]
          exact (next_conserving hconserving hnext).1.mode

/-- Any calls on a valid ledger, refused or not. -/
theorem lifecycle (l : Ledger) (h : l.Valid) (calls : List Call) : Lifecycle l calls := by
  have haccounted := h.accounted_run calls
  refine ⟨fun call reason => Call.perform_refused, (h.run calls).passes, haccounted.available,
    haccounted.own, ?_, ?_, ?_, ?_⟩
  · intro id hbefore hafter key
    have hown := haccounted.own id key
    have hheld : l.held id key = 0 := by simp [held, hbefore]
    have hheld' : (l.run calls).held id key = 0 := by simp [held, hafter]
    rw [hown, hheld, hheld', zero_sub, sub_zero]
  · intro hmode id
    unfold run
    rw [List.foldl_append]
    exact (h.run calls).released (mode_run h hmode calls) id
  · intro id
    unfold run
    rw [List.foldl_append, List.foldl_append]
    exact after_release_twice (l.run calls) id
  · intro id habsent hcalls
    exact perform_release_absent (absent_run h habsent hcalls)

namespace Sample

/-- One market, with a buyer that has cash and a seller that has the base asset. -/
theorem quote_inRange : InI64 10000 := by decide

theorem base_inRange : InI64 5000 := by decide

def traders : FundingConfig where
  markets := [⟨"ETH-USDC", "ETH", "USDC"⟩]
  funding := [⟨7, "USDC", 10000, quote_inRange⟩, ⟨8, "ETH", 5000, base_inRange⟩]
  feeUnits := 0

def opened : Ledger := ((Ledger.funded traders).toOption).getD syntheticLegacy

/-- A sale at 90, a purchase at 100 that it partly fills at 90, and the rest released twice. -/
def calls : List Call :=
  [.reserve 1 8 "ETH-USDC" .sell 90 20, .finishSequence 1, .reserve 2 7 "ETH-USDC" .buy 100 30,
    .settleFill 1 2 90 20, .release 2, .release 2, .finishSequence 2]

end Sample

theorem lifecycle_sample : Lifecycle Sample.opened Sample.calls ∧
    (Sample.opened.run Sample.calls).availableOf (accountKey 7 "USDC") = 10000 - 90 * 20 := by
  have hopened : Ledger.funded Sample.traders = .ok Sample.opened := by decide
  exact ⟨lifecycle Sample.opened (conserving_funded hopened).valid Sample.calls, by decide⟩

end Ledger
end VerifiableExchange
