import Mathlib.Algebra.Group.Prod
import Mathlib.Algebra.Order.BigOperators.Group.List
import VerifiableExchange.Ledger

/-!
# LedgerLaws — conservation and exact backing

`Conserving` is what a funded ledger keeps: each asset sums to its genesis funding, and each
reserved balance is exactly what the account's reservations in that asset still require. Every
operation keeps it, and a ledger that has it passes its own validation.
-/

namespace VerifiableExchange

open Lib

namespace Ledger

/-! ## The law -/

/-- What an account's reservations in one asset still require. -/
def obligation (reservations : SortedMap OrderId Reservation) (key : AccountKey) : Int :=
  reservations.total (fun _ r => if accountKey r.account r.asset = key then r.units else 0)

/-- What all accounts hold of one asset. -/
def holdings (balances : SortedMap AccountKey Balance) (asset : String) : Int :=
  balances.total (fun key b => if (ofLex key).2 = asset then b.available + b.reserved else 0)

/-- The genesis funding of one asset. -/
def granted (config : FundingConfig) (asset : String) : Int :=
  (config.funding.map (fun grant => if grant.asset = asset then grant.units else 0)).sum

/-- A reservation that holds exactly what its terms require. -/
structure ReservationInv (config : FundingConfig) (id : OrderId) (r : Reservation) : Prop where
  id_eq : r.orderId = id
  asset_eq : ∃ market, config.markets.find? (fun m => m.symbol = r.symbol) = some market ∧
    r.asset = reservedAsset market r.side
  units_eq : reserveUnits r.side r.limitCents r.remainingTenths = .ok r.units

/-- What a funded ledger keeps. -/
structure Conserving (config : FundingConfig) (l : Ledger) : Prop where
  mode : l.mode = .fundedSimulation
  config_eq : l.config = some config
  reservation : ∀ id r, l.reservations.get? id = some r → ReservationInv config id r
  backed : ∀ key, (l.balances.getD key .default).reserved = obligation l.reservations key
  balance : ∀ key b, l.balances.get? key = some b →
    checkBalance b = .ok () ∧ configured config (ofLex key).2 = true
  conserved : ∀ asset, holdings l.balances asset = granted config asset

theorem Conserving.isFunded {config : FundingConfig} {l : Ledger} (h : Conserving config l) :
    l.isFunded = true := by
  simp [Ledger.isFunded, h.mode]

theorem Conserving.market_eq_ok {config : FundingConfig} {l : Ledger} (h : Conserving config l)
    {symbol : String} {market : MarketAssets} :
    l.market symbol = .ok market ↔
      config.markets.find? (fun m => m.symbol = symbol) = some market := by
  simp [Ledger.market, h.config_eq]

theorem checkBalance_eq_ok {b : Balance} {u : Unit} :
    checkBalance b = .ok u ↔ 0 ≤ b.available ∧ 0 ≤ b.reserved ∧ InI64 (b.available + b.reserved) := by
  simp [checkBalance]

theorem reserveUnits_eq_ok {side : Side} {price qty units : Int} :
    reserveUnits side price qty = .ok units ↔
      0 < price ∧ 0 < qty ∧ InI64 (reserveAmount side price qty) ∧
        reserveAmount side price qty = units := by
  simp only [reserveUnits, bind_eq_ok, require_eq_ok, orFail_eq_ok, toI64_eq_some]
  constructor
  · rintro ⟨_, ⟨hprice, hqty⟩, hrange, hunits⟩
    exact ⟨hprice, hqty, hrange, hunits⟩
  · rintro ⟨hprice, hqty, hrange, hunits⟩
    exact ⟨(), ⟨hprice, hqty⟩, hrange, hunits⟩

theorem reserveUnits_pos {side : Side} {price qty units : Int}
    (h : reserveUnits side price qty = .ok units) : 0 < units := by
  obtain ⟨hprice, hqty, -, rfl⟩ := reserveUnits_eq_ok.1 h
  cases side with
  | buy => exact mul_pos hprice hqty
  | sell => exact mul_pos hqty (by decide)

theorem configured_reservedAsset {config : FundingConfig} {symbol : String} {market : MarketAssets}
    (h : config.markets.find? (fun m => m.symbol = symbol) = some market) (side : Side) :
    configured config (reservedAsset market side) = true := by
  refine List.any_eq_true.2 ⟨market, List.mem_of_find?_eq_some h, ?_⟩
  cases side <;> simp [reservedAsset]

@[simp] theorem name_accountKey (account : AccountId) (name : String) :
    (ofLex (accountKey account name)).2 = name := rfl

theorem obligation_insert {reservations : SortedMap OrderId Reservation} (id : OrderId)
    (r : Reservation) (key : AccountKey) :
    obligation (reservations.insert id r) key =
      obligation reservations key -
          ((reservations.get? id).elim 0
            (fun old => if accountKey old.account old.asset = key then old.units else 0)) +
        (if accountKey r.account r.asset = key then r.units else 0) :=
  SortedMap.total_insert _ _ _ _

theorem obligation_erase {reservations : SortedMap OrderId Reservation} (id : OrderId)
    (key : AccountKey) :
    obligation (reservations.erase id) key =
      obligation reservations key -
        ((reservations.get? id).elim 0
          (fun old => if accountKey old.account old.asset = key then old.units else 0)) :=
  SortedMap.total_erase _ _ _

theorem holdings_insert (balances : SortedMap AccountKey Balance) (key : AccountKey) (b : Balance)
    (asset : String) :
    holdings (balances.insert key b) asset = holdings balances asset +
      (if (ofLex key).2 = asset then
        (b.available + b.reserved) - ((balances.getD key .default).available +
          (balances.getD key .default).reserved) else 0) := by
  unfold holdings
  rw [SortedMap.total_insert]
  unfold SortedMap.getD
  cases balances.get? key with
  | none =>
      simp only [Option.elim_none, Option.getD_none, Balance.default]
      split_ifs <;> omega
  | some old =>
      simp only [Option.elim_some, Option.getD_some]
      split_ifs <;> omega

/-! ## Reserving and releasing -/

theorem Conserving.reserve {config : FundingConfig} {l l' : Ledger} (h : Conserving config l)
    {id : OrderId} {account : AccountId} {symbol : String} {side : Side} {limit qty : Int}
    (hreserve : l.reserve id account symbol side limit qty = .ok l') : Conserving config l' := by
  simp only [Ledger.reserve, h.isFunded, Bool.not_true, Bool.false_eq_true, if_false, bind_eq_ok,
    require_eq_ok, orFail_eq_ok] at hreserve
  obtain ⟨expected, -, _, ⟨-, hfresh⟩, market, hmarket, units, hunits, available, havailable,
    reserved, hreserved, _, hcheck, hreserve⟩ := hreserve
  cases hreserve
  obtain ⟨-, rfl⟩ := checkedSub_eq_some.1 (Option.filter_eq_some_iff.1 havailable).1
  obtain ⟨-, rfl⟩ := checkedAdd_eq_some.1 hreserved
  have hmarket := h.market_eq_ok.1 hmarket
  refine ⟨h.mode, h.config_eq, ?_, ?_, ?_, ?_⟩
  · intro q r hr
    dsimp only at hr
    rw [SortedMap.get?_insert] at hr
    split_ifs at hr with hq
    · cases hr
      exact ⟨hq.symm, ⟨market, hmarket, rfl⟩, hunits⟩
    · exact h.reservation q r hr
  · -- One account and asset owes more, and has as much more set aside.
    intro key
    dsimp only
    rw [SortedMap.getD_insert, obligation_insert, hfresh, Option.elim_none, sub_zero]
    by_cases hkey : key = accountKey account (reservedAsset market side)
    · subst hkey
      rw [if_pos rfl, if_pos rfl, ← h.backed]
    · rw [if_neg hkey, if_neg (Ne.symm hkey), add_zero, h.backed]
  · intro key b hb
    dsimp only at hb
    rw [SortedMap.get?_insert] at hb
    split_ifs at hb with hkey
    · cases hb
      subst hkey
      exact ⟨hcheck, configured_reservedAsset hmarket side⟩
    · exact h.balance key b hb
  · -- What leaves the available side enters the reserved one.
    intro asset
    dsimp only
    rw [holdings_insert, h.conserved]
    dsimp only
    split_ifs <;> omega

theorem Conserving.release {config : FundingConfig} {l : Ledger} (h : Conserving config l)
    {id : OrderId} {result : Ledger × Bool} (hrelease : l.release id = .ok result) :
    Conserving config result.1 := by
  unfold Ledger.release at hrelease
  split at hrelease
  · cases hrelease
    exact h
  -- An id without a reservation releases nothing.
  rename_i r hr
  simp only [bind_eq_ok, orFail_eq_ok] at hrelease
  obtain ⟨before, hbefore, available, havailable, reserved, hreserved, _, hcheck, hrelease⟩ :=
    hrelease
  cases hrelease
  obtain ⟨-, rfl⟩ := checkedAdd_eq_some.1 havailable
  obtain ⟨-, rfl⟩ := checkedSub_eq_some.1 hreserved
  have hgetD : l.balances.getD (accountKey r.account r.asset) .default = before := by
    simp [SortedMap.getD, hbefore]
  refine ⟨h.mode, h.config_eq, ?_, ?_, ?_, ?_⟩
  · intro q r' hr'
    dsimp only at hr'
    rw [SortedMap.get?_erase] at hr'
    split_ifs at hr'
    exact h.reservation q r' hr'
  · -- One account and asset owes less, and has as much less set aside.
    intro key
    dsimp only
    rw [SortedMap.getD_insert, obligation_erase, hr, Option.elim_some]
    by_cases hkey : key = accountKey r.account r.asset
    · subst hkey
      rw [if_pos rfl, if_pos rfl, ← h.backed, hgetD]
    · rw [if_neg hkey, if_neg (Ne.symm hkey), sub_zero, h.backed]
  · intro key b hb
    dsimp only at hb
    rw [SortedMap.get?_insert] at hb
    split_ifs at hb with hkey
    · cases hb
      subst hkey
      exact ⟨hcheck, (h.balance _ _ hbefore).2⟩
    · exact h.balance key b hb
  · intro asset
    dsimp only
    rw [holdings_insert, h.conserved, hgetD]
    dsimp only
    split_ifs <;> omega

/-- An account holds aside at least what one of its reservations requires. -/
theorem Conserving.units_le_reserved {config : FundingConfig} {l : Ledger} (h : Conserving config l)
    {id : OrderId} {r : Reservation} (hr : l.reservations.get? id = some r) :
    r.units ≤ (l.balances.getD (accountKey r.account r.asset) .default).reserved := by
  have hrest : 0 ≤ obligation (l.reservations.erase id) (accountKey r.account r.asset) := by
    refine SortedMap.total_nonneg ?_
    intro k v hv
    rw [SortedMap.get?_erase] at hv
    split_ifs at hv
    split_ifs
    · exact (reserveUnits_pos (h.reservation k v hv).units_eq).le
    · exact le_rfl
  rw [obligation_erase, hr, Option.elim_some, if_pos rfl, ← h.backed] at hrest
  exact sub_nonneg.1 hrest

/-- A conserving ledger can always give an order's funds back. -/
theorem Conserving.exists_release {config : FundingConfig} {l : Ledger} (h : Conserving config l)
    (id : OrderId) : ∃ result, l.release id = .ok result := by
  unfold Ledger.release
  cases hr : l.reservations.get? id with
  | none => exact ⟨_, rfl⟩
  | some r =>
      -- Every reservation is part of its account's reserved sum.
      have hle := h.units_le_reserved hr
      have hpos := reserveUnits_pos (h.reservation id r hr).units_eq
      cases hb : l.balances.get? (accountKey r.account r.asset) with
      | none =>
          simp only [SortedMap.getD, hb, Option.getD_none, Balance.default] at hle
          -- An account without a row has nothing reserved.
          exact absurd hpos (not_lt.2 hle)
      | some b =>
          obtain ⟨havailable, hreserved, hmin, hmax⟩ := checkBalance_eq_ok.1 (h.balance _ b hb).1
          simp only [SortedMap.getD, hb, Option.getD_some] at hle
          simp only [i64Min] at hmin
          have hgiven : checkedAdd b.available r.units = some (b.available + r.units) :=
            checkedAdd_eq_some.2 ⟨⟨by simp only [i64Min]; omega, by omega⟩, rfl⟩
          have hkept : checkedSub b.reserved r.units = some (b.reserved - r.units) :=
            checkedSub_eq_some.2 ⟨⟨by simp only [i64Min]; omega, by omega⟩, rfl⟩
          have hcheck : checkBalance ⟨b.available + r.units, b.reserved - r.units⟩ = .ok () :=
            checkBalance_eq_ok.2 ⟨by dsimp only; omega, by dsimp only; omega,
              by simp only [i64Min]; omega, by dsimp only; omega⟩
          simp only [bind_eq_ok, orFail_eq_ok]
          exact ⟨_, b, hb, _, hgiven, _, hkept, (), hcheck, rfl⟩

theorem Conserving.finishSequence {config : FundingConfig} {l l' : Ledger}
    (h : Conserving config l) (n : OrderId) (hl : l' = { l with lastSequence := n }) :
    Conserving config l' := by
  subst hl
  exact ⟨h.mode, h.config_eq, h.reservation, h.backed, h.balance, h.conserved⟩

/-- The reservation an order starts with. -/
theorem reservations_reserve {l l' : Ledger} (hfunded : l.isFunded = true) {id : OrderId}
    {account : AccountId} {symbol : String} {side : Side} {limit qty : Int}
    (h : l.reserve id account symbol side limit qty = .ok l') :
    ∃ asset units, l'.reservations = l.reservations.insert id
      { orderId := id, account, symbol, side, limitCents := limit, remainingTenths := qty,
        asset, units } := by
  simp only [Ledger.reserve, hfunded, Bool.not_true, Bool.false_eq_true, if_false, bind_eq_ok] at h
  obtain ⟨_, -, _, -, market, -, units, -, _, -, _, -, _, -, h⟩ := h
  cases h
  exact ⟨_, units, rfl⟩

theorem reservations_release {l : Ledger} {id : OrderId} {result : Ledger × Bool}
    (h : l.release id = .ok result) : result.1.reservations = l.reservations.erase id := by
  unfold Ledger.release at h
  split at h
  · rename_i hnone
    cases h
    exact (SortedMap.erase_eq_self hnone).symm
  · simp only [bind_eq_ok] at h
    obtain ⟨_, -, _, -, _, -, _, -, h⟩ := h
    cases h
    rfl

/-! ## Settling a fill -/

/-- A balance moved by a fill's share. -/
def moved (b : Balance) (delta : Int × Int) : Balance := ⟨b.available + delta.1, b.reserved + delta.2⟩

theorem shifted_eq_ok {l : Ledger} {key : AccountKey} {delta : Int × Int}
    {e : AccountKey × Balance} (h : l.shifted key delta = .ok e) :
    e = (key, moved (l.balances.getD key .default) delta) ∧ checkBalance e.2 = .ok () := by
  simp only [shifted, bind_eq_ok, orFail_eq_ok, toI64_eq_some] at h
  obtain ⟨_, ⟨-, rfl⟩, _, ⟨-, rfl⟩, _, hcheck, h⟩ := h
  cases h
  exact ⟨rfl, hcheck⟩

theorem getD_addDelta (deltas : SortedMap AccountKey (Int × Int)) (account : AccountId)
    (asset : String) (available reserved : Int) (key : AccountKey) :
    (addDelta deltas account asset available reserved).getD key (0, 0) =
      deltas.getD key (0, 0) +
        (if accountKey account asset = key then (available, reserved) else 0) := by
  unfold addDelta
  rw [SortedMap.getD_insert]
  by_cases hkey : key = accountKey account asset
  · subst hkey
    simp [Prod.ext_iff]
  · simp [hkey, Ne.symm hkey]

/-- A sum over deltas after one more of them. -/
theorem total_addDelta (deltas : SortedMap AccountKey (Int × Int)) (account : AccountId)
    (asset name : String) (available reserved : Int) :
    (addDelta deltas account asset available reserved).total
        (fun key d => if (ofLex key).2 = name then d.1 + d.2 else 0) =
      deltas.total (fun key d => if (ofLex key).2 = name then d.1 + d.2 else 0) +
        (if asset = name then available + reserved else 0) := by
  unfold addDelta
  rw [SortedMap.total_insert]
  unfold SortedMap.getD
  by_cases hname : asset = name
  · cases deltas.get? (accountKey account asset) with
    | none => simp [hname]
    | some old =>
        simp only [Option.elim_some, name_accountKey, Option.getD_some, hname, if_true]
        omega
  · cases deltas.get? (accountKey account asset) <;> simp [hname]

/-- The balances after every delta of a fill. -/
def movedAll (balances : SortedMap AccountKey Balance) (deltas : SortedMap AccountKey (Int × Int)) :
    SortedMap AccountKey Balance :=
  (deltas.entries.map (fun e => (e.1, moved (balances.getD e.1 .default) e.2))).foldl
    (fun balances e => balances.insert e.1 e.2) balances

theorem keys_movedAll (balances : SortedMap AccountKey Balance)
    (deltas : SortedMap AccountKey (Int × Int)) :
    ((deltas.entries.map (fun e => (e.1, moved (balances.getD e.1 .default) e.2))).map
      Prod.fst).Nodup := by
  simpa [Function.comp_def] using deltas.nodup_keys

theorem get?_movedAll (balances : SortedMap AccountKey Balance)
    (deltas : SortedMap AccountKey (Int × Int)) (key : AccountKey) :
    (movedAll balances deltas).get? key =
      ((deltas.get? key).map (moved (balances.getD key .default))).or (balances.get? key) := by
  unfold movedAll
  rw [SortedMap.get?_foldl_insert _ _ _ (keys_movedAll balances deltas),
    Entries.lookup_map_keyed (fun key d => moved (balances.getD key .default) d)]
  rfl

theorem getD_movedAll (balances : SortedMap AccountKey Balance)
    (deltas : SortedMap AccountKey (Int × Int)) (key : AccountKey) :
    (movedAll balances deltas).getD key .default =
      moved (balances.getD key .default) (deltas.getD key (0, 0)) := by
  unfold SortedMap.getD
  rw [get?_movedAll]
  cases deltas.get? key with
  | none => simp [moved]
  | some d => simp [SortedMap.getD]

theorem holdings_movedAll (balances : SortedMap AccountKey Balance)
    (deltas : SortedMap AccountKey (Int × Int)) (asset : String) :
    holdings (movedAll balances deltas) asset = holdings balances asset +
      deltas.total (fun key d => if (ofLex key).2 = asset then d.1 + d.2 else 0) := by
  unfold holdings movedAll
  rw [SortedMap.total_foldl_insert _ _ _ (keys_movedAll balances deltas), List.map_map]
  congr 1
  unfold SortedMap.total Entries.total
  congr 1
  refine List.map_congr_left ?_
  rintro ⟨key, d⟩ -
  simp only [Function.comp_apply, moved, SortedMap.getD]
  cases balances.get? key with
  | none =>
      simp only [Option.getD_none, Balance.default, Option.elim_none]
      split_ifs <;> omega
  | some old =>
      simp only [Option.getD_some, Option.elim_some]
      split_ifs <;> omega

theorem reserveAmount_sub (side : Side) (limit remaining qty : Int) :
    reserveAmount side limit (remaining - qty) =
      reserveAmount side limit remaining - reserveAmount side limit qty := by
  cases side
  · exact Int.mul_sub _ _ _
  · exact Int.sub_mul _ _ _

@[simp] theorem reserveAmount_zero (side : Side) (limit : Int) : reserveAmount side limit 0 = 0 := by
  cases side <;> simp [reserveAmount]

/-- A reservation after a fill of `qty` tenths. -/
def filledBy (r : Reservation) (qty : Int) : Reservation :=
  { r with
    remainingTenths := r.remainingTenths - qty
    units := reserveAmount r.side r.limitCents (r.remainingTenths - qty) }

theorem afterFill_eq_ok {r r' : Reservation} {qty : Int} (h : r.afterFill qty = .ok r') :
    r' = filledBy r qty ∧ 0 ≤ r.remainingTenths - qty ∧
      (r'.remainingTenths ≠ 0 → reserveUnits r'.side r'.limitCents r'.remainingTenths = .ok r'.units) := by
  simp only [Reservation.afterFill, bind_eq_ok, orFail_eq_ok] at h
  obtain ⟨remaining, hremaining, units, hunits, h⟩ := h
  cases h
  obtain ⟨hsub, hnonneg⟩ := Option.filter_eq_some_iff.1 hremaining
  obtain ⟨-, rfl⟩ := checkedSub_eq_some.1 hsub
  unfold Reservation.unitsFor at hunits
  split_ifs at hunits with hzero
  · cases hunits
    exact ⟨by simp [filledBy, hzero], by simpa using hnonneg, fun h => absurd hzero h⟩
  · obtain ⟨-, -, -, rfl⟩ := reserveUnits_eq_ok.1 hunits
    exact ⟨rfl, by simpa using hnonneg, fun _ => hunits⟩

theorem get?_putReservation {reservations : SortedMap OrderId Reservation} {next : Reservation}
    {id : OrderId} :
    (putReservation reservations next).get? id =
      if id = next.orderId then (if next.remainingTenths = 0 then none else some next)
      else reservations.get? id := by
  unfold putReservation
  split_ifs with hzero hid hid <;> simp [hid]

/-- A fill takes off each side's obligation what it filled. -/
theorem obligation_putReservation {reservations : SortedMap OrderId Reservation} {r : Reservation}
    {qty : Int} (hr : reservations.get? r.orderId = some r)
    (hunits : r.units = reserveAmount r.side r.limitCents r.remainingTenths) (key : AccountKey) :
    obligation (putReservation reservations (filledBy r qty)) key =
      obligation reservations key -
        (if accountKey r.account r.asset = key then reserveAmount r.side r.limitCents qty else 0) := by
  have hsub := reserveAmount_sub r.side r.limitCents r.remainingTenths qty
  unfold putReservation
  by_cases hzero : (filledBy r qty).remainingTenths = 0
  · have hzero' : r.remainingTenths - qty = 0 := hzero
    rw [hzero', reserveAmount_zero] at hsub
    rw [if_pos hzero, obligation_erase]
    simp only [filledBy, hr, Option.elim_some]
    split_ifs <;> omega
  · rw [if_neg hzero, obligation_insert]
    simp only [filledBy, hr, Option.elim_some]
    by_cases hkey : accountKey r.account r.asset = key
    · simp only [hkey, if_true]
      omega
    · simp only [hkey, if_false]
      omega

/-- What one fill moves, in its own amounts. -/
def deltasOf (market : MarketAssets) (maker taker : Reservation) (price qty : Int) :
    SortedMap AccountKey (Int × Int) :=
  let buyer := buyerOf maker taker
  fillDeltas market buyer (sellerOf maker taker) (qty * 100) (price * qty) (buyer.limitCents * qty)
    (buyer.limitCents * qty - price * qty)

/-- A fill the ledger settled: both reservations, the market, and what became of them. -/
structure Settled (l : Ledger) (makerOrder takerOrder : OrderId) (price qty : Int) (l' : Ledger)
    (maker taker : Reservation) (market : MarketAssets) : Prop where
  maker_get : l.reservations.get? makerOrder = some maker
  taker_get : l.reservations.get? takerOrder = some taker
  distinct : makerOrder ≠ takerOrder
  symbols : maker.symbol = taker.symbol
  sides : maker.side ≠ taker.side
  market_eq : l.market maker.symbol = .ok market
  maker_left : 0 ≤ maker.remainingTenths - qty
  taker_left : 0 ≤ taker.remainingTenths - qty
  maker_units : maker.remainingTenths - qty ≠ 0 →
    reserveUnits maker.side maker.limitCents (maker.remainingTenths - qty) =
      .ok (filledBy maker qty).units
  taker_units : taker.remainingTenths - qty ≠ 0 →
    reserveUnits taker.side taker.limitCents (taker.remainingTenths - qty) =
      .ok (filledBy taker qty).units
  checked : ∀ key d, (deltasOf market maker taker price qty).get? key = some d →
    checkBalance (moved (l.balances.getD key .default) d) = .ok ()
  result : l' = { l with
    balances := movedAll l.balances (deltasOf market maker taker price qty)
    reservations := putReservation (putReservation l.reservations (filledBy maker qty))
      (filledBy taker qty) }

theorem settleFill_eq_ok {l l' : Ledger} (hfunded : l.isFunded = true)
    {makerOrder takerOrder : OrderId} {price qty : Int}
    (h : l.settleFill makerOrder takerOrder price qty = .ok l') :
    ∃ maker taker market, Settled l makerOrder takerOrder price qty l' maker taker market := by
  simp only [settleFill, hfunded, Bool.not_true, Bool.false_eq_true, if_false, bind_eq_ok,
    require_eq_ok, orFail_eq_ok, checkedMul_eq_some, checkedSub_eq_some] at h
  obtain ⟨_, -, _, -, _, ⟨hdistinct, -, -⟩, maker, hmaker, taker, htaker, _, ⟨hsymbols, hsides⟩,
    market, hmarket, _, -, _, ⟨-, rfl⟩, _, ⟨-, rfl⟩, _, ⟨-, rfl⟩, _, ⟨-, rfl⟩, nextBalances,
    hbalances, makerNext, hmakerNext, takerNext, htakerNext, h⟩ := h
  cases h
  obtain ⟨rfl, hmakerLeft, hmakerUnits⟩ := afterFill_eq_ok hmakerNext
  obtain ⟨rfl, htakerLeft, htakerUnits⟩ := afterFill_eq_ok htakerNext
  obtain ⟨rfl, hshifted⟩ := mapM_eq_ok
    (g := fun e : AccountKey × (Int × Int) => (e.1, moved (l.balances.getD e.1 .default) e.2))
    (fun e b he => (shifted_eq_ok he).1) hbalances
  refine ⟨maker, taker, market, hmaker, htaker, hdistinct, hsymbols, hsides, hmarket, hmakerLeft,
    htakerLeft, hmakerUnits, htakerUnits, ?_, rfl⟩
  intro key d hd
  exact (shifted_eq_ok (hshifted (key, d) (SortedMap.mem_entries.2 hd))).2

theorem fst_ite {p : Prop} [Decidable p] (x y : Int) :
    (if p then ((x, y) : Int × Int) else 0).1 = if p then x else 0 := by
  split_ifs <;> rfl

theorem snd_ite {p : Prop} [Decidable p] (x y : Int) :
    (if p then ((x, y) : Int × Int) else 0).2 = if p then y else 0 := by
  split_ifs <;> rfl

/-- The reserved half of a fill's deltas takes from each side what the fill used up. -/
theorem reserved_deltasOf (market : MarketAssets) (maker taker : Reservation) (price qty : Int)
    (hsides : maker.side ≠ taker.side) (hmaker : maker.asset = reservedAsset market maker.side)
    (htaker : taker.asset = reservedAsset market taker.side) (key : AccountKey) :
    ((deltasOf market maker taker price qty).getD key (0, 0)).2 =
      -(if accountKey maker.account maker.asset = key then
          reserveAmount maker.side maker.limitCents qty else 0) -
        (if accountKey taker.account taker.asset = key then
          reserveAmount taker.side taker.limitCents qty else 0) := by
  have htakerSide := Side.eq_opposite_of_ne hsides.symm
  unfold deltasOf fillDeltas buyerOf sellerOf
  simp only [getD_addDelta, Prod.snd_add, snd_ite]
  -- Who buys decides which side sets cash aside and which sets the base aside.
  cases hside : maker.side with
  | buy =>
      rw [hside] at htakerSide hmaker
      rw [htakerSide] at htaker
      have hbuyerAsset : maker.asset = market.quoteAsset := hmaker
      have hsellerAsset : taker.asset = market.baseAsset := htaker
      simp only [htakerSide, Side.opposite, reserveAmount, if_true, SortedMap.getD,
        SortedMap.get?_empty, Option.getD_none, hbuyerAsset, hsellerAsset, ite_self]
      by_cases hbuyer : accountKey maker.account market.quoteAsset = key <;>
        by_cases hseller : accountKey taker.account market.baseAsset = key <;>
        simp [hbuyer, hseller, Int.sub_eq_add_neg]
  | sell =>
      rw [hside] at htakerSide hmaker
      rw [htakerSide] at htaker
      have hsellerAsset : maker.asset = market.baseAsset := hmaker
      have hbuyerAsset : taker.asset = market.quoteAsset := htaker
      simp only [htakerSide, Side.opposite, reserveAmount, reduceCtorEq, if_false, SortedMap.getD,
        SortedMap.get?_empty, Option.getD_none, hbuyerAsset, hsellerAsset, ite_self]
      by_cases hbuyer : accountKey taker.account market.quoteAsset = key <;>
        by_cases hseller : accountKey maker.account market.baseAsset = key <;>
        simp [hbuyer, hseller]
      omega

/-- A fill moves assets between accounts and makes none. -/
theorem total_deltasOf (market : MarketAssets) (maker taker : Reservation) (price qty : Int)
    (asset : String) :
    (deltasOf market maker taker price qty).total
      (fun key d => if (ofLex key).2 = asset then d.1 + d.2 else 0) = 0 := by
  unfold deltasOf fillDeltas
  simp only [total_addDelta, SortedMap.total_empty]
  split_ifs <;> omega

theorem name_of_deltasOf {market : MarketAssets} {maker taker : Reservation} {price qty : Int}
    {key : AccountKey} {d : Int × Int}
    (h : (deltasOf market maker taker price qty).get? key = some d) :
    (ofLex key).2 = market.quoteAsset ∨ (ofLex key).2 = market.baseAsset := by
  unfold deltasOf fillDeltas addDelta at h
  simp only [SortedMap.get?_insert, SortedMap.get?_empty] at h
  split_ifs at h with h1 h2 h3 h4
  · exact Or.inr (by rw [h1]; rfl)
  · exact Or.inr (by rw [h2]; rfl)
  · exact Or.inl (by rw [h3]; rfl)
  · exact Or.inl (by rw [h4]; rfl)

theorem Conserving.settleFill {config : FundingConfig} {l l' : Ledger} (h : Conserving config l)
    {makerOrder takerOrder : OrderId} {price qty : Int}
    (hsettle : l.settleFill makerOrder takerOrder price qty = .ok l') : Conserving config l' := by
  obtain ⟨maker, taker, market, hs⟩ := settleFill_eq_ok h.isFunded hsettle
  have hmaker := h.reservation _ _ hs.maker_get
  have htaker := h.reservation _ _ hs.taker_get
  have hmarket := h.market_eq_ok.1 hs.market_eq
  -- Both reservations are of this market, so each draws on one of its two assets.
  have hmakerAsset : maker.asset = reservedAsset market maker.side := by
    obtain ⟨market', hmarket', hasset⟩ := hmaker.asset_eq
    cases hmarket.symm.trans hmarket'
    exact hasset
  have htakerAsset : taker.asset = reservedAsset market taker.side := by
    obtain ⟨market', hmarket', hasset⟩ := htaker.asset_eq
    rw [← hs.symbols] at hmarket'
    cases hmarket.symm.trans hmarket'
    exact hasset
  have hmakerGet : l.reservations.get? maker.orderId = some maker := by
    rw [hmaker.id_eq]
    exact hs.maker_get
  have htakerGet : (putReservation l.reservations (filledBy maker qty)).get? taker.orderId =
      some taker := by
    rw [get?_putReservation, htaker.id_eq]
    have hne : takerOrder ≠ (filledBy maker qty).orderId := by
      show takerOrder ≠ maker.orderId
      rw [hmaker.id_eq]
      exact hs.distinct.symm
    rw [if_neg hne]
    exact hs.taker_get
  have hmakerUnits := (reserveUnits_eq_ok.1 hmaker.units_eq).2.2.2.symm
  have htakerUnits := (reserveUnits_eq_ok.1 htaker.units_eq).2.2.2.symm
  rw [hs.result]
  refine ⟨h.mode, h.config_eq, ?_, ?_, ?_, ?_⟩
  · intro id r hr
    dsimp only at hr
    rw [get?_putReservation, get?_putReservation] at hr
    split_ifs at hr with htakerId htakerDone hmakerId hmakerDone
    · cases hr
      subst htakerId
      exact ⟨rfl, htaker.asset_eq, hs.taker_units htakerDone⟩
    · cases hr
      subst hmakerId
      exact ⟨rfl, hmaker.asset_eq, hs.maker_units hmakerDone⟩
    · exact h.reservation id r hr
  · intro key
    dsimp only
    rw [getD_movedAll, obligation_putReservation htakerGet htakerUnits,
      obligation_putReservation hmakerGet hmakerUnits, ← h.backed key]
    have hreserved := reserved_deltasOf market maker taker price qty hs.sides hmakerAsset
      htakerAsset key
    simp only [moved, hreserved]
    omega
  · intro key b hb
    dsimp only at hb
    rw [get?_movedAll] at hb
    cases hd : (deltasOf market maker taker price qty).get? key with
    | none =>
        rw [hd] at hb
        exact h.balance key b hb
    | some d =>
        rw [hd] at hb
        simp only [Option.map_some, Option.some_or, Option.some.injEq] at hb
        subst hb
        refine ⟨hs.checked key d hd, ?_⟩
        rcases name_of_deltasOf hd with hname | hname
        · rw [hname]
          exact configured_reservedAsset hmarket .buy
        · rw [hname]
          exact configured_reservedAsset hmarket .sell
  · intro asset
    dsimp only
    rw [holdings_movedAll, total_deltasOf, add_zero, h.conserved]

/-! ## Genesis -/

theorem conserving_funded {config : FundingConfig} {l : Ledger} (h : Ledger.funded config = .ok l) :
    Conserving (sortedConfig config) l := by
  simp only [Ledger.funded, bind_eq_ok] at h
  obtain ⟨_, hvalid, h⟩ := h
  cases h
  simp only [validateConfig, bind_eq_ok, require_eq_ok] at hvalid
  obtain ⟨_, -, _, -, hgrants, hgrant⟩ := hvalid
  -- The config names every account and asset once.
  have hkeys : (((sortedConfig config).funding.map (fun grant =>
      (accountKey grant.account grant.asset, (⟨grant.units, 0⟩ : Balance)))).map Prod.fst).Nodup := by
    have hlex := (List.nodup_map_iff (toLex (α := AccountId × String)).injective).2 hgrants
    simpa [Function.comp_def, accountKey] using hlex
  have hget : ∀ key b, (SortedMap.ofList ((sortedConfig config).funding.map (fun grant =>
      (accountKey grant.account grant.asset, (⟨grant.units, 0⟩ : Balance))))).get? key = some b →
      ∃ grant ∈ (sortedConfig config).funding,
        key = accountKey grant.account grant.asset ∧ b = ⟨grant.units, 0⟩ := by
    intro key b hb
    rw [SortedMap.ofList, SortedMap.get?_foldl_insert _ _ _ hkeys] at hb
    simp only [SortedMap.get?_empty, Option.or_none] at hb
    obtain ⟨grant, hgrant, heq⟩ := List.mem_map.1 (Entries.mem_of_lookup hb)
    cases heq
    exact ⟨grant, hgrant, rfl, rfl⟩
  -- No reservation yet, so nothing is owed.
  refine ⟨rfl, rfl, by simp, ?_, ?_, ?_⟩
  · intro key
    unfold SortedMap.getD
    cases hb : SortedMap.get? _ key with
    | none => rfl
    | some b =>
        obtain ⟨grant, -, -, rfl⟩ := hget key b hb
        rfl
  · intro key b hb
    obtain ⟨grant, hmem, rfl, rfl⟩ := hget key b hb
    obtain ⟨hpos, market, hmarket, hasset⟩ := hgrant grant hmem
    refine ⟨checkBalance_eq_ok.2 ⟨hpos.le, le_rfl, by simpa using grant.inRange⟩, ?_⟩
    refine List.any_eq_true.2 ⟨market, hmarket, ?_⟩
    simp only [Bool.or_eq_true, decide_eq_true_eq]
    exact hasset
  · intro asset
    unfold holdings SortedMap.ofList
    rw [SortedMap.total_foldl_insert _ _ _ hkeys]
    simp [granted, List.map_map, Function.comp_def]

/-! ## Validation -/

theorem Conserving.reserved_range {config : FundingConfig} {l : Ledger} (h : Conserving config l)
    (key : AccountKey) : 0 ≤ (l.balances.getD key .default).reserved ∧
      (l.balances.getD key .default).reserved ≤ i64Max := by
  unfold SortedMap.getD
  cases hb : l.balances.get? key with
  | none => decide
  | some b =>
      obtain ⟨havailable, hreserved, hrange⟩ := checkBalance_eq_ok.1 (h.balance key b hb).1
      have hmax := hrange.2
      simp only [Option.getD_some]
      omega

/-- Adding up obligations succeeds where no total leaves its range. -/
theorem foldlM_addObligation {config : FundingConfig} {l : Ledger} (h : Conserving config l) :
    ∀ (entries : List (OrderId × Reservation)) (obligations : SortedMap AccountKey Int),
      (∀ e ∈ entries, ReservationInv config e.1 e.2) →
      (∀ key, 0 ≤ obligations.getD key 0) →
      (∀ key, obligations.getD key 0 + (entries.map (fun e =>
        if accountKey e.2.account e.2.asset = key then e.2.units else 0)).sum ≤ i64Max) →
      entries.foldlM (fun obligations e => l.addObligation obligations e.2) obligations =
        .ok ((entries.map (fun e => (accountKey e.2.account e.2.asset, e.2.units))).foldl
          (fun m e => m.insert e.1 (m.getD e.1 0 + e.2)) obligations)
  | [], obligations, _, _, _ => rfl
  | e :: entries, obligations, hentries, hnonneg, hmax => by
      have he := hentries e List.mem_cons_self
      obtain ⟨market, hmarket, hasset⟩ := he.asset_eq
      have hpos := reserveUnits_pos he.units_eq
      let key := accountKey e.2.account e.2.asset
      -- What the other rows add is not negative, so no sum on the way passes the last one.
      have htail : 0 ≤ (entries.map (fun x =>
          if accountKey x.2.account x.2.asset = key then x.2.units else 0)).sum := by
        refine List.sum_nonneg ?_
        intro n hn
        obtain ⟨x, hx, rfl⟩ := List.mem_map.1 hn
        split_ifs
        · exact (reserveUnits_pos (hentries x (List.mem_cons_of_mem _ hx)).units_eq).le
        · exact le_rfl
      have hkey := hmax key
      have hbase := hnonneg key
      simp only [List.map_cons, List.sum_cons, key, if_true] at hkey htail hbase
      have hadd : checkedAdd (obligations.getD key 0) e.2.units =
          some (obligations.getD key 0 + e.2.units) :=
        checkedAdd_eq_some.2 ⟨⟨by simp only [i64Min, key]; omega, by simp only [key]; omega⟩, rfl⟩
      have hstep : l.addObligation obligations e.2 =
          .ok (obligations.insert key (obligations.getD key 0 + e.2.units)) := by
        simp only [addObligation, bind_eq_ok]
        exact ⟨market, h.market_eq_ok.2 hmarket, (), by simp [require, hasset], e.2.units,
          he.units_eq, (), by simp [require], _, by simp only [orFail_eq_ok]; exact hadd, rfl⟩
      rw [List.foldlM_cons, hstep]
      refine foldlM_addObligation h entries _
        (fun x hx => hentries x (List.mem_cons_of_mem _ hx)) ?_ ?_
      · -- Sums stay nonnegative
        -- each sum stays nonnegative.
        intro q
        rw [SortedMap.getD_insert]
        split_ifs
        · simp only [key]
          omega
        · exact hnonneg q
      · -- A sum with the rows still to come is what it was before the step.
        intro q
        have hq := hmax q
        simp only [List.map_cons, List.sum_cons] at hq
        rw [SortedMap.getD_insert]
        by_cases hqk : q = key
        · rw [if_pos hqk]
          rw [if_pos hqk.symm] at hq
          rw [hqk] at hq ⊢
          omega
        · rw [if_neg hqk]
          rw [if_neg (Ne.symm hqk)] at hq
          omega

/-- Taking every balance's obligation off the list succeeds where they agree. -/
theorem foldlM_matchObligation :
    ∀ (entries : List (AccountKey × Balance)) (obligations : SortedMap AccountKey Int),
      (entries.map Prod.fst).Nodup →
      (∀ e ∈ entries, e.2.reserved = obligations.getD e.1 0) →
      entries.foldlM matchObligation obligations =
        .ok (obligations.filter (fun key _ => key ∉ entries.map Prod.fst))
  | [], obligations, _, _ => by
      have hall : obligations.filter (fun key _ => key ∉ ([] : List AccountKey)) = obligations := by
        ext1 key
        rw [SortedMap.get?_filter]
        cases obligations.get? key <;> simp
      simpa [pure, Except.pure] using hall.symm
  | e :: entries, obligations, hnodup, hagree => by
      obtain ⟨hnot, hnodup⟩ := List.nodup_cons.1 hnodup
      -- A row whose obligation agrees takes it off the list.
      have hstep : matchObligation obligations e = .ok (obligations.erase e.1) := by
        simp only [matchObligation, bind_eq_ok]
        exact ⟨(), by simp [require, hagree e List.mem_cons_self], rfl⟩
      have hrest := foldlM_matchObligation entries (obligations.erase e.1) hnodup (by
        intro x hx
        -- Later rows are of other keys, so their obligations are untouched.
        have hne : x.1 ≠ e.1 := fun heq => hnot (heq ▸ List.mem_map_of_mem hx)
        rw [hagree x (List.mem_cons_of_mem _ hx)]
        simp [SortedMap.getD, hne])
      rw [List.foldlM_cons, hstep]
      refine hrest.trans (congrArg Except.ok ?_)
      ext1 key
      simp only [SortedMap.get?_filter, SortedMap.get?_erase]
      by_cases hkey : key = e.1
      · cases hget : obligations.get? key <;> simp [hkey]
      · have hmem : key ∈ (e :: entries).map Prod.fst ↔ key ∈ entries.map Prod.fst := by
          simp [hkey]
        simp only [hmem, hkey, if_false]

theorem Conserving.validate {config : FundingConfig} {l : Ledger} (h : Conserving config l) :
    l.validate = .ok () := by
  have hobligations := foldlM_addObligation h l.reservations.entries .empty
    (fun e he => h.reservation e.1 e.2 (SortedMap.mem_entries.1 he)) (by simp [SortedMap.getD])
    (by
      intro key
      have hrange := (h.reserved_range key).2
      rw [h.backed] at hrange
      simpa [SortedMap.getD, obligation, SortedMap.total, Entries.total] using hrange)
  set obligations : SortedMap AccountKey Int := .accumulate
    (l.reservations.entries.map (fun e => (accountKey e.2.account e.2.asset, e.2.units)))
    with hdef
  have hvalue : ∀ key, obligations.getD key 0 = (l.balances.getD key .default).reserved := by
    intro key
    rw [hdef, SortedMap.getD_accumulate, h.backed, List.map_map]
    rfl
  have hmatch := foldlM_matchObligation l.balances.entries obligations l.balances.nodup_keys (by
    intro e he
    have hget := SortedMap.mem_entries.1 he
    rw [hvalue]
    simp [SortedMap.getD, hget])
  -- A nonzero obligation has a reserved balance, so it has a balance.
  have hempty : (obligations.filter
      (fun key _ => key ∉ l.balances.entries.map Prod.fst)).isEmpty = true := by
    refine SortedMap.isEmpty_iff.2 (fun key => ?_)
    cases hget : (obligations.filter
        (fun key _ => key ∉ l.balances.entries.map Prod.fst)).get? key with
    | none => rfl
    | some v =>
        obtain ⟨hv, hnot⟩ := SortedMap.get?_filter_eq_some.1 hget
        have hpos : 0 < v := by
          refine SortedMap.pos_of_accumulate ?_ (hdef ▸ hv)
          intro e he
          obtain ⟨x, hx, rfl⟩ := List.mem_map.1 he
          exact reserveUnits_pos (h.reservation x.1 x.2 (SortedMap.mem_entries.1 hx)).units_eq
        have hreserved := hvalue key
        have hvGet : obligations.getD key 0 = v := by simp [SortedMap.getD, hv]
        cases hb : l.balances.get? key with
        | none =>
            simp only [SortedMap.getD, hb, Option.getD_none, Balance.default] at hreserved
            simp only [SortedMap.getD] at hvGet
            omega
        | some b =>
            exact absurd (List.mem_map_of_mem (f := Prod.fst) (SortedMap.mem_entries.2 hb))
              (of_decide_eq_true hnot)
  have htotals : SortedMap.filter (.accumulate (config.funding.map
      (fun grant => (grant.asset, grant.units)))) (fun _ total => total ≠ 0) =
      SortedMap.filter (.accumulate (l.balances.entries.map (fun e =>
        ((ofLex e.1).2, e.2.available + e.2.reserved)))) (fun _ total => total ≠ 0) := by
    refine SortedMap.filter_ne_zero_congr (fun asset => ?_)
    rw [SortedMap.getD_accumulate, SortedMap.getD_accumulate, List.map_map, List.map_map]
    exact (h.conserved asset).symm
  simp only [Ledger.validate, h.isFunded, Bool.not_true, Bool.false_eq_true, if_false, bind_eq_ok]
  refine ⟨config, by simp [h.config_eq], ⟨⟩, ?_, (), ?_, obligations, hobligations, _, hmatch, ?_⟩
  · refine forM_eq_ok.2 (fun e he => ?_)
    obtain ⟨hcheck, hconfigured⟩ := h.balance e.1 e.2 (SortedMap.mem_entries.1 he)
    simp only [validBalance, bind_eq_ok]
    exact ⟨(), hcheck, by simp [require, hconfigured]⟩
  · exact require_eq_ok.2 htotals
  · exact require_eq_ok.2 hempty

end Ledger
end VerifiableExchange
