import VerifiableExchange.Matcher.Funded
import VerifiableExchange.Matcher.ZeroSum

/-!
# Story — the ledger and the positions tell one story

The engine keeps two books of account. The ledger counts every asset an account holds, spendable or
set aside, and the position table counts what the account bought and sold in each market. A fill
moves both by the same amounts, and nothing else moves either.
-/

namespace VerifiableExchange

open Lib

/-! ## What an account holds -/

namespace Ledger

/-- Everything an account holds of an asset, spendable or set aside. -/
def worth (l : Ledger) (account : AccountId) (asset : String) : Int :=
  (l.balance account asset).available + (l.balance account asset).reserved

/-- What genesis granted an account of an asset. -/
def grantedTo (config : FundingConfig) (account : AccountId) (asset : String) : Int :=
  (config.funding.map (fun grant =>
    if grant.account = account ∧ grant.asset = asset then grant.units else 0)).sum

theorem worth_congr {l l' : Ledger} (h : l'.balances = l.balances) (account : AccountId)
    (asset : String) : l'.worth account asset = l.worth account asset := by
  simp only [worth, balance, h]

/-- A balance that is replaced by one of the same sum changes nobody's worth. -/
theorem worth_insert {l : Ledger} {key : AccountKey} {next : Balance}
    (hsum : next.available + next.reserved =
      (l.balances.getD key .default).available + (l.balances.getD key .default).reserved)
    (reservations : SortedMap OrderId Reservation) (account : AccountId) (asset : String) :
    ({ l with balances := l.balances.insert key next, reservations := reservations } :
      Ledger).worth account asset = l.worth account asset := by
  simp only [worth, balance, SortedMap.getD_insert]
  split_ifs with hkey
  · rw [hsum, hkey]
  · rfl

/-- Setting funds aside leaves them the account's. -/
theorem worth_reserve {l l' : Ledger} {id : OrderId} {owner : AccountId} {symbol : String}
    {side : Side} {limit qty : Int} (h : l.reserve id owner symbol side limit qty = .ok l')
    (account : AccountId) (asset : String) : l'.worth account asset = l.worth account asset := by
  unfold reserve at h
  split_ifs at h with hfunded
  · cases h
    rfl
  · simp only [bind_eq_ok, orFail_eq_ok] at h
    obtain ⟨_, -, _, -, market, -, units, -, available, havailable, reserved, hreserved, _, -, h⟩ := h
    cases h
    obtain ⟨-, rfl⟩ := checkedSub_eq_some.1 (Option.filter_eq_some_iff.1 havailable).1
    obtain ⟨-, rfl⟩ := checkedAdd_eq_some.1 hreserved
    refine worth_insert ?_ _ account asset
    dsimp only
    omega

/-- Giving funds back leaves them the account's. -/
theorem worth_release {l : Ledger} {id : OrderId} {result : Ledger × Bool}
    (h : l.release id = .ok result) (account : AccountId) (asset : String) :
    result.1.worth account asset = l.worth account asset := by
  unfold release at h
  split at h
  · cases h
    rfl
  rename_i r hr
  simp only [bind_eq_ok, orFail_eq_ok] at h
  obtain ⟨before, hbefore, available, havailable, reserved, hreserved, _, -, h⟩ := h
  cases h
  obtain ⟨-, rfl⟩ := checkedAdd_eq_some.1 havailable
  obtain ⟨-, rfl⟩ := checkedSub_eq_some.1 hreserved
  have hget : l.balances.getD (accountKey r.account r.asset) .default = before := by
    simp [SortedMap.getD, hbefore]
  refine worth_insert ?_ _ account asset
  rw [hget]
  dsimp only
  omega

/-- What one leg of a fill adds to an account's worth, on its own side of the market. -/
def legWorth (market : MarketAssets) (owner : AccountId) (side : Side) (price qty : Int)
    (key : AccountKey) : Int :=
  (if accountKey owner market.baseAsset = key then Matcher.Position.signedQty side qty * 100 else 0) -
    (if accountKey owner market.quoteAsset = key then
      Matcher.Position.signedQty side (price * qty) else 0)

/-- A fill adds to each balance what its two legs add. -/
theorem sum_deltasOf (market : MarketAssets) (maker taker : Reservation) (price qty : Int)
    (hsides : maker.side = taker.side.opposite) (key : AccountKey) :
    ((deltasOf market maker taker price qty).getD key (0, 0)).1 +
        ((deltasOf market maker taker price qty).getD key (0, 0)).2 =
      legWorth market maker.account maker.side price qty key +
        legWorth market taker.account taker.side price qty key := by
  have hempty : (SortedMap.empty : SortedMap AccountKey (Int × Int)).getD key (0, 0) = 0 := rfl
  unfold deltasOf fillDeltas
  simp only [getD_addDelta, hempty, Prod.fst_add, Prod.snd_add, Prod.fst_zero, Prod.snd_zero,
    fst_ite, snd_ite]
  unfold legWorth buyerOf sellerOf
  cases hside : taker.side with
  | buy =>
      rw [hside] at hsides
      simp only [hsides, Side.opposite, Matcher.Position.signedQty, reduceCtorEq, if_false]
      split_ifs <;> ring
  | sell =>
      rw [hside] at hsides
      simp only [hsides, Side.opposite, Matcher.Position.signedQty, if_true]
      split_ifs <;> ring

theorem worth_settled {l l' : Ledger} {makerOrder takerOrder : OrderId} {price qty : Int}
    {maker taker : Reservation} {market : MarketAssets}
    (h : Settled l makerOrder takerOrder price qty l' maker taker market) (account : AccountId)
    (asset : String) :
    l'.worth account asset = l.worth account asset +
      (legWorth market maker.account maker.side price qty (accountKey account asset) +
        legWorth market taker.account taker.side price qty (accountKey account asset)) := by
  have hsides : maker.side = taker.side.opposite := Side.eq_opposite_of_ne h.sides
  rw [← sum_deltasOf market maker taker price qty hsides]
  unfold worth balance
  rw [h.result, getD_movedAll]
  simp only [moved]
  ring

/-! ## Genesis -/

/-- The grants of one account and asset, of which there is at most one. -/
theorem sum_grants (account : AccountId) (asset : String) :
    ∀ grants : List Funding,
      (grants.map (fun grant => accountKey grant.account grant.asset)).Nodup →
      (((Entries.lookup (accountKey account asset) (grants.map (fun grant =>
          (accountKey grant.account grant.asset, (⟨grant.units, 0⟩ : Balance))))).getD
            .default).available =
        (grants.map (fun grant =>
          if grant.account = account ∧ grant.asset = asset then grant.units else 0)).sum)
  | [], _ => rfl
  | grant :: rest, h => by
      obtain ⟨hnot, hrest⟩ := List.nodup_cons.1 h
      have ih := sum_grants account asset rest hrest
      simp only [List.map_cons, Entries.lookup, List.sum_cons]
      by_cases hkey : accountKey account asset = accountKey grant.account grant.asset
      · obtain ⟨haccount, hasset⟩ := Prod.ext_iff.1 (toLex.injective hkey)
        -- No later grant is of this account and asset.
        have hnone : Entries.lookup (accountKey account asset) (rest.map (fun grant =>
            (accountKey grant.account grant.asset, (⟨grant.units, 0⟩ : Balance)))) = none := by
          refine Option.eq_none_iff_forall_ne_some.2 ?_
          intro b hlookup
          obtain ⟨other, hother, heq⟩ := List.mem_map.1 (Entries.mem_of_lookup hlookup)
          refine hnot (List.mem_map.2 ⟨other, hother, ?_⟩)
          exact (congrArg Prod.fst heq).trans hkey
        rw [hnone] at ih
        rw [if_pos hkey, if_pos ⟨haccount.symm, hasset.symm⟩, ← ih]
        simp [Balance.default]
      · have hother : ¬(grant.account = account ∧ grant.asset = asset) := by
          rintro ⟨rfl, rfl⟩
          exact hkey rfl
        rw [if_neg hkey, if_neg hother, zero_add, ih]

/-- A funded ledger opens with what genesis granted. -/
theorem worth_funded {config : FundingConfig} {l : Ledger} (h : Ledger.funded config = .ok l)
    (account : AccountId) (asset : String) :
    l.worth account asset = grantedTo config account asset := by
  simp only [Ledger.funded, bind_eq_ok] at h
  obtain ⟨_, hvalid, h⟩ := h
  cases h
  simp only [validateConfig, bind_eq_ok, require_eq_ok] at hvalid
  obtain ⟨_, -, _, -, hgrants, -⟩ := hvalid
  have hkeys : ((sortedConfig config).funding.map
      (fun grant => accountKey grant.account grant.asset)).Nodup := by
    have hlex := (List.nodup_map_iff (toLex (α := AccountId × String)).injective).2 hgrants
    simpa [Function.comp_def, accountKey] using hlex
  -- Sorting the grants moves no sum.
  have hsame : grantedTo config account asset = grantedTo (sortedConfig config) account asset :=
    ((List.perm_insertionSort _ config.funding).map _).sum_eq.symm
  rw [hsame, grantedTo, ← sum_grants account asset _ hkeys]
  have hreserved : ∀ key b, (SortedMap.ofList ((sortedConfig config).funding.map (fun grant =>
      (accountKey grant.account grant.asset, (⟨grant.units, 0⟩ : Balance))))).get? key = some b →
      b.reserved = 0 := by
    intro key b hb
    rw [SortedMap.ofList, SortedMap.get?_foldl_insert _ _ _ (by simpa [Function.comp_def] using hkeys)]
      at hb
    simp only [SortedMap.get?_empty, Option.or_none] at hb
    obtain ⟨grant, -, heq⟩ := List.mem_map.1 (Entries.mem_of_lookup hb)
    cases heq
    rfl
  -- The keys are distinct, so a balance is its one grant.
  have hget : (SortedMap.ofList ((sortedConfig config).funding.map (fun grant =>
      (accountKey grant.account grant.asset, (⟨grant.units, 0⟩ : Balance))))).get?
        (accountKey account asset) = Entries.lookup (accountKey account asset)
          ((sortedConfig config).funding.map (fun grant =>
            (accountKey grant.account grant.asset, (⟨grant.units, 0⟩ : Balance)))) := by
    rw [SortedMap.ofList, SortedMap.get?_foldl_insert _ _ _ (by simpa [Function.comp_def] using hkeys)]
    simp
  unfold worth balance SortedMap.getD
  dsimp only
  rw [← hget]
  cases hb : SortedMap.get? _ (accountKey account asset) with
  | none => rfl
  | some b => simp [hreserved _ b hb]

end Ledger

namespace Matcher

/-! ## What an account traded -/

/-- An account's position in one market. -/
def positionIn (positions : SortedMap AccountKey Position) (account : AccountId)
    (market : MarketAssets) : Position :=
  positions.getD (Ledger.accountKey account market.symbol) .default

/-- What an account bought and sold of an asset, in ledger units: its net quantity in the markets
of that base asset, and its cash in the markets of that quote asset. -/
def traded (markets : List MarketAssets) (positions : SortedMap AccountKey Position)
    (account : AccountId) (asset : String) : Int :=
  ((markets.filter (fun m => m.baseAsset = asset)).map
      (fun m => (positionIn positions account m).netQtyTenths * 100)).sum +
    ((markets.filter (fun m => m.quoteAsset = asset)).map
      (fun m => (positionIn positions account m).cashMills)).sum

/-- One market of a list is found under its symbol, and no other market has that symbol. -/
theorem sum_map_of_find? {markets : List MarketAssets} {market : MarketAssets} {symbol : String}
    (hnodup : (markets.map MarketAssets.symbol).Nodup)
    (hfind : markets.find? (fun m => m.symbol = symbol) = some market) (p : MarketAssets → Bool)
    (f g : MarketAssets → Int) (amount : Int)
    (hfg : ∀ m ∈ markets, f m = g m + (if m.symbol = symbol then amount else 0)) :
    ((markets.filter p).map f).sum =
      ((markets.filter p).map g).sum + (if p market then amount else 0) := by
  induction markets with
  | nil => simp at hfind
  | cons m rest ih =>
      obtain ⟨hnot, hrest⟩ := List.nodup_cons.1 hnodup
      have hm := hfg m List.mem_cons_self
      have hlater := fun x hx => hfg x (List.mem_cons_of_mem m hx)
      rw [List.find?_cons] at hfind
      by_cases hsymbol : m.symbol = symbol
      · -- This is the market, so no later one moves.
        have hmarket : m = market := by simpa [hsymbol] using hfind
        subst hmarket
        have hsame : (rest.filter p).map f = (rest.filter p).map g := by
          refine List.map_congr_left ?_
          intro x hx
          have hx := (List.mem_filter.1 hx).1
          have hne : x.symbol ≠ symbol := by
            rintro rfl
            exact hnot (hsymbol ▸ List.mem_map_of_mem hx)
          rw [hlater x hx, if_neg hne, add_zero]
        rw [if_pos hsymbol] at hm
        by_cases hp : p m = true
        · simp only [List.filter_cons, hp, if_true, List.map_cons, List.sum_cons, hsame, hm]
          ring
        · simp [hp, hsame]
      · have hfind : rest.find? (fun m => m.symbol = symbol) = some market := by
          simpa [hsymbol] using hfind
        have htail := ih hrest hfind hlater
        rw [if_neg hsymbol, add_zero] at hm
        by_cases hp : p m = true
        · simp only [List.filter_cons, hp, if_true, List.map_cons, List.sum_cons, htail, hm]
          ring
        · simpa [List.filter_cons, hp] using htail

/-- A total of a position that a fill's two legs move, account by account. -/
theorem positionIn_positionsAfter {f : Position → Int} {order : IncomingOrder} {fill : PlannedFill}
    {positions : SortedMap AccountKey Position} {next : Position × Position}
    (hnext : positionsOf order fill positions = some next) (amount : Int)
    (hleg : ∀ {p p' : Position} {side : Side},
      p.afterFill side fill.qtyTenths fill.priceCents = some p' →
        f p' = f p + Position.signedQty side amount) (account : AccountId) (market : MarketAssets) :
    f (positionIn (positionsAfter positions order fill next.1 next.2) account market) =
      f (positionIn positions account market) +
        (if market.symbol = order.symbol then
          (if fill.makerAccount = account then Position.signedQty order.side.opposite amount else 0) +
            (if order.account = account then Position.signedQty order.side amount else 0)
        else 0) := by
  obtain ⟨makerNext, takerNext⟩ := next
  obtain ⟨hmaker, htaker⟩ := Position.afterBothFills_eq_some hnext
  have hmakerLeg := hleg hmaker
  have htakerLeg := hleg htaker
  unfold positionIn positionsAfter
  by_cases hsymbol : market.symbol = order.symbol
  · rw [hsymbol, if_pos rfl]
    dsimp only
    rw [SortedMap.getD_insert]
    -- The taker is stored last, over the maker where they are one account.
    by_cases htakerIs : order.account = account
    · subst htakerIs
      rw [if_pos rfl, if_pos rfl, htakerLeg]
      by_cases hsame : fill.makerAccount = order.account
      · simp only [hsame, decide_true, if_true] at hmakerLeg ⊢
        rw [hmakerLeg]
        ring
      · simp only [hsame, decide_false, Bool.false_eq_true, if_false]
        ring
    · have hkey : Ledger.accountKey account order.symbol ≠
          Ledger.accountKey order.account order.symbol :=
        fun hkey => htakerIs (accountKey_inj.1 hkey).symm
      rw [if_neg hkey, if_neg htakerIs, add_zero]
      by_cases hmakerIs : fill.makerAccount = account
      · subst hmakerIs
        rw [if_pos (Ne.symm htakerIs), SortedMap.getD_insert, if_pos rfl, if_pos rfl, hmakerLeg]
      · have hkey : Ledger.accountKey account order.symbol ≠
            Ledger.accountKey fill.makerAccount order.symbol :=
          fun hkey => hmakerIs (accountKey_inj.1 hkey).symm
        rw [if_neg hmakerIs, add_zero]
        split_ifs
        · rw [SortedMap.getD_insert, if_neg hkey]
        · rfl
  · -- A position of another symbol is under another key.
    have hkey : ∀ owner, Ledger.accountKey account market.symbol ≠
        Ledger.accountKey owner order.symbol := by
      intro owner hkey
      have hname := congrArg (fun key => (ofLex key).2) hkey
      exact hsymbol hname
    rw [if_neg hsymbol, add_zero]
    dsimp only
    rw [SortedMap.getD_insert, if_neg (hkey _)]
    split_ifs
    · rw [SortedMap.getD_insert, if_neg (hkey _)]
    · rfl

theorem accountKey_eq_iff {a b : AccountId} {x y : String} :
    Ledger.accountKey a x = Ledger.accountKey b y ↔ a = b ∧ x = y := by
  simp [Ledger.accountKey]

/-- A booked fill adds to what both accounts traded what it adds to their balances. -/
theorem traded_positionsAfter {markets : List MarketAssets} {market : MarketAssets}
    {order : IncomingOrder} {fill : PlannedFill} {positions : SortedMap AccountKey Position}
    {next : Position × Position} (hnodup : (markets.map MarketAssets.symbol).Nodup)
    (hfind : markets.find? (fun m => m.symbol = order.symbol) = some market)
    (hnext : positionsOf order fill positions = some next) (account : AccountId) (asset : String) :
    traded markets (positionsAfter positions order fill next.1 next.2) account asset =
      traded markets positions account asset +
        (Ledger.legWorth market fill.makerAccount order.side.opposite fill.priceCents fill.qtyTenths
            (Ledger.accountKey account asset) +
          Ledger.legWorth market order.account order.side fill.priceCents fill.qtyTenths
            (Ledger.accountKey account asset)) := by
  have hnet := positionIn_positionsAfter (f := Position.netQtyTenths) hnext fill.qtyTenths
    (fun hleg => (Position.afterFill_eq_some hleg).1) account
  have hcash := positionIn_positionsAfter (f := Position.cashMills) hnext
    (-(fill.priceCents * fill.qtyTenths))
    (by
      intro p p' side hleg
      rw [(Position.afterFill_eq_some hleg).2.1]
      cases side
      · simp only [Position.signedQty]
        ring
      · simp only [Position.signedQty]
        ring) account
  -- The market of the symbol moves and no other one does.
  have hbase := sum_map_of_find? hnodup hfind (fun m => m.baseAsset = asset)
    (fun m => (positionIn (positionsAfter positions order fill next.1 next.2) account
      m).netQtyTenths * 100)
    (fun m => (positionIn positions account m).netQtyTenths * 100)
    (((if fill.makerAccount = account then
        Position.signedQty order.side.opposite fill.qtyTenths else 0) +
      (if order.account = account then Position.signedQty order.side fill.qtyTenths else 0)) * 100)
    (by
      intro m _
      rw [hnet m]
      split_ifs <;> ring)
  have hquote := sum_map_of_find? hnodup hfind (fun m => m.quoteAsset = asset)
    (fun m => (positionIn (positionsAfter positions order fill next.1 next.2) account m).cashMills)
    (fun m => (positionIn positions account m).cashMills) _ (fun m _ => hcash m)
  unfold traded
  rw [hbase, hquote]
  simp only [Ledger.legWorth, accountKey_eq_iff, decide_eq_true_eq]
  by_cases hmaker : fill.makerAccount = account <;> by_cases htaker : order.account = account <;>
    by_cases hb : market.baseAsset = asset <;> by_cases hq : market.quoteAsset = asset <;>
    cases order.side <;> simp [hmaker, htaker, hb, hq, Position.signedQty, Side.opposite] <;> ring

/-! ## Both books of account -/

/-- What every account holds beyond its genesis funding is what it traded. -/
def OneStory (config : FundingConfig) (markets : List MarketAssets) (ledger : Ledger)
    (positions : SortedMap AccountKey Position) : Prop :=
  ∀ account asset, ledger.worth account asset =
    Ledger.grantedTo config account asset + traded markets positions account asset

theorem OneStory.congr_worth {config : FundingConfig} {markets : List MarketAssets}
    {ledger ledger' : Ledger} {positions : SortedMap AccountKey Position}
    (h : OneStory config markets ledger positions)
    (hworth : ∀ account asset, ledger'.worth account asset = ledger.worth account asset) :
    OneStory config markets ledger' positions := by
  intro account asset
  rw [hworth]
  exact h account asset

/-- One fill moves both books of account alike. -/
theorem OneStory.fill {config genesis : FundingConfig} {symbols : SymbolRegistry} {last : OrderId}
    {books : Books} {order : IncomingOrder} {remaining : Int} {into : BookAndTrades} {e : FillEvent}
    (h : OneStory genesis config.markets into.ledger into.positions)
    (hnodup : (config.markets.map MarketAssets.symbol).Nodup)
    (hmatch : FundedMatch config symbols last books order remaining into)
    (enabled : e.Enabled order remaining into) :
    OneStory genesis config.markets (e.result order remaining into).ledger
      (e.result order remaining into).positions := by
  obtain ⟨maker, taker, market, hs⟩ :=
    Ledger.settleFill_eq_ok hmatch.conserving.isFunded enabled.settled
  obtain ⟨haccount, hsymbol, hside, -, -⟩ := hmatch.own taker hs.taker_get
  -- The maker rests, so the reservation that pays is its own.
  have hrests := (enabled.levelEdit books).mem_old.1 (List.mem_cons_self (a := e.maker) (l := e.rest))
  obtain ⟨r, hr, hbacks⟩ := hmatch.backed.of_rests _ _ hrests
  cases hs.maker_get.symm.trans hr
  have hmarket := hmatch.conserving.market_eq_ok.1 hs.market_eq
  have hmakerSymbol : maker.symbol = order.symbol := hbacks.symbol_eq.symm
  have hmakerSide : maker.side = order.side.opposite := hbacks.side_eq.symm
  rw [hmakerSymbol] at hmarket
  intro account asset
  have htraded := traded_positionsAfter hnodup hmarket enabled.booked account asset
  have hworth := Ledger.worth_settled hs account asset
  rw [← hbacks.account_eq, haccount, hmakerSide, hside] at hworth
  show e.ledger.worth account asset = _ + traded config.markets
    (positionsAfter into.positions order (e.planned remaining) e.next.1 e.next.2) account asset
  rw [hworth, h account asset, htraded]
  simp only [FillEvent.planned]
  ring

theorem OneStory.fills {config genesis : FundingConfig} {symbols : SymbolRegistry} {last : OrderId}
    {books : Books} {order : IncomingOrder} {remaining left : Int} {before after : BookAndTrades}
    (h : OneStory genesis config.markets before.ledger before.positions)
    (hnodup : (config.markets.map MarketAssets.symbol).Nodup)
    (hmatch : FundedMatch config symbols last books order remaining before)
    (hfills : Fills order remaining before left after) :
    OneStory genesis config.markets after.ledger after.positions := by
  have hboth := hfills.invariant
    (P := fun remaining into => FundedMatch config symbols last books order remaining into ∧
      OneStory genesis config.markets into.ledger into.positions)
    (fun _ _ _ enabled hinv => ⟨hinv.1.fill enabled, hinv.2.fill hnodup hinv.1 enabled⟩)
    ⟨hmatch, h⟩
  exact hboth.2

namespace MatcherState

/-! ## One message -/

theorem worth_releaseAll (account : AccountId) (asset : String) :
    ∀ {ids : List OrderId} {l l' : Ledger}, releaseAll ids l = .ok l' →
      l'.worth account asset = l.worth account asset
  | [], l, l', h => by
      cases h
      rfl
  | id :: ids, l, l', h => by
      unfold releaseAll at h
      split at h
      · cases h
      · rename_i hrelease
        exact (worth_releaseAll account asset h).trans (Ledger.worth_release hrelease account asset)

/-- A state whose two books of account agree. -/
def TellsOneStory (genesis config : FundingConfig) (s : MatcherState) : Prop :=
  OneStory genesis config.markets s.ledger s.positions

theorem TellsOneStory.matched {config genesis : FundingConfig} {s t : MatcherState}
    (h : s.TellsOneStory genesis config) (hnodup : (config.markets.map MarketAssets.symbol).Nodup)
    (hfunded : s.FundedInv config) (hs : s.WellFormed) {m : NewMessage} {order : IncomingOrder}
    {left : Int} {after : BookAndTrades} (hnew : s.lastSeen < m.id) (haccepted : s.Accepted m order)
    (hexecuted : s.Executed order left after) (hfinished : Finished s order left after t) :
    t.TellsOneStory genesis config := by
  obtain ⟨reserved, hreserve, hfills⟩ := hexecuted.filled
  have hmatch := hfunded.fundedMatch hs hnew haccepted hreserve
  have hreserved : OneStory genesis config.markets reserved s.positions :=
    OneStory.congr_worth h (Ledger.worth_reserve hreserve)
  have hafter : OneStory genesis config.markets after.ledger after.positions :=
    OneStory.fills hreserved hnodup hmatch hfills
  cases hfinished with
  | overflowed _ _ _ hrelease => exact hafter.congr_worth (Ledger.worth_release hrelease)
  | filled => exact hafter
  | rested => exact hafter
  | cancelled _ _ _ _ _ hrelease => exact hafter.congr_worth (Ledger.worth_release hrelease)

theorem TellsOneStory.dispatch {config genesis : FundingConfig} {env : Primitives}
    {s t : MatcherState} (h : s.TellsOneStory genesis config)
    (hnodup : (config.markets.map MarketAssets.symbol).Nodup) (hfunded : s.FundedInv config)
    (hs : s.WellFormed) {message : OrderMessage} (hnew : s.lastSeen < message.id)
    (hdispatch : MatcherState.dispatch env s message = .ok t) : t.TellsOneStory genesis config := by
  cases dispatch_cases hs.noEmptyLevel hdispatch with
  | refused | refusedOnBook | cancelIgnored | cancelRejected | ignored | listed | ruled => exact h
  | matched _ _ _ _ _ haccepted hexecuted hfinished =>
      exact h.matched hnodup hfunded hs hnew haccepted hexecuted hfinished
  | cancelled _ _ _ _ _ _ hrelease =>
      exact OneStory.congr_worth h (Ledger.worth_release hrelease)
  | delisted _ _ _ _ _ _ _ hcleared =>
      rcases clearBook_eq_ok hcleared with ⟨-, rfl⟩ | ⟨_, ledger, -, hledger, rfl⟩
      · exact h
      · exact OneStory.congr_worth h (fun account asset => worth_releaseAll account asset hledger)

theorem TellsOneStory.apply {config genesis : FundingConfig} {env : Primitives}
    {s s' : MatcherState} (h : s.TellsOneStory genesis config)
    (hnodup : (config.markets.map MarketAssets.symbol).Nodup) (hfunded : s.FundedInv config)
    (hs : s.WellFormed) {message : OrderMessage} {received : Option Bytes}
    (happly : s.apply env message received = .ok s') : s'.TellsOneStory genesis config := by
  obtain ⟨-, t, hdispatch, hconsume⟩ := apply_eq_ok happly
  have hnext := hs.next_eq hdispatch hconsume
  have ht := h.dispatch hnodup hfunded hs (hnext ▸ Nat.lt_succ_self _) hdispatch
  obtain ⟨-, -, hledger, -, -, -, -, hpositions, -⟩ := consume_eq_ok hconsume
  intro account asset
  rw [hpositions, Ledger.worth_congr (by rw [hledger])]
  exact ht account asset

/-! ## Every run from a funded genesis -/

theorem nodup_markets {config : FundingConfig} {l : Ledger} (h : Ledger.funded config = .ok l) :
    ((Ledger.sortedConfig config).markets.map MarketAssets.symbol).Nodup := by
  simp only [Ledger.funded, validateConfig, bind_eq_ok, require_eq_ok] at h
  obtain ⟨_, ⟨_, -, _, ⟨hnodup, -⟩, -⟩, -⟩ := h
  exact hnodup

/-- Nobody traded anything before the first message. -/
theorem traded_empty (markets : List MarketAssets) (account : AccountId) (asset : String) :
    traded markets .empty account asset = 0 := by
  have hposition : ∀ market, positionIn .empty account market = .default := fun _ => rfl
  simp [traded, hposition, Position.default]

theorem traded_sortedConfig (config : FundingConfig) (positions : SortedMap AccountKey Position)
    (account : AccountId) (asset : String) :
    traded (Ledger.sortedConfig config).markets positions account asset =
      traded config.markets positions account asset := by
  have hperm := List.perm_insertionSort (fun a b : MarketAssets => a.symbol ≤ b.symbol) config.markets
  unfold traded
  congr 1
  · exact ((hperm.filter _).map _).sum_eq
  · exact ((hperm.filter _).map _).sum_eq

theorem tellsOneStory_opening {config : FundingConfig} {limits : Option ResourceLimits}
    {session pubkey : Option String} {recording : Bool} {start : MatcherState}
    (h : ExecutionGenesis.opening ⟨.fundedSimulation, some config, limits⟩ session pubkey recording =
      .ok start) :
    start.TellsOneStory config (Ledger.sortedConfig config) ∧
      ((Ledger.sortedConfig config).markets.map MarketAssets.symbol).Nodup := by
  obtain ⟨ledger, hledger, -, rfl⟩ := ExecutionGenesis.opening_eq_ok h
  refine ⟨?_, nodup_markets hledger⟩
  intro account asset
  have hopening : traded (Ledger.sortedConfig config).markets MatcherState.new.positions account
      asset = 0 := traded_empty _ _ _
  calc ledger.worth account asset
      = Ledger.grantedTo config account asset := Ledger.worth_funded hledger account asset
    _ = Ledger.grantedTo config account asset +
        traded (Ledger.sortedConfig config).markets MatcherState.new.positions account asset := by
      rw [hopening, add_zero]

/-- In every state of a funded run, what an account holds of an asset beyond its genesis funding is
its net quantity in the markets of that base asset and its cash in the markets of that quote asset. -/
theorem reachable_one_story {env : Primitives} {config : FundingConfig}
    {limits : Option ResourceLimits} {session pubkey : Option String} {recording : Bool}
    {start s : MatcherState}
    (hstart : ExecutionGenesis.opening ⟨.fundedSimulation, some config, limits⟩ session pubkey
      recording = .ok start) (hs : Reaches env start s) (account : AccountId) (asset : String) :
    (s.ledger.balance account asset).available + (s.ledger.balance account asset).reserved -
        Ledger.grantedTo config account asset =
      ((config.markets.filter (fun m => m.baseAsset = asset)).map (fun m =>
          (s.positions.getD (Ledger.accountKey account m.symbol) .default).netQtyTenths * 100)).sum +
        ((config.markets.filter (fun m => m.quoteAsset = asset)).map (fun m =>
          (s.positions.getD (Ledger.accountKey account m.symbol) .default).cashMills)).sum := by
  have hopening : Reachable env start := .genesis hstart
  have hfunded := fundedInv_opening hstart
  obtain ⟨htells, hnodup⟩ := tellsOneStory_opening hstart
  have hstory : s.TellsOneStory config (Ledger.sortedConfig config) := by
    induction hs with
    | refl => exact htells
    | applied hs happly ih =>
        exact ih.apply hnodup (hs.fundedInv hopening hfunded) (hs.reachable hopening).wellFormed happly
  have hworth := hstory account asset
  rw [traded_sortedConfig] at hworth
  exact sub_eq_of_eq_add' hworth

/-- The seller of the short log gave one unit of the base asset for its price. -/
theorem reachable_one_story_sample :
    (Sample.fundedState.ledger.balance 1 "ETH").available +
        (Sample.fundedState.ledger.balance 1 "ETH").reserved - 5000 = -1000 ∧
      (Sample.fundedState.positions.getD (Ledger.accountKey 1 "ETH-USDC") .default).netQtyTenths =
        -10 := by
  have hstory := reachable_one_story Sample.opening_fundedStart Sample.reaches_fundedState 1 "ETH"
  have hnet := Sample.fundedState_values.2.2
  generalize Sample.fundedState = s at hstory hnet ⊢
  refine ⟨?_, hnet⟩
  simpa [Sample.funding, Ledger.grantedTo, hnet] using hstory

end MatcherState

end Matcher
end VerifiableExchange
