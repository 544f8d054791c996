import VerifiableExchange.Poller.PnlReads

/-!
# PnlReplay — the replay of one account

The replay of an account's own trades stands, at every cursor, at the positions the full replay
gives that account. With the last prices of the symbols it traded as its marks, a sample of it is
the account's profit after all trades up to there.
-/

namespace VerifiableExchange
namespace Matcher

open Lib

/-! ## The account's positions -/

namespace AccountPnlReplay

/-- The replay holds the account's part of these positions. -/
structure Holds (account : AccountId) (positions : SortedMap AccountKey Position)
    (replay : AccountPnlReplay) : Prop where
  owner : replay.account = account
  positions : ∀ symbol,
    replay.positions.get? symbol = positions.get? (Ledger.accountKey account symbol)

/-- What a replay keeps while only positions change. -/
structure SameView (before after : AccountPnlReplay) : Prop where
  points : after.points = before.points
  last : after.last = before.last

theorem SameView.refl (replay : AccountPnlReplay) : SameView replay replay := ⟨rfl, rfl⟩

theorem SameView.trans {a b c : AccountPnlReplay} (h : SameView a b) (h' : SameView b c) :
    SameView a c := ⟨h'.points.trans h.points, h'.last.trans h.last⟩

variable {account : AccountId} {positions : SortedMap AccountKey Position}
  {replay : AccountPnlReplay} {row : TradeRow}

theorem applyLeg_sameView (symbol : String) (priceCents qtyTenths : Int)
    (replay : AccountPnlReplay) (leg : AccountId × Side) :
    SameView replay (applyLeg symbol priceCents qtyTenths replay leg) := by
  unfold applyLeg
  split_ifs
  · exact ⟨rfl, rfl⟩
  · exact .refl replay

theorem applyRow_sameView (replay : AccountPnlReplay) (row : TradeRow) :
    SameView replay (replay.applyRow row) :=
  (applyLeg_sameView _ _ _ _ _).trans (applyLeg_sameView _ _ _ _ _)

theorem foldl_applyRow_sameView (replay : AccountPnlReplay) (page : List TradeRow) :
    SameView replay (page.foldl applyRow replay) := by
  induction page generalizing replay with
  | nil => exact .refl replay
  | cons row page ih => exact (applyRow_sameView replay row).trans (ih _)

theorem accountKey_eq_iff {a b : AccountId} {symbol other : String} :
    Ledger.accountKey a symbol = Ledger.accountKey b other ↔ a = b ∧ symbol = other := by
  rw [Ledger.accountKey, Ledger.accountKey, toLex.injective.eq_iff, Prod.mk.injEq]

/-- One side of a trade, booked in both. -/
theorem Holds.leg (h : Holds account positions replay) (leg : AccountId × Side) :
    Holds account (MatcherState.replayFill row positions leg)
      (applyLeg row.symbol row.priceCents row.qtyTenths replay leg) := by
  obtain ⟨rfl, hpositions⟩ := h
  unfold MatcherState.replayFill applyLeg
  by_cases hown : leg.1 = replay.account
  · rw [if_pos hown, hown]
    refine ⟨rfl, fun symbol => ?_⟩
    have hbefore : replay.positions.getD row.symbol .default =
        positions.getD (Ledger.accountKey replay.account row.symbol) .default :=
      congrArg (Option.getD · Position.default) (hpositions row.symbol)
    dsimp only
    rw [SortedMap.get?_insert, SortedMap.get?_insert, hbefore, hpositions symbol]
    simp only [accountKey_eq_iff, true_and]
  · rw [if_neg hown]
    refine ⟨rfl, fun symbol => ?_⟩
    have hkey : Ledger.accountKey replay.account symbol ≠ Ledger.accountKey leg.1 row.symbol :=
      fun heq => hown (accountKey_eq_iff.1 heq).1.symm
    rw [SortedMap.get?_insert_of_ne _ hkey, hpositions symbol]

theorem Holds.foldl (h : Holds account positions replay) (legs : List (AccountId × Side)) :
    Holds account (legs.foldl (MatcherState.replayFill row) positions)
      (legs.foldl (applyLeg row.symbol row.priceCents row.qtyTenths) replay) := by
  induction legs generalizing positions replay with
  | nil => exact h
  | cons leg legs ih => exact ih (h.leg leg)

/-- The replay stands at these trades. -/
abbrev Booked (account : AccountId) (rows : List TradeRow) (replay : AccountPnlReplay) : Prop :=
  Holds account (Totals.of rows).positions replay

theorem Booked.applyRow {rows : List TradeRow} (h : Booked account rows replay) (row : TradeRow) :
    Booked account (rows ++ [row]) (replay.applyRow row) := by
  unfold Booked
  rw [Totals.of_concat]
  exact h.foldl (Totals.legs row)

/-- A trade of other accounts is booked without looking at it. -/
theorem applyRow_eq_self (haccount : replay.account = account) (h : ¬row.Involves account) :
    replay.applyRow row = replay := by
  obtain ⟨hmaker, htaker⟩ := not_or.1 h
  subst haccount
  simp only [AccountPnlReplay.applyRow, applyFill, List.foldl_cons, List.foldl_nil, applyLeg,
    if_neg hmaker, if_neg htaker]

/-- The account's own trades of a stretch book the whole stretch. -/
theorem Booked.through {rows : List TradeRow} (h : Booked account rows replay)
    (middle : List TradeRow) :
    Booked account (rows ++ middle)
      ((middle.filter (fun row => row.Involves account)).foldl AccountPnlReplay.applyRow
        replay) := by
  induction middle generalizing rows replay with
  | nil =>
      rw [List.append_nil]
      exact h
  | cons row middle ih =>
      rw [List.append_cons]
      by_cases hown : row.Involves account
      · rw [List.filter_cons, if_pos (decide_eq_true hown), List.foldl_cons]
        exact ih (h.applyRow row)
      · rw [List.filter_cons, if_neg (by simpa using hown)]
        refine ih ?_
        rw [← applyRow_eq_self h.owner hown]
        exact h.applyRow row

end AccountPnlReplay

open AccountPnlReplay

/-- A page ends at a row of the stretch, and it is what the filter leaves of the rows up to it. -/
theorem page_split {α : Type} {p : α → Bool} {middle front : List α} {limit : Nat} {last : α}
    (h : (middle.filter p).take limit = front ++ [last]) :
    ∃ before rest, middle = before ++ last :: rest ∧
      (before ++ [last]).filter p = front ++ [last] := by
  have hall : middle.filter p = front ++ last :: (middle.filter p).drop limit := by
    rw [List.append_cons, ← h, List.take_append_drop]
  obtain ⟨left, right, hmiddle, hleft, hright⟩ := List.filter_eq_append_iff.1 hall
  obtain ⟨skipped, rest, hrest, hskipped, hlast, -⟩ := List.filter_eq_cons_iff.1 hright
  refine ⟨left ++ skipped, rest, ?_, ?_⟩
  · rw [hmiddle, hrest, List.append_assoc]
  · rw [List.filter_append, List.filter_append, hleft, List.filter_eq_nil_iff.2 hskipped,
      List.append_nil, List.filter_cons, if_pos hlast, List.filter_nil]

/-- The account's stored trades up to one of them are booked page by page, and the loop ends. -/
theorem applyAccountUntil_spec {rows : StoredTrades} (hrows : Numbered rows) {account : AccountId}
    {through : Nat} (hthrough : through ≤ rows.length) {replay : AccountPnlReplay} {cursor : Nat}
    (hcursor : cursor ≤ through) (h : Booked account (rows.take cursor) replay) :
    ∃ after reached, applyAccountUntil rows replay cursor through = .ok (after, reached) ∧
      reached ≤ through ∧ Booked account (rows.take reached) after ∧
      Booked account (rows.take through) after ∧ SameView replay after := by
  induction hleft : through - cursor using Nat.strong_induction_on generalizing replay cursor with
  | _ left ih =>
  subst hleft
  rw [applyAccountUntil]
  by_cases hlt : cursor < through
  · rw [if_pos hlt, StoredTrades.accountTradesBetween_eq hrows, h.owner]
    dsimp only
    set middle := (rows.take through).drop cursor with hmiddle
    have hsplit : rows.take cursor ++ middle = rows.take through := by
      rw [← List.take_append_drop cursor (rows.take through), List.take_take, min_eq_left hcursor]
    have hall := h.through middle
    rw [hsplit] at hall
    cases hpage : ((middle.filter (fun row => row.Involves account)).take 1000).getLast? with
    | none =>
        -- The account has no more trades up to there.
        have hnone : middle.filter (fun row => row.Involves account) = [] := by
          rw [List.getLast?_eq_none_iff, List.take_eq_nil_iff] at hpage
          exact hpage.resolve_left (by decide)
        rw [hnone, List.foldl_nil] at hall
        exact ⟨replay, cursor, rfl, hcursor, h, hall, .refl replay⟩
    | some last =>
        obtain ⟨front, hfront⟩ := List.getLast?_eq_some_iff.1 hpage
        obtain ⟨before, rest, hbefore, hpart⟩ := page_split hfront
        have hwhole : rows.take through = (rows.take cursor ++ before) ++ last :: rest := by
          rw [← hsplit, hbefore, List.append_assoc]
        -- The id of the page's last trade is its place in the run.
        have hlength : (rows.take cursor).length = cursor :=
          List.length_take_of_le (hcursor.trans hthrough)
        have hid : last.tradeId = cursor + before.length + 1 := by
          have hnumbered := hrows.take through
          rw [hwhole] at hnumbered
          rw [hnumbered.id_of_append, List.length_append, hlength]
        have hle : last.tradeId ≤ through := by
          have htotal := congrArg List.length hwhole
          rw [List.length_take_of_le hthrough] at htotal
          simp only [List.length_append, List.length_cons, hlength] at htotal
          omega
        have hreached : rows.take last.tradeId = rows.take cursor ++ (before ++ [last]) := by
          rw [← min_eq_left hle, ← List.take_take, hwhole, List.append_cons, ← List.append_assoc]
          refine List.take_left' ?_
          rw [hid, List.length_append, List.length_append, hlength, List.length_singleton]
        have hbooked := h.through (before ++ [last])
        rw [← hreached, hpart, ← hfront] at hbooked
        obtain ⟨after, reached, hok, hreach, hat, hat', hview⟩ :=
          ih (through - last.tradeId) (by omega) hle hbooked rfl
        dsimp only
        rw [if_neg (by omega)]
        exact ⟨after, reached, hok, hreach, hat, hat',
          (foldl_applyRow_sameView replay _).trans hview⟩
  · obtain rfl : cursor = through := le_antisymm hcursor (not_lt.1 hlt)
    rw [if_neg hlt]
    exact ⟨replay, cursor, rfl, le_rfl, h, h, .refl replay⟩

/-! ## The account's profit after some trades -/

namespace Totals

/-- What an account holds, by symbol. -/
def holdings (t : Totals) (account : AccountId) : List (String × Position) :=
  (t.positions.entries.filter (fun e => (ofLex e.1).1 = account)).map
    (fun e => ((ofLex e.1).2, e.2))

theorem mem_holdings {t : Totals} {account : AccountId} {symbol : String} {p : Position} :
    (symbol, p) ∈ t.holdings account ↔
      t.positions.get? (Ledger.accountKey account symbol) = some p := by
  rw [← SortedMap.mem_entries, holdings, List.mem_map]
  constructor
  · rintro ⟨⟨key, q⟩, hkey, heq⟩
    obtain ⟨hmem, howner⟩ := List.mem_filter.1 hkey
    obtain ⟨rfl, rfl⟩ := Prod.mk.inj heq
    obtain rfl := of_decide_eq_true howner
    exact hmem
  · intro hmem
    exact ⟨_, List.mem_filter.2 ⟨hmem, decide_eq_true rfl⟩, rfl⟩

theorem nodup_holdings (t : Totals) (account : AccountId) :
    ((t.holdings account).map Prod.fst).Nodup := by
  rw [holdings, List.map_map]
  refine List.Nodup.map_on ?_ (t.positions.nodup_keys.of_map.filter _)
  intro e he f hf hsymbol
  obtain ⟨hmem, hown⟩ := List.mem_filter.1 he
  obtain ⟨hmem', hown'⟩ := List.mem_filter.1 hf
  have hkey : e.1 = f.1 := Prod.ext
    ((of_decide_eq_true hown).trans (of_decide_eq_true hown').symm) hsymbol
  refine Prod.ext hkey (Option.some.inj ?_)
  rw [← SortedMap.mem_entries.1 hmem, ← SortedMap.mem_entries.1 hmem', hkey]

/-- What is locked in, one value for each symbol the account holds. -/
def lockedIn (account : AccountId) (rows : List TradeRow) : List Int :=
  ((of rows).holdings account).map (fun e => e.2.realizedMills)

/-- What is not locked in, at each symbol's last price. -/
def notLockedIn (account : AccountId) (rows : List TradeRow) : List Int :=
  ((of rows).holdings account).map (fun e => e.2.openProfit (lastPrice rows e.1))

/-- The sums of a sample stay in 64 bits, in whatever order they are added. -/
structure SumsWithin (account : AccountId) (rows : List TradeRow) : Prop where
  lockedIn : SumsFit (lockedIn account rows)
  notLockedIn : SumsFit (notLockedIn account rows)
  total : InI64 ((Totals.lockedIn account rows).sum + (Totals.notLockedIn account rows).sum)

/-- The account's profit after these trades, at the time of the last of them. -/
def pointOf (account : AccountId) (rows : List TradeRow) : PnlPoint where
  timestamp := (rows.getLast?.map TradeRow.timestamp).getD 0
  realized := millsToF64 (lockedIn account rows).sum
  unrealized := millsToF64 (notLockedIn account rows).sum
  total := millsToF64 ((lockedIn account rows).sum + (notLockedIn account rows).sum)

/-- An account has a position in the symbols it traded, and in no other. -/
theorem isSome_position_iff (account : AccountId) (rows : List TradeRow) (symbol : String) :
    ((of rows).positions.contains (Ledger.accountKey account symbol)) = true ↔
      ∃ row ∈ rows, row.symbol = symbol ∧ row.Involves account := by
  induction rows using List.reverseRecOn with
  | nil => simp [of, empty, SortedMap.contains]
  | append_singleton rows row ih =>
      have hlegs : (of (rows ++ [row])).positions.contains (Ledger.accountKey account symbol) =
          true ↔ (of rows).positions.contains (Ledger.accountKey account symbol) = true ∨
            (row.symbol = symbol ∧ row.Involves account) := by
        rw [of_concat]
        simp only [Totals.replay, legs, List.foldl_cons, List.foldl_nil, MatcherState.replayFill,
          SortedMap.contains_insert_iff, accountKey_eq_iff, TradeRow.Involves]
        tauto
      rw [hlegs, ih]
      constructor
      · rintro (⟨r, hr, h⟩ | h)
        · exact ⟨r, List.mem_append_left _ hr, h⟩
        · exact ⟨row, List.mem_append_right _ (List.mem_singleton_self row), h⟩
      · rintro ⟨r, hr, h⟩
        rcases List.mem_append.1 hr with hr | hr
        · exact .inl ⟨r, hr, h⟩
        · exact .inr (List.mem_singleton.1 hr ▸ h)

/-- A traded symbol has a price, which is that of one of its trades. -/
theorem newestPrice_of_mem {rows : List TradeRow} {row : TradeRow} (hrow : row ∈ rows) :
    ∃ last ∈ rows, newestPrice rows row.symbol = some last.priceCents := by
  have hmem : row ∈ rows.filter (fun r => r.symbol = row.symbol) :=
    List.mem_filter.2 ⟨hrow, decide_eq_true rfl⟩
  cases hlast : (rows.filter (fun r => r.symbol = row.symbol)).getLast? with
  | none =>
      rw [List.getLast?_eq_none_iff.1 hlast] at hmem
      cases hmem
  | some last =>
      refine ⟨last, List.mem_of_mem_filter (List.mem_of_getLast? hlast), ?_⟩
      rw [newestPrice, hlast, Option.map_some]

end Totals

open Totals

/-! ## One sample -/

/-- The marks are the last prices, where the account holds anything. -/
def Marked (account : AccountId) (rows : List TradeRow) (last : SortedMap String Int) : Prop :=
  ∀ row ∈ rows, row.Involves account → last.get? row.symbol = newestPrice rows row.symbol

/-- Two sums, added to one position after the other. -/
theorem foldl_sums {Holding : Type} {step : Int × Int → Holding → Int × Int} {f g : Holding → Int} :
    ∀ {walked : List Holding} {sums : Int × Int},
      (∀ e ∈ walked, ∀ sums,
        step sums e = (saturatingAdd sums.1 (f e), saturatingAdd sums.2 (g e))) →
      walked.foldl step sums =
        ((walked.map f).foldl saturatingAdd sums.1, (walked.map g).foldl saturatingAdd sums.2)
  | [], _, _ => rfl
  | e :: walked, sums, h => by
      obtain ⟨hstep, hrest⟩ := List.forall_mem_cons.1 h
      rw [List.foldl_cons, hstep, foldl_sums hrest]
      rfl

variable {account : AccountId} {rows : List TradeRow} {replay : AccountPnlReplay}

/-- The map of a replay that stands at these trades holds what the full replay gives the account. -/
theorem Booked.perm (h : Booked account rows replay) (order : HashOrder String Position) :
    (order.walk replay.positions).Perm ((of rows).holdings account) := by
  refine (order.perm _).trans ((List.perm_ext_iff_of_nodup replay.positions.nodup_keys.of_map
    (nodup_holdings _ _).of_map).2 ?_)
  rintro ⟨symbol, p⟩
  rw [SortedMap.mem_entries, mem_holdings, h.positions symbol]

/-- What an account holds, it holds at a price, and at that price its profit fits. -/
theorem price_of_held (hgrid : ∀ row ∈ rows, row.OnGrid) (hsums : SumsWithin account rows)
    {holding : String × Position} (hheld : holding ∈ (of rows).holdings account) :
    ∃ row ∈ rows, row.symbol = holding.1 ∧ row.Involves account ∧
      newestPrice rows holding.1 = some (lastPrice rows holding.1) ∧
      0 < lastPrice rows holding.1 ∧
      holding.2.unrealizedMills (lastPrice rows holding.1) =
        holding.2.openProfit (lastPrice rows holding.1) := by
  obtain ⟨row, hrow, hsymbol, hinvolves⟩ := (isSome_position_iff account rows holding.1).1
    (SortedMap.contains_iff.2 ⟨holding.2, mem_holdings.1 hheld⟩)
  obtain ⟨last, hlast, hprice⟩ := newestPrice_of_mem hrow
  rw [hsymbol] at hprice
  have hvalue : lastPrice rows holding.1 = last.priceCents := by
    rw [lastPrice, hprice, Option.getD_some]
  refine ⟨row, hrow, hsymbol, hinvolves, ?_, ?_, ?_⟩
  · rw [hprice, hvalue]
  · rw [hvalue]
    exact (hgrid last hlast).price.1
  · exact clampI64_eq_self (hsums.notLockedIn.inI64 (List.mem_map_of_mem hheld))

/-- A sample of a replay that stands at these trades is the account's profit after them. -/
theorem sample_eq (h : Booked account rows replay) (hgrid : ∀ row ∈ rows, row.OnGrid)
    (hmarked : Marked account rows replay.last) (hsums : SumsWithin account rows)
    (order : HashOrder String Position) {timestamp : Nat}
    (htime : rows.getLast?.map TradeRow.timestamp = some timestamp) :
    replay.sample order timestamp =
      { replay with points := replay.points ++ [pointOf account rows] } := by
  have hperm := Booked.perm h order
  have hstep : ∀ e ∈ order.walk replay.positions, ∀ sums,
      addPosition replay.last sums e = (saturatingAdd sums.1 e.2.realizedMills,
        saturatingAdd sums.2 (e.2.openProfit (lastPrice rows e.1))) := by
    intro e he sums
    obtain ⟨row, hrow, hsymbol, hinvolves, hprice, hpos, hopen⟩ :=
      price_of_held hgrid hsums (hperm.mem_iff.1 he)
    have hmark := hmarked row hrow hinvolves
    rw [hsymbol, hprice] at hmark
    simp [addPosition, hmark, Option.filter, hpos, hopen]
  rw [AccountPnlReplay.sample, foldl_sums hstep]
  simp only [hsums.lockedIn.foldl_saturatingAdd (hperm.map _),
    hsums.notLockedIn.foldl_saturatingAdd (hperm.map _)]
  have htotal : saturatingAdd (Totals.lockedIn account rows).sum
      (Totals.notLockedIn account rows).sum =
      (Totals.lockedIn account rows).sum + (Totals.notLockedIn account rows).sum :=
    clampI64_eq_self hsums.total
  rw [htotal, pointOf, htime]
  rfl

end Matcher
end VerifiableExchange
