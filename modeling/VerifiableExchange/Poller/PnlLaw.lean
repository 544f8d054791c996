import Mathlib.Data.List.TakeWhile
import VerifiableExchange.Poller.PnlSamples

/-!
# PnlLaw — a profit series is a full replay

Wherever the memory window starts, the series of an account that traded has one sample at each
sampled id, and the sample is the account's profit after all trades up to that id. The last sample
is what a request for positions adds up.
-/

namespace VerifiableExchange
namespace Matcher

open Lib AccountPnlReplay Totals

/-! ## The sampled ids -/

theorem sampleIdsFrom_spec {total step : Nat} {hstep : 0 < step} (start : Nat) :
    (sampleIdsFrom total step hstep start).Pairwise (· < ·) ∧
      ∀ k ∈ sampleIdsFrom total step hstep start, start ≤ k ∧ k ≤ total := by
  induction start using sampleIdsFrom.induct total step hstep with
  | case1 start hle ih =>
      rw [sampleIdsFrom, if_pos hle]
      by_cases hroom : start + step ≤ u64Max
      · obtain ⟨hsorted, hids⟩ := ih
        rw [if_pos hroom]
        refine ⟨List.pairwise_cons.2 ⟨fun k hk => ?_, hsorted⟩, fun k hk => ?_⟩
        · have := (hids k hk).1
          omega
        · rcases List.mem_cons.1 hk with rfl | hk
          · exact ⟨le_rfl, hle⟩
          · obtain ⟨hlow, hhigh⟩ := hids k hk
            exact ⟨by omega, hhigh⟩
      · rw [if_neg hroom]
        refine ⟨List.pairwise_singleton _ _, fun k hk => ?_⟩
        obtain rfl := List.mem_singleton.1 hk
        exact ⟨le_rfl, hle⟩
  | case2 start hgt =>
      rw [sampleIdsFrom, if_neg hgt]
      exact ⟨List.Pairwise.nil, fun k hk => by cases hk⟩

/-- The sampled ids grow, name trades of the run, and end at the newest one. -/
theorem pnlSampleIds_spec {total : Nat} (htotal : 0 < total) (points : Nat) :
    (pnlSampleIds total points).Pairwise (· < ·) ∧
      (∀ k ∈ pnlSampleIds total points, 0 < k ∧ k ≤ total) ∧
      (pnlSampleIds total points).getLast? = some total := by
  unfold pnlSampleIds
  rw [if_neg htotal.ne']
  dsimp only
  generalize_proofs hstep
  generalize max _ 1 = step at *
  obtain ⟨hsorted, hids⟩ := @sampleIdsFrom_spec total step hstep 1
  by_cases hlast : (sampleIdsFrom total step hstep 1).getLast? = some total
  · rw [if_pos hlast]
    exact ⟨hsorted, hids, hlast⟩
  · rw [if_neg hlast]
    -- The newest trade is above every id a step apart.
    have hbelow : ∀ k ∈ sampleIdsFrom total step hstep 1, k < total := by
      intro k hk
      refine lt_of_le_of_ne (hids k hk).2 ?_
      rintro rfl
      rcases List.eq_nil_or_concat (sampleIdsFrom k step hstep 1) with hnil | ⟨front, last, hsplit⟩
      · rw [hnil] at hk
        cases hk
      · rw [List.concat_eq_append] at hsplit
        rw [hsplit, List.getLast?_concat, Option.some.injEq] at hlast
        rw [hsplit] at hk hsorted hids
        have hfront := (List.mem_append.1 hk).resolve_right
          (fun hend => hlast (List.mem_singleton.1 hend).symm)
        have hlt :=
          (List.pairwise_append.1 hsorted).2.2 k hfront last (List.mem_singleton_self last)
        have hle := (hids last (List.mem_append_right _ (List.mem_singleton_self last))).2
        omega
    refine ⟨List.pairwise_append.2 ⟨hsorted, List.pairwise_singleton _ _, fun k hk j hj => ?_⟩,
      fun k hk => ?_, List.getLast?_concat⟩
    · rw [List.mem_singleton.1 hj]
      exact hbelow k hk
    · rcases List.mem_append.1 hk with hk | hk
      · exact hids k hk
      · rw [List.mem_singleton.1 hk]
        exact ⟨htotal, le_rfl⟩

/-- The ids below the window and those the walk through it meets are all of them. -/
theorem samples_split {ids : List Nat} {total below : Nat} (hsorted : ids.Pairwise (· < ·))
    (hids : ∀ k ∈ ids, 0 < k ∧ k ≤ total) (hbelow : below ≤ total) :
    ids.takeWhile (· < below + 1) ++
      (List.range' (below + 1) (total - below)).filter (· ∈ ids) = ids := by
  have hwhole : (List.range' 1 total).filter (· ∈ ids) = ids := by
    refine List.Pairwise.eq_of_mem_iff ((List.pairwise_lt_range' ..).filter _) hsorted ?_
    · intro k
      rw [List.mem_filter, List.mem_range'_1, decide_eq_true_eq]
      refine ⟨And.right, fun hk => ⟨?_, hk⟩⟩
      have := hids k hk
      omega
  have hranges : List.range' 1 below ++ List.range' (below + 1) (total - below) =
      List.range' 1 total := by
    rw [Nat.add_comm below 1, List.range'_append_1, Nat.add_sub_cancel' hbelow]
  rw [← hranges, List.filter_append] at hwhole
  have hfront : ∀ k ∈ (List.range' 1 below).filter (· ∈ ids), decide (k < below + 1) = true := by
    intro k hk
    have := List.mem_range'_1.1 (List.mem_of_mem_filter hk)
    exact decide_eq_true (by omega)
  have hback : ((List.range' (below + 1) (total - below)).filter (· ∈ ids)).takeWhile
      (fun k => decide (k < below + 1)) = [] := by
    rw [List.takeWhile_eq_nil_iff]
    intro hpos hlt
    have hmem := List.mem_range'_1.1 (List.mem_of_mem_filter (List.get_mem _ ⟨0, hpos⟩))
    have := of_decide_eq_true hlt
    omega
  calc
    _ = ((List.range' 1 below).filter (· ∈ ids) ++
          (List.range' (below + 1) (total - below)).filter (· ∈ ids)).takeWhile
            (fun k => decide (k < below + 1)) ++
          (List.range' (below + 1) (total - below)).filter (· ∈ ids) := by rw [hwhole]
    _ = (List.range' 1 below).filter (· ∈ ids) ++
          (List.range' (below + 1) (total - below)).filter (· ∈ ids) := by
        rw [List.takeWhile_append_of_pos hfront, hback, List.append_nil]
    _ = ids := hwhole

/-! ## The law -/

/-- The series of a full replay: at each sampled id, the profit after all trades up to it. -/
def fullReplay (rows : List TradeRow) (params : PnlQuery) : PnlSeries where
  account := params.account
  points := (pnlSampleIds rows.length (params.points.getD 200)).map
    (fun k => pointOf params.account (rows.take k))

/-- A database that holds the first trades of a run, however far the run has gone on since. -/
def RunHistory.OfRun (history : RunHistory) (rows : List TradeRow) : Prop :=
  ∀ stored, history.trades = some stored →
    ∃ later count, stored = (rows ++ later).take count ∧
      (Totals.of (rows ++ later)).Kept (rows ++ later)

/-- The trades below the window can be read: there are none, or the table reaches the window. -/
def RunHistory.Reaches (history : RunHistory) (below : Nat) : Prop :=
  below = 0 ∨ ∃ runId stored, history = ⟨some runId, some stored⟩ ∧ below ≤ stored.length

section Law

variable {t : Totals} {rows : List TradeRow} {below : Nat}

/-- What an engine keeps, with the trades above `below` in memory. -/
def Totals.withWindow (t : Totals) (rows : List TradeRow) (below : Nat) : Totals :=
  { t with trades := rows.drop below }

theorem mem_symbolsOf {account : AccountId} {symbol : String} :
    symbol ∈ t.symbolsOf account ↔
      t.positions.contains (Ledger.accountKey account symbol) = true := by
  have hsymbols : t.symbolsOf account = (t.holdings account).map Prod.fst := by
    rw [symbolsOf, holdings, List.map_map]
    rfl
  rw [hsymbols, SortedMap.contains_iff, List.mem_map]
  constructor
  · rintro ⟨⟨_, p⟩, hp, rfl⟩
    exact ⟨p, mem_holdings.1 hp⟩
  · rintro ⟨p, hp⟩
    exact ⟨(symbol, p), mem_holdings.2 hp, rfl⟩

theorem names_symbolsOf (h : t.Kept rows) (account : AccountId) :
    Names (t.symbolsOf account) account rows := by
  intro row hrow hinvolves
  rw [mem_symbolsOf, h.replayed, isSome_position_iff]
  exact ⟨row, hrow, rfl, hinvolves⟩

theorem symbolsOf_eq_nil_iff (h : t.Kept rows) (account : AccountId) :
    t.symbolsOf account = [] ↔ ∀ row ∈ rows, ¬row.Involves account := by
  rw [List.eq_nil_iff_forall_not_mem]
  constructor
  · intro hnone row hrow hinvolves
    exact hnone _ (names_symbolsOf h account row hrow hinvolves)
  · intro hnone symbol hsymbol
    rw [mem_symbolsOf, h.replayed, isSome_position_iff] at hsymbol
    obtain ⟨row, hrow, -, hinvolves⟩ := hsymbol
    exact hnone row hrow hinvolves

theorem windowFrom_withWindow (h : t.Kept rows) (hbelow : below < rows.length) :
    (t.withWindow rows below).windowFrom = below + 1 := by
  have hnumbered : Numbered rows := h.numbered
  rw [windowFrom, withWindow, List.head?_drop, List.getElem?_eq_getElem hbelow, Option.map_some,
    Option.getD_some]
  exact hnumbered.tradeId_eq (List.getElem?_eq_getElem hbelow)

theorem RunHistory.OfRun.numbered {history : RunHistory} (hrun : history.OfRun rows)
    {stored : StoredTrades} (hstored : history.trades = some stored) :
    Numbered stored ∧ ∀ row ∈ stored, row.OnGrid := by
  obtain ⟨later, count, rfl, hkept⟩ := hrun stored hstored
  have hnumbered : Numbered (rows ++ later) := hkept.numbered
  exact ⟨hnumbered.take count, fun row hrow => hkept.onGrid row (List.mem_of_mem_take hrow)⟩

/-- The table and the run have the same first trades. -/
theorem RunHistory.OfRun.take_eq {history : RunHistory} (hrun : history.OfRun rows)
    {stored : StoredTrades} (hstored : history.trades = some stored) {k : Nat}
    (hk : k ≤ rows.length) (hreach : k ≤ stored.length) : stored.take k = rows.take k := by
  obtain ⟨later, count, rfl, -⟩ := hrun stored hstored
  rw [List.length_take] at hreach
  rw [List.take_take, min_eq_left (hreach.trans (min_le_left _ _)),
    List.take_append_of_le_length hk]

theorem replayBelow_spec (h : t.Kept rows) (hbelow : below < rows.length)
    (order : HashOrder String Position) {history : RunHistory} (hrun : history.OfRun rows)
    (account : AccountId) {ids : List Nat} (hsorted : ids.Pairwise (· < ·))
    (hids : ∀ k ∈ ids, 0 < k ∧ k ≤ rows.length)
    (hsums : ∀ k ∈ ids, SumsWithin account (rows.take k)) :
    (¬history.Reaches below →
      ∃ e, (t.withWindow rows below).replayBelow order history account ids = .error e) ∧
    (history.Reaches below → ∃ after,
      (t.withWindow rows below).replayBelow order history account ids = .ok after ∧
        Stands account (t.symbolsOf account) (rows.take below) after ∧
        after.points = (ids.takeWhile (· < below + 1)).map
          (fun k => pointOf account (rows.take k))) := by
  have hsymbols : (t.withWindow rows below).symbolsOf account = t.symbolsOf account := rfl
  simp only [replayBelow, windowFrom_withWindow h hbelow, hsymbols]
  rcases Nat.eq_zero_or_pos below with rfl | hpos
  · -- The window holds the whole run.
    refine ⟨fun hnot => absurd (.inl rfl) hnot, fun _ => ⟨.new account, if_neg (lt_irrefl 1),
      ⟨booked_new account rows, fun _ _ => rfl⟩, ?_⟩⟩
    cases ids with
    | nil => rfl
    | cons k ids =>
        have hk := (hids k List.mem_cons_self).1
        rw [List.takeWhile_cons, if_neg (by simpa using hk.ne')]
        rfl
  · rw [if_pos (by omega)]
    obtain ⟨runId, trades⟩ := history
    cases runId with
    | none =>
        refine ⟨fun _ => ⟨_, rfl⟩, ?_⟩
        rintro (hzero | ⟨runId, stored, heq, -⟩)
        · exact absurd hzero hpos.ne'
        · cases heq
    | some runId =>
        cases trades with
        | none =>
            refine ⟨fun _ => ⟨_, rfl⟩, ?_⟩
            rintro (hzero | ⟨_, stored, heq, -⟩)
            · exact absurd hzero hpos.ne'
            · cases heq
        | some stored =>
            obtain ⟨hnumbered, hgrid⟩ := hrun.numbered rfl
            constructor
            · intro hnot
              have hshort : stored.newestTradeId < below := by
                rw [StoredTrades.newestTradeId_eq hnumbered]
                exact not_le.1 (fun hle => hnot (.inr ⟨runId, stored, rfl, hle⟩))
              refine ⟨.missingDurable runId stored.newestTradeId (below + 1), ?_⟩
              simp only [replayStored, Nat.add_sub_cancel, if_pos hshort]
            · rintro (hzero | ⟨_, _, heq, hreach⟩)
              · exact absurd hzero hpos.ne'
              · cases heq
                have hsame : ∀ k ≤ below, stored.take k = rows.take k := fun k hk =>
                  hrun.take_eq rfl (hk.trans hbelow.le) (hk.trans hreach)
                have hbounded : ∀ k ∈ ids.takeWhile (· < below + 1), 0 < k ∧ k ≤ below := by
                  intro k hk
                  have hlt : k < below + 1 := by simpa using List.mem_takeWhile_imp hk
                  exact ⟨(hids k ((List.takeWhile_sublist _).subset hk)).1, by omega⟩
                have hnames : Names (t.symbolsOf account) account (stored.take below) := by
                  rw [hsame below le_rfl]
                  exact fun row hrow => names_symbolsOf h account row (List.mem_of_mem_take hrow)
                obtain ⟨after, hok, hstands, hpoints⟩ := replayStored_spec hnumbered hgrid order
                  runId hreach hnames (hsorted.sublist (List.takeWhile_sublist _)) hbounded
                  (fun k hk => by
                    rw [hsame k (hbounded k hk).2]
                    exact hsums k ((List.takeWhile_sublist _).subset hk))
                refine ⟨after, hok, hsame below le_rfl ▸ hstands, hpoints.trans ?_⟩
                exact List.map_congr_left (fun k hk => by rw [hsame k (hbounded k hk).2])

/-- An account that traded gets the full replay, or an error where the trades below the window
cannot be read. -/
theorem getPnl_eq_ok_iff (h : t.Kept rows) (hbelow : below < rows.length)
    (order : HashOrder String Position) {history : RunHistory} (hrun : history.OfRun rows)
    {params : PnlQuery} (htraded : ∃ row ∈ rows, row.Involves params.account)
    (hsums : ∀ k ∈ pnlSampleIds rows.length (params.points.getD 200),
      SumsWithin params.account (rows.take k)) {answer : List PnlSeries} :
    (t.withWindow rows below).getPnl order history params = .ok answer ↔
      history.Reaches below ∧ answer = [fullReplay rows params] := by
  have hcount : (t.withWindow rows below).tradesTotal = rows.length := h.count
  have hpos : 0 < rows.length := (Nat.zero_le _).trans_lt hbelow
  obtain ⟨hsorted, hids, hlast⟩ := pnlSampleIds_spec hpos (params.points.getD 200)
  have hknown : ¬((t.withWindow rows below).symbolsOf params.account = [] ∨
      (t.withWindow rows below).tradesTotal = 0) := by
    rw [hcount]
    rintro (hnone | hzero)
    · obtain ⟨row, hrow, hinvolves⟩ := htraded
      exact (symbolsOf_eq_nil_iff h params.account).1 hnone row hrow hinvolves
    · exact hpos.ne' hzero
  have hnumbered : Numbered rows := h.numbered
  have hwindow : (rows.drop below).filter (fun trade => trade.tradeId ≤ rows.length) =
      rows.drop below := List.filter_eq_self.2 (fun row hrow => decide_eq_true (by
    have hmem : row ∈ rows.take rows.length := by
      rw [List.take_length]
      exact List.mem_of_mem_drop hrow
    exact hnumbered.le_of_mem_take hmem))
  obtain ⟨hfails, hreads⟩ := replayBelow_spec h hbelow order hrun params.account hsorted hids hsums
  have htrades : (t.withWindow rows below).trades = rows.drop below := rfl
  unfold getPnl
  rw [if_neg hknown]
  simp only [hcount, htrades, hwindow]
  by_cases hreaches : history.Reaches below
  · obtain ⟨before, hok, hstands, hpoints⟩ := hreads hreaches
    obtain ⟨after, hwalk, hafter⟩ := walkLive_spec hnumbered h.onGrid order
      (names_symbolsOf h params.account) hsums rfl hstands
    rw [List.length_drop, hpoints, ← List.map_append,
      samples_split hsorted hids hbelow.le] at hafter
    have hlength : ¬after.points.length ≠
        (pnlSampleIds rows.length (params.points.getD 200)).length := by
      rw [hafter, List.length_map]
      exact not_not.2 rfl
    simp only [hok, hwalk, bind, Except.bind, if_neg hlength, pure, Except.pure, Except.ok.injEq,
      hreaches, true_and]
    rw [hafter, fullReplay]
    exact eq_comm
  · obtain ⟨e, he⟩ := hfails hreaches
    simp [he, hreaches, bind, Except.bind]

/-! ### What a request for positions adds up -/

/-- An account's entry, as a symbol and a position. -/
def holdingOf (e : AccountKey × Position) : String × Position := ((ofLex e.1).2, e.2)

theorem get?_addToAccount (t : Totals) (wanted : SortedMap AccountId Unit) (account : AccountId)
    (accounts : SortedMap AccountId (Int × Int)) (e : AccountKey × Position) :
    (t.addToAccount wanted accounts e).get? account =
      if (ofLex e.1).1 = account ∧ wanted.contains account = true then
        some (t.addHolding (accounts.getD account (0, 0)) (holdingOf e))
      else accounts.get? account := by
  unfold addToAccount
  dsimp only
  by_cases hown : (ofLex e.1).1 = account
  · rw [hown]
    by_cases hwanted : wanted.contains account = true
    · rw [if_pos hwanted, SortedMap.get?_insert_self, if_pos ⟨rfl, hwanted⟩]
      rfl
    · rw [if_neg hwanted, if_neg (fun h => hwanted h.2)]
  · have hkept : ∀ v, (accounts.insert (ofLex e.1).1 v).get? account = accounts.get? account :=
      SortedMap.get?_insert_of_ne _ (fun heq => hown heq.symm)
    rw [if_neg (not_and_of_not_left _ hown), apply_ite (SortedMap.get? · account), hkept, ite_self]

/-- The totals of a wanted account are those of its own entries, added in the order walked. -/
theorem getD_foldl_addToAccount (t : Totals) {wanted : SortedMap AccountId Unit}
    {account : AccountId} (hwanted : wanted.contains account = true)
    (walked : List (AccountKey × Position)) (accounts : SortedMap AccountId (Int × Int)) :
    (walked.foldl (t.addToAccount wanted) accounts).getD account (0, 0) =
      ((walked.filter (fun e => (ofLex e.1).1 = account)).map holdingOf).foldl t.addHolding
        (accounts.getD account (0, 0)) := by
  induction walked generalizing accounts with
  | nil => rfl
  | cons e walked ih =>
      rw [List.foldl_cons, ih, SortedMap.getD, get?_addToAccount]
      by_cases hown : (ofLex e.1).1 = account
      · rw [if_pos ⟨hown, hwanted⟩, List.filter_cons, if_pos (decide_eq_true hown), List.map_cons,
          List.foldl_cons, Option.getD_some]
      · rw [if_neg (fun h => hown h.1), List.filter_cons, if_neg (by simpa using hown)]
        rfl

/-- An account that is not wanted gets no totals. -/
theorem get?_foldl_addToAccount (t : Totals) {wanted : SortedMap AccountId Unit}
    {account : AccountId} (hwanted : ¬wanted.contains account = true)
    (walked : List (AccountKey × Position)) (accounts : SortedMap AccountId (Int × Int)) :
    (walked.foldl (t.addToAccount wanted) accounts).get? account = accounts.get? account := by
  induction walked generalizing accounts with
  | nil => rfl
  | cons e walked ih =>
      rw [List.foldl_cons, ih, get?_addToAccount, if_neg (fun h => hwanted h.2)]

/-- What positions report of an account is its profit after all trades of the run. -/
theorem positions_eq (h : t.Kept rows) (order : HashOrder AccountKey Position)
    {params : PositionsQuery} {view : AccountView} (hview : view ∈ t.getPositions order params)
    (hsums : SumsWithin view.account rows) :
    view.realizedPnl = (pointOf view.account rows).realized ∧
      view.unrealizedPnl = (pointOf view.account rows).unrealized ∧
      view.totalPnl = (pointOf view.account rows).total := by
  obtain ⟨⟨account, sums⟩, hentry, rfl⟩ := List.mem_map.1 hview
  dsimp only at hsums ⊢
  have hget := SortedMap.mem_entries.1 hentry
  generalize hwanted : ((order.walk t.positions).map (fun e => (ofLex e.1).1)).foldl
    (keepLowest params (min (params.n.getD 50) 1000)) .empty = wanted at hget
  have hlisted : wanted.contains account = true := by
    by_contra hnot
    rw [get?_foldl_addToAccount t hnot] at hget
    cases hget
  have hadded := getD_foldl_addToAccount t hlisted (order.walk t.positions) .empty
  rw [SortedMap.getD, hget, Option.getD_some, SortedMap.getD, SortedMap.get?_empty,
    Option.getD_none] at hadded
  -- The account's entries, walked in any order, are what it holds.
  have hperm : (((order.walk t.positions).filter (fun e => (ofLex e.1).1 = account)).map
      holdingOf).Perm ((of rows).holdings account) := by
    rw [← h.replayed]
    exact ((order.perm t.positions).filter _).map _
  have hstep : ∀ e ∈ ((order.walk t.positions).filter (fun e => (ofLex e.1).1 = account)).map
      holdingOf, ∀ sums, t.addHolding sums e = (saturatingAdd sums.1 e.2.realizedMills,
        saturatingAdd sums.2 (e.2.openProfit (lastPrice rows e.1))) := by
    intro e he sums
    obtain ⟨-, -, -, -, hprice, hpos, hopen⟩ :=
      price_of_held h.onGrid hsums (hperm.mem_iff.1 he)
    have hlast : t.lastTradeCents e.1 = some (lastPrice rows e.1) := by
      rw [Totals.lastTradeCents, h.replayed, lastTradeCents_of, hprice, Option.filter_some,
        if_pos (decide_eq_true hpos)]
    rw [addHolding, hlast, Option.map_some, Option.getD_some, hopen]
  rw [foldl_sums hstep, hsums.lockedIn.foldl_saturatingAdd (hperm.map _),
    hsums.notLockedIn.foldl_saturatingAdd (hperm.map _)] at hadded
  subst hadded
  refine ⟨rfl, rfl, ?_⟩
  rw [pointOf]
  exact congrArg millsToF64 (clampI64_eq_self hsums.total)

/-- A request for one account's positions keeps that account and no other. -/
theorem contains_foldl_keepLowest {account : AccountId} :
    ∀ {accounts : List AccountId} {wanted : SortedMap AccountId Unit},
      (wanted = .empty ∨ wanted = SortedMap.empty.insert account ()) →
      (account ∈ accounts ∨ wanted.contains account = true) →
      (accounts.foldl (keepLowest ⟨some account, none, none⟩ 50) wanted).contains account = true
  | [], wanted, _, h => h.resolve_left (by simp)
  | head :: accounts, wanted, hwanted, h => by
      rw [List.foldl_cons]
      by_cases hhead : account = head
      · have hnext : keepLowest ⟨some account, none, none⟩ 50 wanted head =
            SortedMap.empty.insert account () := by
          subst hhead
          have hone : wanted.insert account () = SortedMap.empty.insert account () := by
            refine SortedMap.ext (fun k => ?_)
            rcases hwanted with rfl | rfl
            · rfl
            · simp only [SortedMap.get?_insert]
              split_ifs <;> rfl
          have hsize : ¬50 < (SortedMap.empty.insert account ()).size := by
            show ¬50 < 1
            decide
          unfold keepLowest
          rw [if_neg (by simp), hone]
          exact if_neg hsize
        rw [hnext]
        exact contains_foldl_keepLowest (.inr rfl) (.inr (by simp [SortedMap.contains]))
      · have hnext : keepLowest ⟨some account, none, none⟩ 50 wanted head = wanted := by
          simp [keepLowest, hhead]
        rw [hnext]
        refine contains_foldl_keepLowest hwanted (h.imp_left (fun hmem => ?_))
        exact (List.mem_cons.1 hmem).resolve_left hhead

theorem isSome_foldl_addToAccount (t : Totals) {wanted : SortedMap AccountId Unit}
    {account : AccountId} (hwanted : wanted.contains account = true) :
    ∀ {walked : List (AccountKey × Position)} {accounts : SortedMap AccountId (Int × Int)},
      ((∃ e ∈ walked, (ofLex e.1).1 = account) ∨ (accounts.get? account).isSome = true) →
      ((walked.foldl (t.addToAccount wanted) accounts).get? account).isSome = true
  | [], _, h => h.resolve_left (by simp)
  | e :: walked, accounts, h => by
      rw [List.foldl_cons]
      refine isSome_foldl_addToAccount t hwanted ?_
      rw [get?_addToAccount]
      by_cases hown : (ofLex e.1).1 = account
      · rw [if_pos ⟨hown, hwanted⟩]
        exact .inr rfl
      · rw [if_neg (not_and_of_not_left _ hown)]
        refine h.imp_left ?_
        rintro ⟨f, hf, hfown⟩
        rcases List.mem_cons.1 hf with rfl | hf
        · exact absurd hfown hown
        · exact ⟨f, hf, hfown⟩

theorem exists_view (h : t.Kept rows) (order : HashOrder AccountKey Position)
    {account : AccountId} (htraded : ∃ row ∈ rows, row.Involves account) :
    ∃ view ∈ t.getPositions order ⟨some account, none, none⟩, view.account = account := by
  obtain ⟨row, hrow, hinvolves⟩ := htraded
  have hheld := (isSome_position_iff account rows row.symbol).2 ⟨row, hrow, rfl, hinvolves⟩
  rw [← h.replayed] at hheld
  obtain ⟨p, hp⟩ := SortedMap.contains_iff.1 hheld
  have hwalked : (Ledger.accountKey account row.symbol, p) ∈ order.walk t.positions :=
    (order.perm t.positions).mem_iff.2 (SortedMap.mem_entries.2 hp)
  have hwanted := @contains_foldl_keepLowest account
    ((order.walk t.positions).map (fun e => (ofLex e.1).1)) .empty (.inl rfl)
    (.inl (List.mem_map_of_mem hwalked))
  obtain ⟨sums, hsums⟩ := Option.isSome_iff_exists.1
    (@isSome_foldl_addToAccount t _ _ hwanted (order.walk t.positions) .empty
      (.inl ⟨_, hwalked, rfl⟩))
  exact ⟨_, List.mem_map_of_mem (SortedMap.mem_entries.2 hsums), rfl⟩

/-- What is answered about profit while the trades above `below` are in memory. -/
structure ProfitLaw (t : Totals) (rows : List TradeRow) (below : Nat) : Prop where
  /-- The series of an account that traded, wherever the table reaches the window. -/
  series : ∀ order history params, history.OfRun rows →
    (∃ row ∈ rows, row.Involves params.account) →
    (∀ k ∈ pnlSampleIds rows.length (params.points.getD 200),
      SumsWithin params.account (rows.take k)) →
    ∀ answer, (t.withWindow rows below).getPnl order history params = .ok answer ↔
      history.Reaches below ∧ answer = [fullReplay rows params]
  /-- The last sample is at the newest trade. -/
  newest : ∀ points,
    (pnlSampleIds rows.length points).getLast? = rows.getLast?.map TradeRow.tradeId
  /-- The last sample is what positions report. -/
  positions : ∀ order params, ∀ view ∈ (t.withWindow rows below).getPositions order params,
    SumsWithin view.account rows → ∀ points, ∃ point,
      (fullReplay rows ⟨view.account, points⟩).points.getLast? = some point ∧
      view.realizedPnl = point.realized ∧ view.unrealizedPnl = point.unrealized ∧
      view.totalPnl = point.total
  /-- Positions report every account that traded. -/
  reported : ∀ order account, (∃ row ∈ rows, row.Involves account) →
    ∃ view ∈ (t.withWindow rows below).getPositions order ⟨some account, none, none⟩,
      view.account = account

theorem profitLaw (h : t.Kept rows) (hbelow : below < rows.length) : ProfitLaw t rows below where
  series := fun order history params hrun htraded hsums answer =>
    getPnl_eq_ok_iff h hbelow order hrun htraded hsums
  newest := fun points => by
    have hnumbered : Numbered rows := h.numbered
    rw [(pnlSampleIds_spec ((Nat.zero_le _).trans_lt hbelow) points).2.2]
    obtain ⟨front, row, back, hsplit, hplace, htake⟩ :=
      @exists_split rows rows.length ⟨(Nat.zero_le _).trans_lt hbelow, le_rfl⟩
    rw [List.take_length] at htake
    rw [hplace]
    rw [htake] at hnumbered ⊢
    rw [List.getLast?_concat, Option.map_some, hnumbered.id_of_append]
  positions := fun order params view hview hsums points => by
    have hlast := (pnlSampleIds_spec ((Nat.zero_le _).trans_lt hbelow) (points.getD 200)).2.2
    refine ⟨pointOf view.account rows, ?_, positions_eq h order hview hsums⟩
    rw [fullReplay, List.getLast?_map, hlast, Option.map_some, List.take_length]
  reported := fun order account htraded => exists_view h order htraded

/-- An account that never traded has a series without samples. -/
theorem getPnl_untraded (h : t.Kept rows) (below : Nat) (order : HashOrder String Position)
    (history : RunHistory) {params : PnlQuery}
    (huntraded : ∀ row ∈ rows, ¬row.Involves params.account) :
    (t.withWindow rows below).getPnl order history params = .ok [⟨params.account, []⟩] :=
  if_pos (.inl ((symbolsOf_eq_nil_iff h params.account).2 huntraded))

end Law

namespace MatcherState

variable {env : Primitives} {s : MatcherState}

/-- In every run, each sample of a profit series is the profit after a full replay up to its trade,
wherever the memory window starts, and the last one is what positions report. -/
theorem profits_are_full_replays (hs : Reachable env s) :
    ∃ rows, s.KeepsTrades rows ∧
      s.totals = s.totals.withWindow rows (rows.length - tradeWindow) ∧
      (∀ snapshot restored, restore env snapshot rows = .ok restored →
        restored.totals = s.totals) ∧
      (∀ below order history params, (∀ row ∈ rows, ¬row.Involves params.account) →
        (s.totals.withWindow rows below).getPnl order history params =
          .ok [⟨params.account, []⟩]) ∧
      ∀ below < rows.length, ProfitLaw s.totals rows below := by
  obtain ⟨rows, hrows⟩ := hs.keepsTrades
  refine ⟨rows, hrows, ?_, ?_, ?_, ?_⟩
  · have htrades : s.totals.trades = newest tradeWindow rows := by
      rw [hrows.kept.replayed, trades_of]
    rw [Totals.withWindow, ← newest, ← htrades]
  · intro snapshot restored hrestored
    rw [totals_of_restore hrestored, hrows.kept.replayed]
  · intro below order history params huntraded
    exact getPnl_untraded hrows.kept below order history huntraded
  · intro below hbelow
    exact profitLaw hrows.kept hbelow

namespace Sample

/-- The engine after one trade between two accounts. -/
def tradedState : MatcherState :=
  (ruledState.apply ruledEnv (.new takingOrder) (some taking.2)).toOption.getD .new

theorem tradedState_values :
    tradedState.totals.tradesTotal = 1 ∧ tradedState.totals.symbolsOf 77 = [] := by
  decide +kernel

theorem reachable_tradedState : Reachable ruledEnv tradedState :=
  .applied reachable_ruledState (eq_ok_getD ruledState_values.2.2.2.2.2.2)

end Sample

/-- After the first trade, a third account's series has no sample, and the sampled ids would be
that one trade. -/
theorem untraded_has_no_samples :
    Reachable Sample.ruledEnv Sample.tradedState ∧
      Sample.tradedState.totals.getPnl .ofKeys ⟨none, none⟩ ⟨77, none⟩ = .ok [⟨77, []⟩] ∧
      pnlSampleIds Sample.tradedState.totals.tradesTotal 200 = [1] := by
  obtain ⟨htotal, hsymbols⟩ := Sample.tradedState_values
  refine ⟨Sample.reachable_tradedState, ?_, ?_⟩
  · unfold getPnl
    rw [if_pos (.inl hsymbols)]
    rfl
  · rw [htotal]
    simp [pnlSampleIds, sampleIdsFrom, u64Max]

theorem profits_are_full_replays_sample :
    ∃ rows, Sample.tradedState.KeepsTrades rows ∧ rows.length = 1 ∧
      ProfitLaw Sample.tradedState.totals rows 0 := by
  obtain ⟨rows, hrows, -, -, -, hlaw⟩ := profits_are_full_replays Sample.reachable_tradedState
  have hlength : rows.length = 1 := hrows.kept.count.symm.trans Sample.tradedState_values.1
  exact ⟨rows, hrows, hlength, hlaw 0 (by omega)⟩

end MatcherState

end Matcher
end VerifiableExchange
