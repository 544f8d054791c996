import VerifiableExchange.Poller.PnlReplay

/-!
# PnlSamples — the samples below the memory window and inside it

Below the window each sample is taken after the account's rows up to it are booked and the marks are
read back from the table. Inside the window every trade sets its symbol's mark. Both ways a sample
is the account's profit after the trades up to it.
-/

namespace VerifiableExchange
namespace Matcher

open Lib AccountPnlReplay Totals

/-! ## Below the memory window -/

section Stored

variable {account : AccountId} {rows : StoredTrades} {replay : AccountPnlReplay}
  {symbols : List String}

/-- The replay stands at these trades, and its marks are their last prices. -/
structure Stands (account : AccountId) (symbols : List String) (rows : List TradeRow)
    (replay : AccountPnlReplay) : Prop where
  booked : Booked account rows replay
  marked : ∀ symbol ∈ symbols, replay.last.get? symbol = newestPrice rows symbol

/-- The symbols name all the account traded. -/
def Names (symbols : List String) (account : AccountId) (rows : List TradeRow) : Prop :=
  ∀ row ∈ rows, row.Involves account → row.symbol ∈ symbols

theorem Stands.isMarked (h : Stands account symbols rows replay)
    (hnames : Names symbols account rows) : Marked account rows replay.last :=
  fun row hrow hinvolves => h.marked row.symbol (hnames row hrow hinvolves)

theorem newestPrice_pos (hgrid : ∀ row ∈ rows, row.OnGrid) {symbol : String} {price : Int}
    (h : newestPrice rows symbol = some price) : 0 < price := by
  obtain ⟨last, hlast, rfl⟩ := Option.map_eq_some_iff.1 h
  exact (hgrid last (List.mem_of_mem_filter (List.mem_of_getLast? hlast))).price.1

theorem get?_setMark (replay : AccountPnlReplay) (symbol other : String) (price : Option Int) :
    (replay.setMark symbol price).last.get? other =
      if other = symbol then price.filter (0 < ·) else replay.last.get? other := by
  unfold setMark
  cases price.filter (0 < ·) with
  | none => exact SortedMap.get?_erase _ _ _
  | some price => exact SortedMap.get?_insert _ _ _ _

/-- What a replay keeps while only marks change. -/
structure SameHoldings (before after : AccountPnlReplay) : Prop where
  account : after.account = before.account
  positions : after.positions = before.positions
  points : after.points = before.points

theorem setMark_sameHoldings (replay : AccountPnlReplay) (symbol : String) (price : Option Int) :
    SameHoldings replay (replay.setMark symbol price) := by
  unfold setMark
  cases price.filter (0 < ·) with
  | none => exact ⟨rfl, rfl, rfl⟩
  | some price => exact ⟨rfl, rfl, rfl⟩

theorem setPnlMarks_sameHoldings (rows : StoredTrades) (symbols : List String) (k : Nat)
    (replay : AccountPnlReplay) : SameHoldings replay (setPnlMarks rows replay symbols k) := by
  induction symbols generalizing replay with
  | nil => exact ⟨rfl, rfl, rfl⟩
  | cons head symbols ih =>
      have hhead := setMark_sameHoldings replay head (rows.lastPriceAt head k)
      have hrest := ih (replay.setMark head (rows.lastPriceAt head k))
      exact ⟨hrest.account.trans hhead.account, hrest.positions.trans hhead.positions,
        hrest.points.trans hhead.points⟩

theorem AccountPnlReplay.Holds.of_sameHoldings {positions : SortedMap AccountKey Position}
    {before after : AccountPnlReplay} (h : Holds account positions before)
    (hsame : SameHoldings before after) : Holds account positions after := by
  refine ⟨hsame.account.trans h.owner, fun symbol => ?_⟩
  rw [hsame.positions, h.positions symbol]

/-- The marks set at one trade are the last prices up to it. -/
theorem get?_setPnlMarks (hrows : Numbered rows) (hgrid : ∀ row ∈ rows, row.OnGrid) (k : Nat)
    (symbols : List String) (replay : AccountPnlReplay) (symbol : String) :
    (setPnlMarks rows replay symbols k).last.get? symbol =
      if symbol ∈ symbols then newestPrice (rows.take k) symbol else replay.last.get? symbol := by
  induction symbols generalizing replay with
  | nil => rfl
  | cons head symbols ih =>
      have hprice : (rows.lastPriceAt head k).filter (0 < ·) = newestPrice (rows.take k) head := by
        rw [StoredTrades.lastPriceAt_eq hrows]
        cases hnewest : newestPrice (rows.take k) head with
        | none => rfl
        | some price =>
            have hpos := newestPrice_pos (fun row hrow => hgrid row (List.mem_of_mem_take hrow))
              hnewest
            rw [Option.filter_some, if_pos (decide_eq_true hpos)]
      have hrest := ih (replay.setMark head (rows.lastPriceAt head k))
      rw [get?_setMark, hprice] at hrest
      refine hrest.trans ?_
      by_cases hmem : symbol ∈ symbols
      · rw [if_pos hmem, if_pos (List.mem_cons_of_mem _ hmem)]
      · by_cases hhead : symbol = head
        · rw [if_neg hmem, if_pos hhead, hhead, if_pos List.mem_cons_self]
        · rw [if_neg hmem, if_neg hhead, if_neg (by simp [hhead, hmem])]

theorem stands_setPnlMarks (hrows : Numbered rows) (hgrid : ∀ row ∈ rows, row.OnGrid) {k : Nat}
    (h : Booked account (rows.take k) replay) :
    Stands account symbols (rows.take k) (setPnlMarks rows replay symbols k) where
  booked := h.of_sameHoldings (setPnlMarks_sameHoldings rows symbols k replay)
  marked := fun symbol hsymbol => by
    rw [get?_setPnlMarks hrows hgrid, if_pos hsymbol]

/-- The place of one trade among the stored ones. -/
theorem exists_split {rows : List TradeRow} {k : Nat} (hk : 0 < k ∧ k ≤ rows.length) :
    ∃ front row back, rows = front ++ row :: back ∧ k = front.length + 1 ∧
      rows.take k = front ++ [row] := by
  obtain ⟨k, rfl⟩ : ∃ j, k = j + 1 := ⟨k - 1, by omega⟩
  have hlt : k < rows.length := hk.2
  refine ⟨rows.take k, rows[k], rows.drop (k + 1), ?_, ?_, ?_⟩
  · rw [← List.drop_eq_getElem_cons hlt, List.take_append_drop]
  · rw [List.length_take_of_le hlt.le]
  · rw [List.take_concat_get' _ _ hlt]

/-- One sample below the window. -/
theorem sampleStored_spec (hrows : Numbered rows) (hgrid : ∀ row ∈ rows, row.OnGrid)
    (order : HashOrder String Position) (runId : Int) {cursor k : Nat} (hcursor : cursor ≤ k)
    (hk : 0 < k ∧ k ≤ rows.length) (h : Booked account (rows.take cursor) replay)
    (hnames : Names symbols account (rows.take k)) (hsums : SumsWithin account (rows.take k)) :
    ∃ after reached, sampleStored order runId rows symbols (replay, cursor) k =
        .ok (after, reached) ∧ reached ≤ k ∧ Booked account (rows.take reached) after ∧
      after.points = replay.points ++ [pointOf account (rows.take k)] := by
  obtain ⟨before, reached, hok, hreached, hat, hthrough, hview⟩ :=
    applyAccountUntil_spec hrows hk.2 hcursor h
  have hstands := @stands_setPnlMarks account rows before symbols hrows hgrid k hthrough
  have hsame := setPnlMarks_sameHoldings rows symbols k before
  obtain ⟨front, row, back, hsplit, hplace, htake⟩ := exists_split hk
  have htime : rows.tradeTimestamp k = some row.timestamp := by
    rw [hsplit] at hrows ⊢
    rw [hplace]
    exact StoredTrades.tradeTimestamp_of hrows
  have hlast : (rows.take k).getLast?.map TradeRow.timestamp = some row.timestamp := by
    rw [htake, List.getLast?_concat, Option.map_some]
  have hsample := sample_eq hstands.booked
    (fun row hrow => hgrid row (List.mem_of_mem_take hrow)) (hstands.isMarked hnames) hsums order
    hlast
  have hheld := hat.of_sameHoldings hsame
  refine ⟨{ setPnlMarks rows before symbols k with
    points := (setPnlMarks rows before symbols k).points ++ [pointOf account (rows.take k)] },
    reached, ?_, hreached, ⟨hheld.owner, hheld.positions⟩,
    congrArg (· ++ _) (hsame.points.trans hview.points)⟩
  simp only [sampleStored, hok, htime, hsample, bind, Except.bind]

/-- The samples below the window, one after the other. -/
theorem samplesStored_spec (hrows : Numbered rows) (hgrid : ∀ row ∈ rows, row.OnGrid)
    (order : HashOrder String Position) (runId : Int) {bound : Nat}
    (hnames : Names symbols account (rows.take bound)) :
    ∀ {ids : List Nat} {cursor : Nat} {replay : AccountPnlReplay},
      ids.Pairwise (· < ·) → (∀ k ∈ ids, 0 < k ∧ k ≤ rows.length ∧ k ≤ bound ∧ cursor ≤ k) →
      (∀ k ∈ ids, SumsWithin account (rows.take k)) → cursor ≤ bound →
      Booked account (rows.take cursor) replay →
      ∃ after reached, ids.foldlM (sampleStored order runId rows symbols) (replay, cursor) =
          .ok (after, reached) ∧ reached ≤ bound ∧ Booked account (rows.take reached) after ∧
        after.points = replay.points ++ ids.map (fun k => pointOf account (rows.take k))
  | [], cursor, replay, _, _, _, hcursor, h =>
      ⟨replay, cursor, rfl, hcursor, h, (List.append_nil _).symm⟩
  | k :: ids, cursor, replay, hsorted, hwithin, hsums, hcursor, h => by
      obtain ⟨hfirst, hrest⟩ := List.pairwise_cons.1 hsorted
      obtain ⟨⟨hpos, hlength, hbound, hle⟩, hlater⟩ := List.forall_mem_cons.1 hwithin
      obtain ⟨hsum, hsums⟩ := List.forall_mem_cons.1 hsums
      have hnamesK : Names symbols account (rows.take k) := fun row hrow =>
        hnames row ((List.take_subset_take_left rows hbound) hrow)
      obtain ⟨next, reached, hok, hreached, hat, hpoints⟩ :=
        sampleStored_spec hrows hgrid order runId hle ⟨hpos, hlength⟩ h hnamesK hsum
      obtain ⟨after, last, hok', hlast, hat', hpoints'⟩ :=
        samplesStored_spec hrows hgrid order runId hnames hrest
          (fun j hj => ⟨(hlater j hj).1, (hlater j hj).2.1, (hlater j hj).2.2.1,
            hreached.trans (hfirst j hj).le⟩) hsums (hreached.trans hbound) hat
      refine ⟨after, last, ?_, hlast, hat', ?_⟩
      · rw [List.foldlM_cons, hok]
        exact hok'
      · rw [hpoints', hpoints, List.append_assoc]
        rfl

theorem booked_new (account : AccountId) (rows : List TradeRow) :
    Booked account (rows.take 0) (.new account) := ⟨rfl, fun _ => rfl⟩

/-- The part of a series below the window, where the table reaches the window. -/
theorem replayStored_spec (hrows : Numbered rows) (hgrid : ∀ row ∈ rows, row.OnGrid)
    (order : HashOrder String Position) (runId : Int) {below : Nat} (hbelow : below ≤ rows.length)
    (hnames : Names symbols account (rows.take below)) {ids : List Nat}
    (hsorted : ids.Pairwise (· < ·)) (hids : ∀ k ∈ ids, 0 < k ∧ k ≤ below)
    (hsums : ∀ k ∈ ids, SumsWithin account (rows.take k)) :
    ∃ after, replayStored order runId rows account symbols (below + 1) ids = .ok after ∧
      Stands account symbols (rows.take below) after ∧
      after.points = ids.map (fun k => pointOf account (rows.take k)) := by
  obtain ⟨sampled, cursor, hok, hcursor, hat, hpoints⟩ :=
    samplesStored_spec hrows hgrid order runId hnames hsorted
      (fun k hk => ⟨(hids k hk).1, (hids k hk).2.trans hbelow, (hids k hk).2, Nat.zero_le k⟩)
      hsums (Nat.zero_le below) (booked_new account rows)
  obtain ⟨reached, last, hok', -, -, hthrough, hview⟩ :=
    applyAccountUntil_spec hrows hbelow hcursor hat
  refine ⟨setPnlMarks rows reached symbols below, ?_, stands_setPnlMarks hrows hgrid hthrough, ?_⟩
  · have hdurable : ¬rows.newestTradeId < below := by
      rw [StoredTrades.newestTradeId_eq hrows]
      exact not_lt.2 hbelow
    simp only [replayStored, Nat.add_sub_cancel, if_neg hdurable, hok, hok', bind, Except.bind,
      pure, Except.pure]
  · exact (setPnlMarks_sameHoldings rows symbols below reached).points.trans
      (hview.points.trans hpoints)

end Stored

/-! ## The memory window -/

theorem inUnits_eq_quotient {units : Int} {scale : Nat}
    (hunits : 0 < units ∧ units ≤ maxGridUnits) :
    inUnits units scale = F64.quotient units scale := by
  obtain ⟨n, rfl⟩ := Int.eq_ofNat_of_zero_le hunits.1.le
  have hsmall : n < 9007199254740992 := by
    have hmax := hunits.2
    unfold maxGridUnits at hmax
    omega
  have hexact : (F64.ofRat ((n : Int) : Rat)).toRat? = some (n : Rat) :=
    F64.toRat?_ofRat_natCast hsmall
  rw [inUnits, hexact, Option.map_some, Option.getD_some, F64.quotient]
  rfl

section Live

variable {account : AccountId} {rows : List TradeRow} {replay : AccountPnlReplay}
  {symbols : List String} {row : TradeRow}

theorem applyLiveTrade_eq (h : row.OnGrid) (replay : AccountPnlReplay) :
    replay.applyLiveTrade row =
      .ok ({ replay with last := replay.last.insert row.symbol row.priceCents }.applyRow row) := by
  have hprice : toGrid (centsToF64 row.priceCents) 100 = some row.priceCents := by
    rw [centsToF64, inUnits_eq_quotient h.price]
    exact Inbox.toGrid_quotient (by decide) (by decide) h.price
  have hquantity : toGrid (tenthsToF64 row.qtyTenths) 10 = some row.qtyTenths := by
    rw [tenthsToF64, inUnits_eq_quotient h.quantity]
    exact Inbox.toGrid_quotient (by decide) (by decide) h.quantity
  rw [applyLiveTrade, hprice, hquantity]
  rfl

theorem Stands.live (h : Stands account symbols rows replay) (row : TradeRow) :
    Stands account symbols (rows ++ [row])
      ({ replay with last := replay.last.insert row.symbol row.priceCents }.applyRow row) where
  booked := by
    refine Booked.applyRow ?_ row
    exact ⟨h.booked.owner, h.booked.positions⟩
  marked := fun symbol hsymbol => by
    rw [(applyRow_sameView _ row).last, newestPrice_concat, SortedMap.get?_insert]
    by_cases heq : row.symbol = symbol
    · rw [if_pos heq.symm, if_pos heq]
    · rw [if_neg (fun h => heq h.symm), if_neg heq, h.marked symbol hsymbol]

/-- One trade of the window, sampled where the run stands after it. -/
theorem walkLive_step (hgrid : ∀ r ∈ rows ++ [row], r.OnGrid)
    (order : HashOrder String Position) (hnames : Names symbols account (rows ++ [row]))
    {wanted : List Nat} (hsums : row.tradeId ∈ wanted → SumsWithin account (rows ++ [row]))
    (h : Stands account symbols rows replay) :
    ∃ next, walkLive order wanted replay row = .ok next ∧
      Stands account symbols (rows ++ [row]) next ∧
      next.points = replay.points ++
        if row.tradeId ∈ wanted then [pointOf account (rows ++ [row])] else [] := by
  have hmem : row ∈ rows ++ [row] := List.mem_append_right _ (List.mem_singleton_self row)
  have hstands := h.live row
  have hpoints := (applyRow_sameView
    { replay with last := replay.last.insert row.symbol row.priceCents } row).points
  unfold walkLive
  rw [applyLiveTrade_eq (hgrid row hmem)]
  by_cases hwanted : row.tradeId ∈ wanted
  · have htime : (rows ++ [row]).getLast?.map TradeRow.timestamp = some row.timestamp := by
      rw [List.getLast?_concat, Option.map_some]
    have hsample := sample_eq hstands.booked hgrid (hstands.isMarked hnames) (hsums hwanted) order
      htime
    refine ⟨_, congrArg Except.ok ((if_pos hwanted).trans hsample),
      ⟨⟨hstands.booked.owner, hstands.booked.positions⟩, hstands.marked⟩, ?_⟩
    rw [if_pos hwanted]
    exact congrArg (· ++ _) hpoints
  · refine ⟨_, congrArg Except.ok (if_neg hwanted), hstands, ?_⟩
    rw [if_neg hwanted, List.append_nil]
    exact hpoints

/-- The walk through the window samples the wanted trades, each where the run stood then. -/
theorem walkLive_spec (hrows : Numbered rows) (hgrid : ∀ row ∈ rows, row.OnGrid)
    (order : HashOrder String Position) (hnames : Names symbols account rows) {wanted : List Nat}
    (hsums : ∀ k ∈ wanted, SumsWithin account (rows.take k)) :
    ∀ {window : List TradeRow} {done : Nat} {replay : AccountPnlReplay},
      rows.drop done = window → Stands account symbols (rows.take done) replay →
      ∃ after, window.foldlM (walkLive order wanted) replay = .ok after ∧
        after.points = replay.points ++
          ((List.range' (done + 1) window.length).filter (· ∈ wanted)).map
            (fun k => pointOf account (rows.take k))
  | [], done, replay, _, _ => ⟨replay, rfl, (List.append_nil _).symm⟩
  | row :: window, done, replay, hdrop, h => by
      have hlt : done < rows.length := by
        by_contra hge
        rw [List.drop_eq_nil_of_le (not_lt.1 hge)] at hdrop
        cases hdrop
      have hrow : rows[done] = row ∧ rows.drop (done + 1) = window := by
        rw [List.drop_eq_getElem_cons hlt] at hdrop
        exact List.cons_eq_cons.1 hdrop
      have hid : row.tradeId = done + 1 :=
        hrows.tradeId_eq (List.getElem?_eq_some_iff.2 ⟨hlt, hrow.1⟩)
      have htake : rows.take (done + 1) = rows.take done ++ [row] := by
        rw [← hrow.1, List.take_append_getElem hlt]
      have hsub : ∀ r ∈ rows.take done ++ [row], r ∈ rows := fun r hr =>
        List.mem_of_mem_take (htake ▸ hr)
      obtain ⟨next, hok, hstands, hpoints⟩ := walkLive_step (fun r hr => hgrid r (hsub r hr)) order
        (fun r hr => hnames r (hsub r hr))
        (fun hwanted => htake ▸ hsums (done + 1) (hid ▸ hwanted)) h
      rw [← htake] at hstands hpoints
      obtain ⟨after, hok', hpoints'⟩ := walkLive_spec hrows hgrid order hnames hsums hrow.2 hstands
      refine ⟨after, ?_, ?_⟩
      · rw [List.foldlM_cons, hok]
        exact hok'
      · rw [hpoints', hpoints, List.append_assoc, List.length_cons, List.range'_succ,
          List.filter_cons, hid]
        by_cases hwanted : done + 1 ∈ wanted
        · rw [if_pos hwanted, if_pos (decide_eq_true hwanted)]
          rfl
        · rw [if_neg hwanted, if_neg (by simpa using hwanted)]
          rfl

end Live

end Matcher
end VerifiableExchange
