import VerifiableExchange.Poller.Pnl

/-!
# PnlReads — what the reads behind a profit series answer

The trades of a run are numbered from one without a gap, so a read up to an id is a read of the
first trades. A page of one account's trades is the first of the trades it is in, whichever side it
is on.
-/

namespace VerifiableExchange
namespace Matcher

open Lib

/-! ## Trades numbered from one -/

/-- Trades numbered from one without a gap. -/
def Numbered (rows : List TradeRow) : Prop :=
  rows.map TradeRow.tradeId = List.range' 1 rows.length

namespace Numbered

variable {rows : List TradeRow}

theorem tradeId_eq (h : Numbered rows) {i : Nat} {row : TradeRow} (hi : rows[i]? = some row) :
    row.tradeId = i + 1 := by
  obtain ⟨hlt, -⟩ := List.getElem?_eq_some_iff.1 hi
  have hid : (rows.map TradeRow.tradeId)[i]? = (List.range' 1 rows.length)[i]? := by rw [h]
  rw [List.getElem?_map, hi, List.getElem?_range' hlt, Option.map_some, Option.some.injEq] at hid
  omega

theorem take (h : Numbered rows) (k : Nat) : Numbered (rows.take k) := by
  rw [Numbered, List.map_take, h, List.length_take]
  rcases le_total rows.length k with hle | hle
  · rw [List.take_range'_of_length_le hle, min_eq_right hle]
  · rw [List.take_range'_of_length_ge hle, min_eq_left hle]

theorem id_of_append {front back : List TradeRow} {row : TradeRow}
    (h : Numbered (front ++ row :: back)) : row.tradeId = front.length + 1 :=
  h.tradeId_eq (by simp)

theorem le_of_mem_take (h : Numbered rows) {k : Nat} {row : TradeRow} (hrow : row ∈ rows.take k) :
    row.tradeId ≤ k := by
  obtain ⟨i, hi, rfl⟩ := List.mem_take_iff_getElem.1 hrow
  rw [h.tradeId_eq (List.getElem?_eq_getElem (hi.trans_le (min_le_right _ _)))]
  exact Nat.succ_le_of_lt (hi.trans_le (min_le_left _ _))

theorem lt_of_mem_drop (h : Numbered rows) {k : Nat} {row : TradeRow} (hrow : row ∈ rows.drop k) :
    k < row.tradeId := by
  obtain ⟨i, hi, rfl⟩ := List.mem_drop_iff_getElem.1 hrow
  rw [h.tradeId_eq (List.getElem?_eq_getElem (by omega : k + i < rows.length))]
  omega

theorem filter_le (h : Numbered rows) (k : Nat) :
    rows.filter (fun row => row.tradeId ≤ k) = rows.take k := by
  have hfront : (rows.take k).filter (fun row => row.tradeId ≤ k) = rows.take k :=
    List.filter_eq_self.2 (fun row hrow => decide_eq_true (h.le_of_mem_take hrow))
  have hback : (rows.drop k).filter (fun row => row.tradeId ≤ k) = [] :=
    List.filter_eq_nil_iff.2 (fun row hrow => by simpa using h.lt_of_mem_drop hrow)
  calc
    rows.filter (fun row => row.tradeId ≤ k) =
        (rows.take k ++ rows.drop k).filter (fun row => row.tradeId ≤ k) := by
      rw [List.take_append_drop]
    _ = rows.take k := by rw [List.filter_append, hfront, hback, List.append_nil]

theorem filter_gt (h : Numbered rows) (k : Nat) :
    rows.filter (fun row => k < row.tradeId) = rows.drop k := by
  have hfront : (rows.take k).filter (fun row => k < row.tradeId) = [] :=
    List.filter_eq_nil_iff.2 (fun row hrow => by simpa using h.le_of_mem_take hrow)
  have hback : (rows.drop k).filter (fun row => k < row.tradeId) = rows.drop k :=
    List.filter_eq_self.2 (fun row hrow => decide_eq_true (h.lt_of_mem_drop hrow))
  calc
    rows.filter (fun row => k < row.tradeId) =
        (rows.take k ++ rows.drop k).filter (fun row => k < row.tradeId) := by
      rw [List.take_append_drop]
    _ = rows.drop k := by rw [List.filter_append, hfront, hback, List.nil_append]

/-- The rows above one id, up to another. -/
theorem filter_between (h : Numbered rows) (after through : Nat) (p : TradeRow → Bool) :
    rows.filter (fun row => p row ∧ after < row.tradeId ∧ row.tradeId ≤ through) =
      ((rows.take through).drop after).filter p := by
  rw [← (h.take through).filter_gt, ← h.filter_le, List.filter_filter, List.filter_filter]
  simp only [Bool.decide_and, Bool.decide_eq_true, Bool.and_assoc]

end Numbered

/-! ## What the reads answer -/

/-- The account is on one side of the trade, or on both. -/
def TradeRow.Involves (row : TradeRow) (account : AccountId) : Prop :=
  row.makerAccount = account ∨ row.takerAccount = account

instance (row : TradeRow) (account : AccountId) : Decidable (row.Involves account) :=
  inferInstanceAs (Decidable (_ ∨ _))

/-- What a limited read of some rows finds among the first of them, it finds under a narrower
filter too. -/
theorem mem_take_filter {α : Type} {p : α → Bool} {rows : List α} {limit : Nat} {a : α}
    (ha : a ∈ rows.take limit) (hp : p a = true) : a ∈ (rows.filter p).take limit := by
  have hsplit : rows.filter p = (rows.take limit).filter p ++ (rows.drop limit).filter p := by
    rw [← List.filter_append, List.take_append_drop]
  have hlength : ((rows.take limit).filter p).length ≤ limit :=
    (List.length_filter_le _ _).trans (List.length_take_le _ _)
  rw [hsplit, List.take_append, List.take_of_length_le hlength]
  exact List.mem_append_left _ (List.mem_filter.2 ⟨ha, hp⟩)

/-- A limit cuts the same rows off before a filter as after it, where it keeps the first ones. -/
theorem take_filter_of_forall {α : Type} {p : α → Bool} {rows : List α} {limit : Nat}
    (h : ∀ a ∈ rows.take limit, p a = true) : (rows.filter p).take limit = rows.take limit := by
  have hsplit : rows.filter p = rows.take limit ++ (rows.drop limit).filter p := by
    rw [← List.filter_eq_self.2 h, ← List.filter_append, List.take_append_drop]
  rw [hsplit, List.take_append, List.take_take, min_self, List.length_take]
  rcases le_total limit rows.length with hle | hle
  · rw [min_eq_left hle, Nat.sub_self, List.take_zero, List.append_nil]
  · rw [List.drop_eq_nil_of_le hle, List.filter_nil, List.take_nil, List.append_nil]

namespace StoredTrades

variable {rows : StoredTrades}

theorem newestTradeId_eq (h : Numbered rows) : rows.newestTradeId = rows.length := by
  rw [newestTradeId, h]
  generalize rows.length = n
  induction n with
  | zero => rfl
  | succ n ih =>
      rw [List.range'_concat, List.foldl_append, ih]
      simp only [List.foldl_cons, List.foldl_nil]
      omega

theorem tradeTimestamp_of {front back : List TradeRow} {row : TradeRow}
    (h : Numbered (front ++ row :: back)) :
    tradeTimestamp (front ++ row :: back) (front.length + 1) = some row.timestamp := by
  have hfront : front.find? (fun r => r.tradeId = front.length + 1) = none := by
    refine List.find?_eq_none.2 (fun r hr => ?_)
    have hle := h.le_of_mem_take (show r ∈ (front ++ row :: back).take front.length by
      simpa using hr)
    simpa using (by omega : r.tradeId ≠ front.length + 1)
  have hrow : (row :: back).find? (fun r => r.tradeId = front.length + 1) = some row :=
    List.find?_cons_of_pos (decide_eq_true h.id_of_append)
  rw [tradeTimestamp, List.find?_append, hfront, Option.none_or, hrow, Option.map_some]

theorem lastPriceAt_eq (h : Numbered rows) (symbol : String) (k : Nat) :
    rows.lastPriceAt symbol k = Totals.newestPrice (rows.take k) symbol := by
  rw [lastPriceAt, Totals.newestPrice, ← h.filter_le, List.filter_filter]
  simp only [Bool.decide_and]

/-- A page of an account's trades is the first of the rows it is in: each of those is among the
first of its side. -/
theorem accountTradesBetween_eq (h : Numbered rows) (account : AccountId)
    (after through limit : Nat) :
    rows.accountTradesBetween account after through limit =
      (((rows.take through).drop after).filter (fun row => row.Involves account)).take limit := by
  have hmade := h.filter_between after through (fun row => row.makerAccount = account)
  have htaken := h.filter_between after through (fun row => row.takerAccount = account)
  simp only [decide_eq_true_eq] at hmade htaken
  simp only [accountTradesBetween, hmade, htaken]
  generalize hmiddle : (rows.take through).drop after = middle
  set made := (middle.filter (fun row => row.makerAccount = account)).take limit
  set taken := (middle.filter (fun row => row.takerAccount = account)).take limit
  have hfound : ∀ row, row ∈ made ∨ row ∈ taken → row ∈ middle ∧ row.Involves account := by
    rintro row (hrow | hrow)
    · obtain ⟨hmem, hmaker⟩ := List.mem_filter.1 (List.mem_of_mem_take hrow)
      exact ⟨hmem, .inl (of_decide_eq_true hmaker)⟩
    · obtain ⟨hmem, htaker⟩ := List.mem_filter.1 (List.mem_of_mem_take hrow)
      exact ⟨hmem, .inr (of_decide_eq_true htaker)⟩
  have hrows : rows.filter (fun row => row ∈ made ∨ row ∈ taken) =
      (middle.filter (fun row => row.Involves account)).filter
        (fun row => row ∈ made ∨ row ∈ taken) := by
    have hbetween := h.filter_between after through (fun row => row ∈ made ∨ row ∈ taken)
    rw [hmiddle] at hbetween
    rw [List.filter_filter]
    calc
      _ = rows.filter (fun row => (decide (row ∈ made ∨ row ∈ taken) = true) ∧
            after < row.tradeId ∧ row.tradeId ≤ through) := by
          refine List.filter_congr (fun row _ => ?_)
          refine decide_eq_decide.2 ⟨fun hrow => ⟨decide_eq_true hrow, ?_⟩,
            fun hrow => of_decide_eq_true hrow.1⟩
          have hmem := (hfound row hrow).1
          rw [← hmiddle] at hmem
          exact ⟨(h.take through).lt_of_mem_drop hmem,
            h.le_of_mem_take (List.mem_of_mem_drop hmem)⟩
      _ = middle.filter (fun row => row ∈ made ∨ row ∈ taken) := hbetween
      _ = _ := by
          refine List.filter_congr (fun row _ => ?_)
          by_cases hrow : row ∈ made ∨ row ∈ taken
          · simp [hrow, (hfound row hrow).2]
          · simp [hrow]
  rw [hrows]
  refine take_filter_of_forall (fun row hrow => decide_eq_true ?_)
  -- A row on the account's page is on the page of the side the account is on.
  have hinvolves := of_decide_eq_true (List.mem_filter.1 (List.mem_of_mem_take hrow)).2
  have hside : ∀ side : TradeRow → Prop, ∀ [DecidablePred side],
      (∀ r, side r → r.Involves account) → side row →
        row ∈ (middle.filter (fun r => side r)).take limit := by
    intro side _ himplies hrowSide
    have hnarrow : (middle.filter (fun r => r.Involves account)).filter (fun r => side r) =
        middle.filter (fun r => side r) := by
      rw [List.filter_filter]
      refine List.filter_congr (fun r _ => ?_)
      by_cases hr : side r
      · simp [hr, himplies r hr]
      · simp [hr]
    rw [← hnarrow]
    exact mem_take_filter hrow (decide_eq_true hrowSide)
  rcases hinvolves with hmaker | htaker
  · exact .inl (hside (fun r => r.makerAccount = account) (fun _ => .inl) hmaker)
  · exact .inr (hside (fun r => r.takerAccount = account) (fun _ => .inr) htaker)

end StoredTrades

end Matcher
end VerifiableExchange
