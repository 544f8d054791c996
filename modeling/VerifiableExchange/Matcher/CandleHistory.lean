import VerifiableExchange.Lib.Float64Round
import VerifiableExchange.Lib.Window
import VerifiableExchange.Matcher.Candles

/-!
# CandleHistory — the chart of a complete list of trades

A chart is defined on all trades of a symbol: one candle for each bucket from the first trade to the
last, and a bucket without a trade stands at the close before it. The window that is kept trade by
trade is the end of that chart, as long as no trade of a symbol is older than the one before it.
-/

namespace VerifiableExchange
namespace Matcher

open Lib

/-! ## What a request for candles answers -/

/-- An amount in whole units of `1 / scale`, as the API shows it. -/
def inUnits (amount : Int) (scale : Nat) : F64 :=
  ((F64.ofRat amount).toRat?.map (fun exact => F64.ofRat (exact / scale))).getD (F64.ofRat amount)

def centsToF64 (cents : Int) : F64 := inUnits cents 100

def tenthsToF64 (tenths : Int) : F64 := inUnits tenths 10

/-- One candle of an answer. -/
structure Candle where
  start : Nat
  openPrice : F64
  high : F64
  low : F64
  close : F64
  volume : F64
  trades : Nat
  deriving DecidableEq

def CandleBucket.view (bucket : CandleBucket) : Candle where
  start := bucket.start
  openPrice := centsToF64 bucket.openCents
  high := centsToF64 bucket.highCents
  low := centsToF64 bucket.lowCents
  close := centsToF64 bucket.closeCents
  volume := tenthsToF64 bucket.volumeTenths
  trades := bucket.trades

def CandleWindow.newest (rows : CandleWindow) (n : Nat) : List Candle :=
  (rows.drop (rows.length - n)).map CandleBucket.view

/-- The newest candles of one symbol and interval; `none` when the view or the interval is not
kept. -/
def CandleCache.newest (cache : CandleCache) (symbol : String) (interval n : Nat) :
    Option (List Candle) :=
  if cache.valid = false then none
  else if interval ∈ candleIntervals then
    match cache.symbols.get? symbol with
    | none => some []
    | some candles =>
        some (CandleWindow.newest (candles.windows.getD (candleIntervals.idxOf interval) []) n)
  else none

/-! ## The chart of all trades -/

namespace Chart

/-- The start of the bucket a trade falls in. -/
def bucketOf (intervalMs : Nat) (row : TradeRow) : Nat := row.timestamp - row.timestamp % intervalMs

/-- The price of the last trade before a bucket. -/
def standing (intervalMs : Nat) (rows : List TradeRow) (start : Nat) : Int :=
  ((rows.filter (fun row => bucketOf intervalMs row < start)).getLast?.map
    TradeRow.priceCents).getD 0

/-- The candle of the trades of one bucket. The volume is their sum in 64 bits. -/
def ofTrades (start : Nat) (first : TradeRow) (rest : List TradeRow) : CandleBucket where
  start := start
  openCents := first.priceCents
  highCents := (rest.map TradeRow.priceCents).foldl max first.priceCents
  lowCents := (rest.map TradeRow.priceCents).foldl min first.priceCents
  closeCents := (rest.getLast?.getD first).priceCents
  volumeTenths := (rest.map TradeRow.qtyTenths).foldl saturatingAdd first.qtyTenths
  trades := min (rest.length + 1) u64Max

/-- The candle of one bucket. -/
def candleAt (intervalMs : Nat) (rows : List TradeRow) (start : Nat) : CandleBucket :=
  match rows.filter (fun row => bucketOf intervalMs row = start) with
  | [] => CandleWindow.flat (standing intervalMs rows start) start
  | first :: rest => ofTrades start first rest

/-- Every candle from the first trade to the last. -/
def candles (intervalMs : Nat) (rows : List TradeRow) : List CandleBucket :=
  match rows.head?, rows.getLast? with
  | some first, some last =>
      (List.range' (bucketOf intervalMs first)
        ((bucketOf intervalMs last - bucketOf intervalMs first) / intervalMs + 1) intervalMs).map
        (candleAt intervalMs rows)
  | _, _ => []

/-- No trade is older than the one before it. -/
def Ordered (rows : List TradeRow) : Prop :=
  rows.Pairwise (fun earlier later => earlier.timestamp ≤ later.timestamp)

theorem Ordered.concat {rows : List TradeRow} {row : TradeRow} :
    Ordered (rows ++ [row]) ↔ Ordered rows ∧ ∀ r ∈ rows, r.timestamp ≤ row.timestamp := by
  simp [Ordered, List.pairwise_append]

theorem Ordered.le_last {rows : List TradeRow} {last : TradeRow} (h : Ordered rows)
    (hlast : rows.getLast? = some last) : ∀ r ∈ rows, r.timestamp ≤ last.timestamp := by
  obtain ⟨front, rfl⟩ := List.getLast?_eq_some_iff.1 hlast
  intro r hr
  rcases List.mem_append.1 hr with hfront | hend
  · exact (Ordered.concat.1 h).2 r hfront
  · rw [List.mem_singleton.1 hend]

theorem Ordered.head_le {rows : List TradeRow} {first : TradeRow} (h : Ordered rows)
    (hfirst : rows.head? = some first) : ∀ r ∈ rows, first.timestamp ≤ r.timestamp := by
  cases rows with
  | nil => cases hfirst
  | cons head rest =>
      cases hfirst
      exact List.forall_mem_cons.2 ⟨le_rfl, (List.pairwise_cons.1 h).1⟩

variable {intervalMs : Nat} {rows : List TradeRow} {row : TradeRow}

theorem bucketOf_eq (intervalMs : Nat) (row : TradeRow) :
    bucketOf intervalMs row = intervalMs * (row.timestamp / intervalMs) := by
  have hsplit := Nat.div_add_mod row.timestamp intervalMs
  unfold bucketOf
  omega

theorem bucketOf_mono {a b : TradeRow} (h : a.timestamp ≤ b.timestamp) :
    bucketOf intervalMs a ≤ bucketOf intervalMs b := by
  rw [bucketOf_eq, bucketOf_eq]
  exact Nat.mul_le_mul_left _ (Nat.div_le_div_right h)

/-! ## One more trade -/

/-- One more trade of a bucket. -/
theorem ofTrades_concat (start : Nat) (first : TradeRow) (rest : List TradeRow) (row : TradeRow) :
    ofTrades start first (rest ++ [row]) =
      CandleWindow.withTrade (ofTrades start first rest) row.priceCents row.qtyTenths := by
  have hcount : min (rest.length + 1 + 1) u64Max =
      saturatingAddU64 (min (rest.length + 1) u64Max) 1 := by
    unfold saturatingAddU64
    omega
  simp [ofTrades, CandleWindow.withTrade, List.foldl_append, hcount]

theorem ofTrades_nil (start : Nat) (row : TradeRow) :
    ofTrades start row [] = CandleWindow.opened start row.priceCents row.qtyTenths := rfl

/-- A running choice is one of the values, and no value is beyond it. -/
theorem foldl_extreme {α : Type} {pick : α → α → α} {le : α → α → Prop} (hrefl : ∀ a, le a a)
    (htrans : ∀ {a b c}, le a b → le b c → le a c) (hpick : ∀ a b, pick a b = a ∨ pick a b = b)
    (hleft : ∀ a b, le a (pick a b)) (hright : ∀ a b, le b (pick a b)) :
    ∀ (rest : List α) (first : α),
      rest.foldl pick first ∈ first :: rest ∧ ∀ a ∈ first :: rest, le a (rest.foldl pick first)
  | [], first => ⟨List.mem_cons_self, by simp [hrefl]⟩
  | b :: rest, first => by
      obtain ⟨hmem, hbound⟩ :=
        foldl_extreme hrefl htrans hpick hleft hright rest (pick first b)
      have hhead := hbound _ List.mem_cons_self
      refine ⟨?_, fun a ha => ?_⟩
      · rcases List.mem_cons.1 hmem with hfirst | hlater
        · rcases hpick first b with hchosen | hchosen
          · exact List.mem_cons.2 (Or.inl (hfirst.trans hchosen))
          · exact List.mem_cons_of_mem _ (List.mem_cons.2 (Or.inl (hfirst.trans hchosen)))
        · exact List.mem_cons_of_mem _ (List.mem_cons_of_mem _ hlater)
      · rcases List.mem_cons.1 ha with rfl | ha
        · exact htrans (hleft _ _) hhead
        rcases List.mem_cons.1 ha with rfl | ha
        · exact htrans (hright _ _) hhead
        · exact hbound a (List.mem_cons_of_mem _ ha)

/-- The high of a bucket is its highest price. -/
theorem highCents_ofTrades (start : Nat) (first : TradeRow) (rest : List TradeRow) :
    IsGreatest {price | price ∈ (first :: rest).map TradeRow.priceCents}
      (ofTrades start first rest).highCents :=
  @foldl_extreme _ max (fun a b => a ≤ b) le_refl le_trans max_choice le_max_left le_max_right _ _

/-- The low of a bucket is its lowest price. -/
theorem lowCents_ofTrades (start : Nat) (first : TradeRow) (rest : List TradeRow) :
    IsLeast {price | price ∈ (first :: rest).map TradeRow.priceCents}
      (ofTrades start first rest).lowCents :=
  @foldl_extreme _ min (fun a b => b ≤ a) le_refl (fun h h' => h'.trans h) min_choice min_le_left
    min_le_right _ _

/-- The volume of a bucket is the sum of its quantities, up to the largest value. -/
theorem volumeTenths_ofTrades (start : Nat) (first : TradeRow) (rest : List TradeRow)
    (hpos : ∀ row ∈ first :: rest, 0 < row.qtyTenths) (hmax : first.qtyTenths ≤ i64Max) :
    (ofTrades start first rest).volumeTenths =
      min i64Max ((first :: rest).map TradeRow.qtyTenths).sum := by
  obtain ⟨hfirst, hrest⟩ := List.forall_mem_cons.1 hpos
  refine foldl_saturatingAdd ?_ hfirst.le hmax
  intro n hn
  obtain ⟨row, hrow, rfl⟩ := List.mem_map.1 hn
  exact hrest row hrow

/-- A trade does not reach the buckets before its own. -/
theorem candleAt_concat_of_lt {start : Nat} (h : start < bucketOf intervalMs row) :
    candleAt intervalMs (rows ++ [row]) start = candleAt intervalMs rows start := by
  simp only [candleAt, standing, List.filter_append, List.filter_cons, h.ne', h.not_gt,
    decide_false, Bool.false_eq_true, if_false, List.filter_nil, List.append_nil]

/-- A trade of a bucket that traded before. -/
theorem candleAt_concat_of_mem {r : TradeRow} (hr : r ∈ rows)
    (h : bucketOf intervalMs r = bucketOf intervalMs row) :
    candleAt intervalMs (rows ++ [row]) (bucketOf intervalMs row) =
      CandleWindow.withTrade (candleAt intervalMs rows (bucketOf intervalMs row))
        row.priceCents row.qtyTenths := by
  have hmem : r ∈ rows.filter (fun r => bucketOf intervalMs r = bucketOf intervalMs row) :=
    List.mem_filter.2 ⟨hr, decide_eq_true h⟩
  have hone : [row].filter (fun r => bucketOf intervalMs r = bucketOf intervalMs row) = [row] :=
    List.filter_cons_of_pos (decide_eq_true rfl)
  rw [candleAt, candleAt, List.filter_append, hone]
  cases hfilter : rows.filter (fun r => bucketOf intervalMs r = bucketOf intervalMs row) with
  | nil =>
      rw [hfilter] at hmem
      cases hmem
  | cons first rest => exact ofTrades_concat _ first rest row

/-- The first trade of a bucket. -/
theorem candleAt_concat_of_fresh
    (h : ∀ r ∈ rows, bucketOf intervalMs r < bucketOf intervalMs row) :
    candleAt intervalMs (rows ++ [row]) (bucketOf intervalMs row) =
      CandleWindow.opened (bucketOf intervalMs row) row.priceCents row.qtyTenths := by
  have hnone : rows.filter (fun r => bucketOf intervalMs r = bucketOf intervalMs row) = [] :=
    List.filter_eq_nil_iff.2 (fun r hr => by simpa using (h r hr).ne)
  have hone : [row].filter (fun r => bucketOf intervalMs r = bucketOf intervalMs row) = [row] :=
    List.filter_cons_of_pos (decide_eq_true rfl)
  rw [candleAt, List.filter_append, hnone, hone]
  rfl

/-- A bucket after all trades stands at the last price. -/
theorem candleAt_of_later {start : Nat} (h : ∀ r ∈ rows, bucketOf intervalMs r < start)
    {last : TradeRow} (hlast : rows.getLast? = some last) :
    candleAt intervalMs rows start = CandleWindow.flat last.priceCents start := by
  have hnone : rows.filter (fun r => bucketOf intervalMs r = start) = [] :=
    List.filter_eq_nil_iff.2 (fun r hr => by simpa using (h r hr).ne)
  have hall : rows.filter (fun r => bucketOf intervalMs r < start) = rows :=
    List.filter_eq_self.2 (fun r hr => by simpa using h r hr)
  rw [candleAt, hnone, standing, hall, hlast]
  rfl

/-- The newest candle closes at the last trade's price. -/
theorem closeCents_candleAt {last : TradeRow} (hlast : rows.getLast? = some last) :
    (candleAt intervalMs rows (bucketOf intervalMs last)).closeCents = last.priceCents := by
  obtain ⟨front, rfl⟩ := List.getLast?_eq_some_iff.1 hlast
  have hone : [last].filter (fun r => bucketOf intervalMs r = bucketOf intervalMs last) = [last] :=
    List.filter_cons_of_pos (decide_eq_true rfl)
  rw [candleAt, List.filter_append, hone]
  cases front.filter (fun r => bucketOf intervalMs r = bucketOf intervalMs last) with
  | nil => rfl
  | cons first rest =>
      exact congrArg CandleBucket.closeCents (ofTrades_concat _ first rest last)

theorem start_candleAt (intervalMs : Nat) (rows : List TradeRow) (start : Nat) :
    (candleAt intervalMs rows start).start = start := by
  unfold candleAt
  split
  · rfl
  · rfl

/-- A bucket nobody traded in stands at the close before it. -/
example : candles 1000
      [⟨1, 500, "A", 10, 1, 1, 1, 2, 2, .buy⟩, ⟨2, 2500, "A", 12, 3, 3, 1, 4, 2, .buy⟩] =
    [CandleWindow.opened 0 10 1, CandleWindow.flat 10 1000, CandleWindow.opened 2000 12 3] := by
  decide

/-- A chart with one more trade: its bucket changes, or the chart goes on up to a new one. -/
def grown (intervalMs : Nat) (all : List CandleBucket) (row : TradeRow) : List CandleBucket :=
  match all.getLast? with
  | none => [CandleWindow.opened (bucketOf intervalMs row) row.priceCents row.qtyTenths]
  | some last =>
      if bucketOf intervalMs row = last.start then
        all.dropLast ++ [CandleWindow.withTrade last row.priceCents row.qtyTenths]
      else
        all ++ (CandleWindow.flatsUntil intervalMs last.closeCents (last.start + intervalMs)
            (bucketOf intervalMs row) ++
          [CandleWindow.opened (bucketOf intervalMs row) row.priceCents row.qtyTenths])

/-- The chart counted in whole intervals. -/
theorem candles_eq (hpos : 0 < intervalMs) {first last : TradeRow}
    (hfirst : rows.head? = some first) (hlast : rows.getLast? = some last) :
    candles intervalMs rows = (List.range' (intervalMs * (first.timestamp / intervalMs))
      (last.timestamp / intervalMs - first.timestamp / intervalMs + 1) intervalMs).map
      (candleAt intervalMs rows) := by
  rw [candles, hfirst, hlast]
  simp only [bucketOf_eq]
  rw [← Nat.mul_sub, Nat.mul_div_cancel_left _ hpos]

/-- The chart before its newest candle, and that candle. -/
theorem candles_split (hpos : 0 < intervalMs) (hordered : Ordered rows) {first last : TradeRow}
    (hfirst : rows.head? = some first) (hlast : rows.getLast? = some last) :
    candles intervalMs rows = (List.range' (intervalMs * (first.timestamp / intervalMs))
        (last.timestamp / intervalMs - first.timestamp / intervalMs) intervalMs).map
        (candleAt intervalMs rows) ++
      [candleAt intervalMs rows (bucketOf intervalMs last)] := by
  have hspan : first.timestamp / intervalMs ≤ last.timestamp / intervalMs :=
    Nat.div_le_div_right (hordered.head_le hfirst last (List.mem_of_getLast? hlast))
  have hend : intervalMs * (first.timestamp / intervalMs) +
      intervalMs * (last.timestamp / intervalMs - first.timestamp / intervalMs) =
        bucketOf intervalMs last := by
    rw [bucketOf_eq, ← Nat.mul_add, Nat.add_sub_cancel' hspan]
  rw [candles_eq hpos hfirst hlast, List.range'_concat, List.map_append, hend]
  rfl

/-- The chart of one more trade is the chart before, grown by it. -/
theorem candles_concat (hpos : 0 < intervalMs) (hordered : Ordered (rows ++ [row])) :
    candles intervalMs (rows ++ [row]) = grown intervalMs (candles intervalMs rows) row := by
  obtain ⟨hbefore, holder⟩ := Ordered.concat.1 hordered
  have hnewest : (rows ++ [row]).getLast? = some row := List.getLast?_concat
  cases hlast : rows.getLast? with
  | none =>
      obtain rfl := List.getLast?_eq_none_iff.1 hlast
      have hsplit := candles_split hpos hordered rfl hnewest
      rw [Nat.sub_self] at hsplit
      rw [hsplit, candleAt_concat_of_fresh (List.forall_mem_nil _)]
      rfl
  | some last =>
      obtain ⟨first, hfirst⟩ : ∃ first, rows.head? = some first := by
        cases rows with
        | nil => cases hlast
        | cons first rest => exact ⟨first, rfl⟩
      have hfirst' : (rows ++ [row]).head? = some first := by
        rw [List.head?_append, hfirst]
        rfl
      have hmem : last ∈ rows := List.mem_of_getLast? hlast
      have hlater : bucketOf intervalMs last ≤ bucketOf intervalMs row :=
        bucketOf_mono (holder last hmem)
      have hold := candles_split hpos hbefore hfirst hlast
      have hnew := candles_split hpos hordered hfirst' hnewest
      have hend : (candles intervalMs rows).getLast? =
          some (candleAt intervalMs rows (bucketOf intervalMs last)) := by
        rw [hold]
        exact List.getLast?_concat
      rw [grown, hend]
      simp only [start_candleAt, closeCents_candleAt hlast]
      have hfront : first.timestamp / intervalMs ≤ last.timestamp / intervalMs :=
        Nat.div_le_div_right (hbefore.head_le hfirst last hmem)
      rcases hlater.eq_or_lt with hsame | hgap
      · -- The trade falls in the newest bucket.
        have hquotient : row.timestamp / intervalMs = last.timestamp / intervalMs := by
          rw [bucketOf_eq, bucketOf_eq] at hsame
          exact (Nat.eq_of_mul_eq_mul_left hpos hsame).symm
        rw [if_pos hsame.symm, hnew, hold, List.dropLast_concat, hquotient, hsame,
          candleAt_concat_of_mem hmem hsame]
        refine congrArg (· ++ _) (List.map_congr_left ?_)
        intro start hstart
        obtain ⟨i, hi, rfl⟩ := List.mem_range'.1 hstart
        refine candleAt_concat_of_lt ?_
        rw [bucketOf_eq, hquotient, ← Nat.mul_add]
        exact Nat.mul_lt_mul_of_pos_left (by omega) hpos
      · -- The trade opens a bucket, and the ones in between stand at the last price.
        have hquotient : last.timestamp / intervalMs < row.timestamp / intervalMs := by
          rw [bucketOf_eq, bucketOf_eq] at hgap
          exact lt_of_mul_lt_mul_left' hgap
        have hbehind : ∀ r ∈ rows, bucketOf intervalMs r ≤ bucketOf intervalMs last :=
          fun r hr => bucketOf_mono (hbefore.le_last hlast r hr)
        have hnext : intervalMs * (first.timestamp / intervalMs) + intervalMs *
            (last.timestamp / intervalMs - first.timestamp / intervalMs + 1) =
              bucketOf intervalMs last + intervalMs := by
          rw [Nat.mul_succ, ← Nat.add_assoc, ← Nat.mul_add, Nat.add_sub_cancel' hfront, bucketOf_eq]
        have hbucket : bucketOf intervalMs row = bucketOf intervalMs last + intervalMs +
            intervalMs * (row.timestamp / intervalMs - last.timestamp / intervalMs - 1) := by
          rw [bucketOf_eq, bucketOf_eq, ← Nat.mul_succ, ← Nat.mul_add]
          congr 1
          omega
        have hstarts : List.range' (intervalMs * (first.timestamp / intervalMs))
              (row.timestamp / intervalMs - first.timestamp / intervalMs) intervalMs =
            List.range' (intervalMs * (first.timestamp / intervalMs))
                (last.timestamp / intervalMs - first.timestamp / intervalMs + 1) intervalMs ++
              List.range' (bucketOf intervalMs last + intervalMs)
                (row.timestamp / intervalMs - last.timestamp / intervalMs - 1) intervalMs := by
          rw [← hnext, List.range'_append]
          congr 1
          omega
        rw [if_neg hgap.ne', hnew,
          candleAt_concat_of_fresh (fun r hr => (hbehind r hr).trans_lt hgap),
          candles_eq hpos hfirst hlast, CandleWindow.flatsUntil_eq hpos _ hbucket, hstarts,
          List.map_append, List.append_assoc]
        have hearlier : ∀ start ≤ bucketOf intervalMs last,
            candleAt intervalMs (rows ++ [row]) start = candleAt intervalMs rows start :=
          fun start hstart => candleAt_concat_of_lt (hstart.trans_lt hgap)
        refine congrArg₂ (· ++ ·) (List.map_congr_left ?_) (congrArg (· ++ _)
          (List.map_congr_left ?_))
        · intro start hstart
          obtain ⟨i, hi, rfl⟩ := List.mem_range'.1 hstart
          refine hearlier _ ?_
          rw [bucketOf_eq, ← Nat.mul_add]
          exact Nat.mul_le_mul_left _ (by omega)
        · intro start hstart
          obtain ⟨i, hi, rfl⟩ := List.mem_range'.1 hstart
          rw [candleAt_concat_of_lt ?_, candleAt_of_later ?_ hlast]
          · intro r hr
            have hbound := hbehind r hr
            omega
          · rw [hbucket]
            exact Nat.add_lt_add_left (Nat.mul_lt_mul_of_pos_left hi hpos) _

/-! ## The window is the end of the chart -/

/-- Flat buckets before a window's reach do not show in it. -/
theorem newest_flats (hpos : 0 < intervalMs) {start bucket k : Nat} (priceCents : Int)
    (hbucket : bucket = start + intervalMs * k) (hwide : maxCandles ≤ k + 1)
    (all : List CandleBucket) (opened : CandleBucket) :
    newest maxCandles (CandleWindow.flatsUntil intervalMs priceCents
        (bucket - (maxCandles - 1) * intervalMs) bucket ++ [opened]) =
      newest maxCandles (all ++
        (CandleWindow.flatsUntil intervalMs priceCents start bucket ++ [opened])) := by
  have hreach : bucket - (maxCandles - 1) * intervalMs =
      start + intervalMs * (k - (maxCandles - 1)) := by
    rw [hbucket, Nat.mul_comm (maxCandles - 1), Nat.add_sub_assoc
      (Nat.mul_le_mul_left _ (by omega)), ← Nat.mul_sub]
  have hinside : bucket =
      bucket - (maxCandles - 1) * intervalMs + intervalMs * (maxCandles - 1) := by
    rw [hreach, hbucket, Nat.add_assoc, ← Nat.mul_add]
    congr 2
    omega
  have hparts : CandleWindow.flatsUntil intervalMs priceCents start bucket =
      (List.range' start (k - (maxCandles - 1)) intervalMs).map (CandleWindow.flat priceCents) ++
        CandleWindow.flatsUntil intervalMs priceCents (bucket - (maxCandles - 1) * intervalMs)
          bucket := by
    rw [CandleWindow.flatsUntil_eq hpos _ hbucket, CandleWindow.flatsUntil_eq hpos _ hinside,
      hreach, ← List.map_append, List.range'_append]
    congr 2
    omega
  rw [hparts, List.append_assoc, ← List.append_assoc all]
  refine (newest_append_of_le ?_ _).symm
  rw [List.length_append, CandleWindow.length_flatsUntil hpos _ hinside]
  exact (by decide : maxCandles ≤ maxCandles - 1 + 1)

/-- A recorded trade keeps the window at the end of the chart. -/
theorem record_newest {intervalSecs : Nat} (hpos : 0 < intervalSecs) {all : List CandleBucket}
    (hend : ∀ last, all.getLast? = some last → last.start ≤ bucketOf (intervalSecs * 1000) row ∧
      intervalSecs * 1000 ∣ last.start) :
    CandleWindow.record (newest maxCandles all) row.timestamp row.priceCents row.qtyTenths
        intervalSecs =
      some (newest maxCandles (grown (intervalSecs * 1000) all row)) := by
  have hwidth : 0 < intervalSecs * 1000 := by omega
  have hbucket : row.timestamp - row.timestamp % (intervalSecs * 1000) =
      bucketOf (intervalSecs * 1000) row := rfl
  have hcapped : ∀ rows, CandleWindow.capped rows = newest maxCandles rows := fun _ => rfl
  simp only [CandleWindow.record, hbucket, hcapped, getLast?_newest (by decide : 0 < maxCandles)]
  unfold grown
  cases hlast : all.getLast? with
  | none => rfl
  | some last =>
      obtain ⟨hle, hstart⟩ := hend last hlast
      simp only [if_neg (not_lt.2 hle)]
      obtain ⟨front, rfl⟩ := List.getLast?_eq_some_iff.1 hlast
      split_ifs with hsame
      · -- The newest bucket changes in place.
        have hwindow : ∀ bucket : CandleBucket, newest maxCandles (front ++ [bucket]) =
            newest (maxCandles - 1) front ++ [bucket] := newest_succ_concat (maxCandles - 1) front
        rw [hwindow, List.dropLast_concat, List.dropLast_concat, hwindow]
      · have hdvd : intervalSecs * 1000 ∣ bucketOf (intervalSecs * 1000) row := by
          rw [bucketOf_eq]
          exact dvd_mul_right _ _
        obtain ⟨k, hk⟩ := Nat.dvd_sub hdvd hstart
        have hjump : bucketOf (intervalSecs * 1000) row =
            last.start + intervalSecs * 1000 * k := by omega
        have hwidths : (bucketOf (intervalSecs * 1000) row - last.start) / (intervalSecs * 1000) =
            k := by rw [hk, Nat.mul_div_cancel_left _ hwidth]
        have hk_pos : 0 < k := by
          rcases Nat.eq_zero_or_pos k with rfl | hk_pos
          · omega
          · exact hk_pos
        have hnext : bucketOf (intervalSecs * 1000) row =
            last.start + intervalSecs * 1000 + intervalSecs * 1000 * (k - 1) := by
          calc
            bucketOf (intervalSecs * 1000) row =
                last.start + intervalSecs * 1000 * (k - 1 + 1) := by
              rw [hjump, Nat.sub_add_cancel hk_pos]
            _ = last.start + intervalSecs * 1000 + intervalSecs * 1000 * (k - 1) := by ring
        unfold CandleWindow.filledTo
        rw [hwidths]
        split_ifs with hwide
        · rw [newest_flats hwidth last.closeCents hnext (by omega) (front ++ [last])]
        · rw [List.append_assoc, newest_append_newest]

/-- What is kept of one symbol after its trades. -/
def kept (rows : List TradeRow) : SymbolCandles where
  lastTimestamp := rows.getLast?.map TradeRow.timestamp
  windows := candleIntervals.map
    (fun interval => newest maxCandles (candles (interval * 1000) rows))

theorem lastTimestamp_kept (rows : List TradeRow) :
    (kept rows).lastTimestamp = rows.getLast?.map TradeRow.timestamp := by rw [kept]

theorem windows_kept (rows : List TradeRow) : (kept rows).windows = candleIntervals.map
    (fun interval => newest maxCandles (candles (interval * 1000) rows)) := by rw [kept]

theorem kept_nil : kept [] = SymbolCandles.default := by
  simp only [kept, SymbolCandles.default, candles, List.head?_nil, newest_nil, List.getLast?_nil,
    Option.map_none]

/-- A step over a list and its image that succeeds at every element. -/
theorem mapM_zip_map {α β : Type} {step : β → α → Option β} {before after : α → β} :
    ∀ {l : List α}, (∀ a ∈ l, step (before a) a = some (after a)) →
      ((l.map before).zip l).mapM (fun entry => step entry.1 entry.2) = some (l.map after)
  | [], _ => rfl
  | a :: l, h => by
      obtain ⟨hhead, htail⟩ := List.forall_mem_cons.1 h
      rw [List.map_cons, List.zip_cons_cons, List.mapM_cons, hhead, mapM_zip_map htail]
      rfl

/-- A trade that is not older than the last one is recorded in every window. -/
theorem recordIn_kept (hordered : Ordered (rows ++ [row])) :
    CandleCache.recordIn (kept rows) row.timestamp row.priceCents row.qtyTenths =
      some (kept (rows ++ [row])) := by
  obtain ⟨hbefore, holder⟩ := Ordered.concat.1 hordered
  have hcurrent : ¬∃ last ∈ (kept rows).lastTimestamp, row.timestamp < last := by
    rintro ⟨last, hlast, hback⟩
    rw [lastTimestamp_kept] at hlast
    obtain ⟨r, hr, rfl⟩ := Option.map_eq_some_iff.1 hlast
    exact absurd (holder r (List.mem_of_getLast? hr)) (not_le.2 hback)
  have hwindows : ((kept rows).windows.zip candleIntervals).mapM (fun entry =>
        CandleWindow.record entry.1 row.timestamp row.priceCents row.qtyTenths entry.2) =
      some (kept (rows ++ [row])).windows := by
    rw [windows_kept, windows_kept]
    refine @mapM_zip_map _ _ (fun window interval =>
      CandleWindow.record window row.timestamp row.priceCents row.qtyTenths interval) _ _ _
      (fun interval hinterval => ?_)
    have hpos : 0 < interval := by
      have hall : ∀ i ∈ candleIntervals, 0 < i := by decide
      exact hall interval hinterval
    rw [record_newest hpos, candles_concat (by omega) hordered]
    intro last hlast
    -- The newest candle is the one of the last trade's bucket.
    cases hnewest : rows.getLast? with
    | none =>
        rw [List.getLast?_eq_none_iff.1 hnewest] at hlast
        cases hlast
    | some newestRow =>
        obtain ⟨first, hfirst⟩ : ∃ first, rows.head? = some first := by
          cases rows with
          | nil => cases hnewest
          | cons first rest => exact ⟨first, rfl⟩
        rw [candles_split (by omega) hbefore hfirst hnewest, List.getLast?_concat] at hlast
        cases hlast
        rw [start_candleAt]
        refine ⟨bucketOf_mono (holder newestRow (List.mem_of_getLast? hnewest)), ?_⟩
        rw [bucketOf_eq]
        exact dvd_mul_right _ _
  rw [CandleCache.recordIn, if_neg hcurrent, hwindows, Option.map_some]
  rw [kept, List.getLast?_concat, Option.map_some]

/-- A trade that is older than the last one is not. -/
theorem recordIn_kept_of_older {last : TradeRow} (hlast : rows.getLast? = some last)
    (hback : row.timestamp < last.timestamp) :
    CandleCache.recordIn (kept rows) row.timestamp row.priceCents row.qtyTenths = none := by
  have hmem : last.timestamp ∈ (kept rows).lastTimestamp := by
    rw [lastTimestamp_kept, hlast]
    rfl
  rw [CandleCache.recordIn, if_pos ⟨last.timestamp, hmem, hback⟩]

/-! ## The view of all symbols -/

/-- The trades of one symbol. -/
def ofSymbol (symbol : String) (rows : List TradeRow) : List TradeRow :=
  rows.filter (fun row => row.symbol = symbol)

/-- No trade is older than the one of its symbol before it. -/
def OrderedPerSymbol (rows : List TradeRow) : Prop := ∀ symbol, Ordered (ofSymbol symbol rows)

/-- The view after one stored trade. -/
def recordRow (cache : CandleCache) (row : TradeRow) : CandleCache :=
  cache.record row.symbol row.timestamp row.priceCents row.qtyTenths

/-- The view after these trades, from an empty one. -/
def replay (rows : List TradeRow) : CandleCache := rows.foldl recordRow .default

/-- The view holds what is kept of every symbol. -/
structure Tracks (cache : CandleCache) (rows : List TradeRow) : Prop where
  valid : cache.valid = true
  symbols : ∀ symbol, cache.symbols.getD symbol .default = kept (ofSymbol symbol rows)

theorem ofSymbol_concat (symbol : String) (rows : List TradeRow) (row : TradeRow) :
    ofSymbol symbol (rows ++ [row]) =
      if row.symbol = symbol then ofSymbol symbol rows ++ [row] else ofSymbol symbol rows := by
  unfold ofSymbol
  rw [List.filter_append]
  split_ifs with hsymbol
  · have hone : [row].filter (fun r => r.symbol = symbol) = [row] :=
      List.filter_cons_of_pos (decide_eq_true hsymbol)
    rw [hone]
  · have hnone : [row].filter (fun r => r.symbol = symbol) = [] :=
      List.filter_cons_of_neg (by simpa using hsymbol)
    rw [hnone, List.append_nil]

theorem OrderedPerSymbol.concat {rows : List TradeRow} {row : TradeRow} :
    OrderedPerSymbol (rows ++ [row]) ↔
      OrderedPerSymbol rows ∧ Ordered (ofSymbol row.symbol rows ++ [row]) := by
  constructor
  · intro h
    have hown := h row.symbol
    rw [ofSymbol_concat, if_pos rfl] at hown
    refine ⟨fun symbol => ?_, hown⟩
    have hsymbol := h symbol
    rw [ofSymbol_concat] at hsymbol
    split_ifs at hsymbol
    · exact (Ordered.concat.1 hsymbol).1
    · exact hsymbol
  · rintro ⟨hbefore, hown⟩ symbol
    rw [ofSymbol_concat]
    split_ifs with hsymbol
    · subst hsymbol
      exact hown
    · exact hbefore symbol

/-- A trade in order is kept by its symbol, and the other symbols stay. -/
theorem Tracks.recordRow {cache : CandleCache} (h : Tracks cache rows)
    (hown : Ordered (ofSymbol row.symbol rows ++ [row])) :
    Tracks (recordRow cache row) (rows ++ [row]) := by
  rw [Chart.recordRow, CandleCache.record, if_neg (by rw [h.valid]; exact Bool.noConfusion),
    h.symbols, recordIn_kept hown]
  refine ⟨h.valid, fun symbol => ?_⟩
  rw [SortedMap.getD_insert, ofSymbol_concat]
  by_cases hsymbol : symbol = row.symbol
  · rw [if_pos hsymbol, if_pos hsymbol.symm, hsymbol]
  · rw [if_neg hsymbol, if_neg (fun heq => hsymbol heq.symm)]
    exact h.symbols symbol

/-- A trade out of order empties the view. -/
theorem Tracks.invalidated {cache : CandleCache} (h : Tracks cache rows)
    (hbefore : OrderedPerSymbol rows) (hown : ¬Ordered (ofSymbol row.symbol rows ++ [row])) :
    Chart.recordRow cache row = .invalidate := by
  obtain ⟨r, hr, hback⟩ : ∃ r ∈ ofSymbol row.symbol rows, row.timestamp < r.timestamp := by
    by_contra hnone
    push Not at hnone
    exact hown (Ordered.concat.2 ⟨hbefore _, hnone⟩)
  cases hlast : (ofSymbol row.symbol rows).getLast? with
  | none =>
      rw [List.getLast?_eq_none_iff.1 hlast] at hr
      cases hr
  | some last =>
      have holder := hback.trans_le ((hbefore _).le_last hlast r hr)
      rw [Chart.recordRow, CandleCache.record, if_neg (by rw [h.valid]; exact Bool.noConfusion),
        h.symbols, recordIn_kept_of_older hlast holder]

/-- The view of trades in order tracks them; a trade out of order leaves no view. -/
theorem replay_cases (rows : List TradeRow) :
    (OrderedPerSymbol rows ∧ Tracks (replay rows) rows) ∨
      (¬OrderedPerSymbol rows ∧ replay rows = .invalidate) := by
  induction rows using List.reverseRecOn with
  | nil =>
      refine Or.inl ⟨fun _ => List.Pairwise.nil, rfl, fun symbol => ?_⟩
      exact kept_nil.symm
  | append_singleton rows row ih =>
      have hstep : replay (rows ++ [row]) = recordRow (replay rows) row := by
        rw [replay, List.foldl_append]
        rfl
      rw [OrderedPerSymbol.concat, hstep]
      rcases ih with ⟨hbefore, htracks⟩ | ⟨hbefore, hinvalid⟩
      · by_cases hown : Ordered (ofSymbol row.symbol rows ++ [row])
        · exact Or.inl ⟨⟨hbefore, hown⟩, htracks.recordRow hown⟩
        · exact Or.inr ⟨fun hboth => hown hboth.2, htracks.invalidated hbefore hown⟩
      · refine Or.inr ⟨fun hboth => hbefore hboth.1, ?_⟩
        rw [hinvalid]
        rfl

/-! ## What the answers are -/

/-- Every answer is the end of the chart of all trades, or there is none for anything. -/
structure Meets (cache : CandleCache) (rows : List TradeRow) : Prop where
  ordered : OrderedPerSymbol rows → ∀ symbol, ∀ interval ∈ candleIntervals, ∀ n ≤ maxCandles,
    cache.newest symbol interval n = some
      ((newest n (candles (interval * 1000) (ofSymbol symbol rows))).map CandleBucket.view)
  unordered : ¬OrderedPerSymbol rows → ∀ symbol interval n, cache.newest symbol interval n = none

theorem newest_kept (rows : List TradeRow) {interval n : Nat}
    (hinterval : interval ∈ candleIntervals) (hn : n ≤ maxCandles) :
    CandleWindow.newest ((kept rows).windows.getD (candleIntervals.idxOf interval) []) n =
      (newest n (candles (interval * 1000) rows)).map CandleBucket.view := by
  have hwindow : (kept rows).windows.getD (candleIntervals.idxOf interval) [] =
      newest maxCandles (candles (interval * 1000) rows) := by
    rw [windows_kept, List.getD_eq_getElem?_getD, List.getElem?_map,
      List.getElem?_idxOf hinterval, Option.map_some, Option.getD_some]
  rw [hwindow, ← newest_newest hn]
  rfl

theorem Tracks.newest_eq {cache : CandleCache} (h : Tracks cache rows) (symbol : String)
    {interval n : Nat} (hinterval : interval ∈ candleIntervals) (hn : n ≤ maxCandles) :
    cache.newest symbol interval n = some
      ((newest n (candles (interval * 1000) (ofSymbol symbol rows))).map CandleBucket.view) := by
  have hsymbol := h.symbols symbol
  rw [CandleCache.newest, if_neg (by rw [h.valid]; exact Bool.noConfusion), if_pos hinterval,
    ← newest_kept _ hinterval hn]
  cases hget : cache.symbols.get? symbol with
  | some candles =>
      rw [SortedMap.getD, hget, Option.getD_some] at hsymbol
      rw [← hsymbol]
  | none =>
      -- A symbol that is not kept has not traded.
      rw [SortedMap.getD, hget, Option.getD_none, ← kept_nil] at hsymbol
      have hwindow : (kept []).windows.getD (candleIntervals.idxOf interval) [] = [] := by
        rw [windows_kept, List.getD_eq_getElem?_getD, List.getElem?_map,
          List.getElem?_idxOf hinterval, Option.map_some, Option.getD_some]
        exact newest_nil _
      rw [← hsymbol, hwindow]
      simp only [CandleWindow.newest, List.drop_nil, List.map_nil]

/-- The view kept trade by trade meets the definition. -/
theorem meets_replay (rows : List TradeRow) : Meets (replay rows) rows := by
  rcases replay_cases rows with ⟨hordered, htracks⟩ | ⟨hunordered, hinvalid⟩
  · exact ⟨fun _ symbol _ hinterval _ hn => htracks.newest_eq symbol hinterval hn,
      fun hnot => absurd hordered hnot⟩
  · refine ⟨fun hordered => absurd hordered hunordered, fun _ symbol interval n => ?_⟩
    rw [hinvalid]
    rfl

end Chart

end Matcher
end VerifiableExchange
