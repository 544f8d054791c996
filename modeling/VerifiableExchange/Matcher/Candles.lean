import VerifiableExchange.Matcher.Congruence

/-!
# Candles — the chart view kept beside the engine

Five chart intervals are kept per symbol, each as at most a thousand buckets in a row. A trade is
the only thing that moves them, so the view is a fold over the trades an engine records.
-/

namespace VerifiableExchange
namespace Matcher

open Lib

/-! ## Buckets and windows -/

/-- One bucket of trades, in cents and tenths. -/
structure CandleBucket where
  start : Nat
  openCents : Int
  highCents : Int
  lowCents : Int
  closeCents : Int
  volumeTenths : Int
  trades : Nat
  deriving DecidableEq

/-- The chart intervals the exchange serves, in seconds. -/
def candleIntervals : List Nat := [15, 300, 900, 3600, 14400]

/-- The most candles one window holds. -/
def maxCandles : Nat := 1000

/-- One interval of one symbol, the oldest bucket in front. -/
abbrev CandleWindow := List CandleBucket

namespace CandleWindow

/-- A bucket that holds no trade, at the price the market stood at. -/
def flat (priceCents : Int) (start : Nat) : CandleBucket where
  start := start
  openCents := priceCents
  highCents := priceCents
  lowCents := priceCents
  closeCents := priceCents
  volumeTenths := 0
  trades := 0

/-- The flat buckets from `start` up to `bucket`. -/
def flatsUntil (intervalMs : Nat) (priceCents : Int) (start bucket : Nat) : List CandleBucket :=
  (List.range' start ((bucket - start + intervalMs - 1) / intervalMs) intervalMs).map
    (flat priceCents)

/-- The newest bucket with one more trade in it. -/
def withTrade (last : CandleBucket) (priceCents qtyTenths : Int) : CandleBucket where
  start := last.start
  openCents := last.openCents
  highCents := max last.highCents priceCents
  lowCents := min last.lowCents priceCents
  closeCents := priceCents
  volumeTenths := saturatingAdd last.volumeTenths qtyTenths
  trades := saturatingAddU64 last.trades 1

/-- The rows a later bucket follows, without a hole. A jump wider than the window starts it anew. -/
def filledTo (intervalMs : Nat) (rows : CandleWindow) (last : CandleBucket) (bucket : Nat) :
    CandleWindow :=
  if maxCandles ≤ (bucket - last.start) / intervalMs then
    flatsUntil intervalMs last.closeCents (bucket - (maxCandles - 1) * intervalMs) bucket
  else rows ++ flatsUntil intervalMs last.closeCents (last.start + intervalMs) bucket

/-- The newest rows, as many as one window holds. -/
def capped (rows : CandleWindow) : CandleWindow := rows.drop (rows.length - maxCandles)

/-- A bucket that opens with one trade. -/
def opened (bucket : Nat) (priceCents qtyTenths : Int) : CandleBucket :=
  { flat priceCents bucket with volumeTenths := qtyTenths, trades := 1 }

/-- Records one trade in forward order; `none` when its bucket lies before the newest one. -/
def record (rows : CandleWindow) (timestamp : Nat) (priceCents qtyTenths : Int)
    (intervalSecs : Nat) : Option CandleWindow :=
  let intervalMs := intervalSecs * 1000
  let bucket := timestamp - timestamp % intervalMs
  match rows.getLast? with
  | none => some (capped [opened bucket priceCents qtyTenths])
  | some last =>
      if bucket < last.start then none
      else if bucket = last.start then
        some (rows.dropLast ++ [withTrade last priceCents qtyTenths])
      else
        some (capped (filledTo intervalMs rows last bucket ++ [opened bucket priceCents qtyTenths]))

end CandleWindow

/-! ## The view -/

structure SymbolCandles where
  lastTimestamp : Option Nat
  windows : List CandleWindow
  deriving DecidableEq

def SymbolCandles.default : SymbolCandles := ⟨none, candleIntervals.map (fun _ => [])⟩

/-- The chart view. It stops being valid, and is emptied, once a trade arrives out of time order. -/
structure CandleCache where
  valid : Bool
  symbols : SortedMap String SymbolCandles
  deriving DecidableEq

namespace CandleCache

def default : CandleCache := ⟨true, .empty⟩

def invalidate : CandleCache := ⟨false, .empty⟩

/-- One trade of a symbol, in each of its windows. -/
def recordIn (candles : SymbolCandles) (timestamp : Nat) (priceCents qtyTenths : Int) :
    Option SymbolCandles :=
  if ∃ last ∈ candles.lastTimestamp, timestamp < last then none
  else
    ((candles.windows.zip candleIntervals).mapM
      (fun entry => CandleWindow.record entry.1 timestamp priceCents qtyTenths entry.2)).map
      (fun windows => ⟨some timestamp, windows⟩)

def record (cache : CandleCache) (symbol : String) (timestamp : Nat)
    (priceCents qtyTenths : Int) : CandleCache :=
  if cache.valid = false then cache
  else
    match recordIn (cache.symbols.getD symbol .default) timestamp priceCents qtyTenths with
    | none => invalidate
    | some candles => { cache with symbols := cache.symbols.insert symbol candles }

/-- The view after one change of the engine. Nothing but a trade moves it. -/
def follow (cache : CandleCache) : Change → CandleCache
  | .traded row => cache.record row.symbol row.timestamp row.priceCents row.qtyTenths
  | _ => cache

end CandleCache

/-! ## A window has no hole -/

/-- The buckets of a window follow one another, and there are at most a thousand. -/
structure CandleWindow.Unbroken (intervalMs : Nat) (rows : CandleWindow) : Prop where
  starts : ∃ first, intervalMs ∣ first ∧
    rows.map CandleBucket.start = List.range' first rows.length intervalMs
  length_le : rows.length ≤ maxCandles

namespace CandleWindow

variable {intervalMs : Nat}

/-- Rows whose starts follow one another from `first`. -/
def From (intervalMs first : Nat) (rows : CandleWindow) : Prop :=
  rows.map CandleBucket.start = List.range' first rows.length intervalMs

theorem From.append {first : Nat} {rows more : CandleWindow} (h : From intervalMs first rows)
    (hmore : From intervalMs (first + intervalMs * rows.length) more) :
    From intervalMs first (rows ++ more) := by
  unfold From at *
  rw [List.map_append, h, hmore, List.length_append, List.range'_append]

theorem from_flatsUntil (priceCents : Int) (start bucket : Nat) :
    From intervalMs start (flatsUntil intervalMs priceCents start bucket) := by
  have hstart : CandleBucket.start ∘ flat priceCents = id := rfl
  simp [From, flatsUntil, hstart]

/-- Between two bucket starts there is one flat bucket for each interval. -/
theorem flatsUntil_eq (hpos : 0 < intervalMs) (priceCents : Int) {start bucket k : Nat}
    (h : bucket = start + intervalMs * k) :
    flatsUntil intervalMs priceCents start bucket =
      (List.range' start k intervalMs).map (flat priceCents) := by
  have hgap : bucket - start + intervalMs - 1 = intervalMs - 1 + intervalMs * k := by omega
  rw [flatsUntil, hgap, Nat.add_mul_div_left _ _ hpos, Nat.div_eq_of_lt (by omega), Nat.zero_add]

theorem length_flatsUntil (hpos : 0 < intervalMs) (priceCents : Int) {start bucket k : Nat}
    (h : bucket = start + intervalMs * k) :
    (flatsUntil intervalMs priceCents start bucket).length = k := by
  rw [flatsUntil_eq hpos priceCents h, List.length_map, List.length_range']

theorem From.capped {first : Nat} {rows : CandleWindow} (h : From intervalMs first rows)
    (hfirst : intervalMs ∣ first) : Unbroken intervalMs (capped rows) where
  starts := by
    refine ⟨first + intervalMs * (rows.length - maxCandles),
      dvd_add hfirst (dvd_mul_right _ _), ?_⟩
    have hlength : (CandleWindow.capped rows).length =
        rows.length - (rows.length - maxCandles) := List.length_drop
    rw [hlength, CandleWindow.capped, List.map_drop, h, List.drop_range', Nat.mul_comm]
  length_le := by
    have hlength : (CandleWindow.capped rows).length =
        rows.length - (rows.length - maxCandles) := List.length_drop
    omega

theorem From.opened {first bucket : Nat} {rows : CandleWindow} (h : From intervalMs first rows)
    (hbucket : bucket = first + intervalMs * rows.length) (priceCents qtyTenths : Int) :
    From intervalMs first (rows ++ [opened bucket priceCents qtyTenths]) :=
  h.append (by simp [From, CandleWindow.opened, flat, hbucket])

/-- The start of the newest bucket, counted from the oldest. -/
theorem From.last {first : Nat} {rows : CandleWindow} {last : CandleBucket}
    (h : From intervalMs first rows) (hlast : rows.getLast? = some last) :
    last.start + intervalMs = first + intervalMs * rows.length := by
  obtain ⟨init, rfl⟩ := List.getLast?_eq_some_iff.1 hlast
  have hstarts : init.map CandleBucket.start ++ [last.start] =
      List.range' first init.length intervalMs ++ [first + intervalMs * init.length] := by
    calc init.map CandleBucket.start ++ [last.start]
        = (init ++ [last]).map CandleBucket.start := by simp
      _ = List.range' first (init.length + 1) intervalMs := by rw [h]; simp
      _ = _ := by rw [List.range'_concat]
  have hlast := (List.append_inj_right' hstarts rfl)
  simp only [List.cons.injEq, and_true] at hlast
  simp only [List.length_append, List.length_singleton]
  rw [hlast]
  ring

/-- The rows before a later bucket end right in front of it. -/
theorem from_filledTo (hpos : 0 < intervalMs) {first bucket : Nat} {rows : CandleWindow}
    {last : CandleBucket} (h : From intervalMs first rows) (hlast : rows.getLast? = some last)
    (hfirst : intervalMs ∣ first) (hbucket : intervalMs ∣ bucket) (hlater : last.start < bucket) :
    ∃ first', intervalMs ∣ first' ∧ From intervalMs first' (filledTo intervalMs rows last bucket) ∧
      bucket = first' + intervalMs * (filledTo intervalMs rows last bucket).length := by
  have hend := h.last hlast
  have hnext : intervalMs ∣ last.start + intervalMs := by
    rw [hend]
    exact dvd_add hfirst (dvd_mul_right _ _)
  have hstart : intervalMs ∣ last.start := (Nat.dvd_add_left (dvd_refl _)).1 hnext
  -- Both starts are whole widths, so the jump is a whole number of them.
  obtain ⟨k, hk⟩ := Nat.dvd_sub hbucket hstart
  have hgap : bucket = last.start + intervalMs * k := by omega
  have hk_pos : 0 < k := by
    rcases Nat.eq_zero_or_pos k with rfl | hk_pos
    · omega
    · exact hk_pos
  have hwidths : (bucket - last.start) / intervalMs = k := by
    rw [hk, Nat.mul_div_cancel_left _ hpos]
  unfold filledTo
  rw [hwidths]
  split_ifs with hwide
  · -- The jump is wider than a window, so the flat rows alone fill it.
    have hroom : intervalMs * (maxCandles - 1) ≤ intervalMs * k :=
      Nat.mul_le_mul_left _ (by omega)
    have hfrom : bucket =
        bucket - (maxCandles - 1) * intervalMs + intervalMs * (maxCandles - 1) := by
      rw [Nat.mul_comm (maxCandles - 1)]
      omega
    refine ⟨_, Nat.dvd_sub hbucket (dvd_mul_left _ _), from_flatsUntil _ _ _, ?_⟩
    rw [length_flatsUntil hpos _ hfrom]
    exact hfrom
  · have hflats : bucket = last.start + intervalMs + intervalMs * (k - 1) := by
      have hsplit : intervalMs * (k - 1 + 1) = intervalMs * (k - 1) + intervalMs :=
        Nat.mul_succ _ _
      rw [Nat.sub_add_cancel hk_pos] at hsplit
      omega
    refine ⟨first, hfirst, h.append (hend ▸ from_flatsUntil _ _ _), ?_⟩
    rw [List.length_append, length_flatsUntil hpos _ hflats, Nat.mul_add, ← Nat.add_assoc, ← hend]
    exact hflats

/-- A recorded trade leaves the window without a hole, whatever the clock says. -/
theorem Unbroken.record {intervalSecs : Nat} (hpos : 0 < intervalSecs) {rows rows' : CandleWindow}
    (h : Unbroken (intervalSecs * 1000) rows) {timestamp : Nat} {priceCents qtyTenths : Int}
    (hrecord : CandleWindow.record rows timestamp priceCents qtyTenths intervalSecs = some rows') :
    Unbroken (intervalSecs * 1000) rows' := by
  have hbucket : intervalSecs * 1000 ∣ timestamp - timestamp % (intervalSecs * 1000) :=
    Nat.dvd_sub_mod _
  simp only [CandleWindow.record] at hrecord
  split at hrecord
  · obtain rfl := Option.some.inj hrecord
    have hempty : From (intervalSecs * 1000) (timestamp - timestamp % (intervalSecs * 1000)) [] := rfl
    exact (hempty.opened rfl priceCents qtyTenths).capped hbucket
  rename_i last hlast
  split_ifs at hrecord with hback hsame
  · obtain rfl := Option.some.inj hrecord
    -- A trade of the newest bucket changes its prices and not its start.
    obtain ⟨init, rfl⟩ := List.getLast?_eq_some_iff.1 hlast
    obtain ⟨first, hfirst, hstarts⟩ := h.starts
    refine ⟨⟨first, hfirst, ?_⟩, by simpa using h.length_le⟩
    simpa [withTrade] using hstarts
  · obtain rfl := Option.some.inj hrecord
    obtain ⟨first, hfirst, hstarts⟩ := h.starts
    have hfrom : From (intervalSecs * 1000) first rows := hstarts
    -- A later trade: the gap is filled with flat rows first.
    obtain ⟨first', hfirst', hfilled, hend⟩ :=
      from_filledTo (by omega) hfrom hlast hfirst hbucket (by omega)
    exact (hfilled.opened hend priceCents qtyTenths).capped hfirst'

end CandleWindow

/-- Every window of the view is unbroken. -/
structure CandleCache.Charts (cache : CandleCache) : Prop where
  windows : ∀ symbol candles, cache.symbols.get? symbol = some candles →
    List.Forall₂ (fun rows interval => CandleWindow.Unbroken (interval * 1000) rows)
      candles.windows candleIntervals

namespace CandleCache

theorem charts_default : Charts default where
  windows := by simp [default]

theorem unbroken_nil (interval : Nat) : CandleWindow.Unbroken (interval * 1000) [] where
  starts := ⟨0, dvd_zero _, rfl⟩
  length_le := Nat.zero_le _

/-- One trade keeps each of a symbol's windows unbroken. -/
theorem forall₂_mapM_record {timestamp : Nat} {priceCents qtyTenths : Int} :
    ∀ {windows windows' : List CandleWindow} {intervals : List Nat},
      (∀ interval ∈ intervals, 0 < interval) →
      List.Forall₂ (fun rows interval => CandleWindow.Unbroken (interval * 1000) rows)
        windows intervals →
      (windows.zip intervals).mapM
        (fun entry => CandleWindow.record entry.1 timestamp priceCents qtyTenths entry.2) =
          some windows' →
      List.Forall₂ (fun rows interval => CandleWindow.Unbroken (interval * 1000) rows)
        windows' intervals
  | _, windows', _, _, .nil, h => by
      simp only [List.zip_nil_left, List.mapM_nil, Option.pure_def, Option.some.injEq] at h
      rw [← h]
      exact .nil
  | _, windows', _, hpos, .cons hrows hrest, h => by
      simp only [List.zip_cons_cons, List.mapM_cons, Option.bind_eq_bind, Option.bind_eq_some_iff,
        Option.pure_def, Option.some.injEq] at h
      obtain ⟨rows', hrecord, tail, htail, rfl⟩ := h
      obtain ⟨hfirst, hlater⟩ := List.forall_mem_cons.1 hpos
      exact .cons (hrows.record hfirst hrecord) (forall₂_mapM_record hlater hrest htail)

theorem Charts.record {cache : CandleCache} (h : Charts cache) (symbol : String) (timestamp : Nat)
    (priceCents qtyTenths : Int) : Charts (cache.record symbol timestamp priceCents qtyTenths) := by
  unfold CandleCache.record
  split_ifs
  · exact h
  split
  · exact ⟨by simp [invalidate]⟩
  · rename_i candles hcandles
    refine ⟨fun q other hother => ?_⟩
    by_cases hq : q = symbol
    · -- A symbol without charts starts with empty windows.
      have hbefore : List.Forall₂
          (fun rows interval => CandleWindow.Unbroken (interval * 1000) rows)
          (cache.symbols.getD symbol .default).windows candleIntervals := by
        cases hget : cache.symbols.get? symbol with
        | none =>
            have hempty : cache.symbols.getD symbol .default = SymbolCandles.default := by
              simp [SortedMap.getD, hget]
            rw [hempty]
            exact List.forall₂_map_left_iff.2 (List.forall₂_same.2 (fun i _ => unbroken_nil i))
        | some before =>
            have hsome : cache.symbols.getD symbol .default = before := by
              simp [SortedMap.getD, hget]
            rw [hsome]
            exact h.windows symbol before hget
      have hother : candles = other := by simpa [hq] using hother
      subst hother
      simp only [recordIn] at hcandles
      split_ifs at hcandles
      obtain ⟨windows, hwindows, rfl⟩ := Option.map_eq_some_iff.1 hcandles
      exact forall₂_mapM_record (by decide) hbefore hwindows
    · exact h.windows q other (by simpa [hq] using hother)

theorem Charts.follow {cache : CandleCache} (h : Charts cache) (change : Change) :
    Charts (cache.follow change) := by
  cases change with
  | traded row => exact h.record _ _ _ _
  | _ => exact h

end CandleCache

/-! ## The engine with its chart view -/

/-- An engine and the chart view its trades are recorded in. -/
structure Charted where
  engine : MatcherState
  candles : CandleCache

namespace Charted

/-- Runs one message. The chart view records each of its trades as the trade is made. -/
def apply (env : Primitives) (c : Charted) (message : OrderMessage) (received : Option Bytes) :
    Except Fault Charted := do
  let engine ← c.engine.apply env message received
  let done ← c.engine.effect env message received
  return { engine := engine, candles := done.changes.foldl CandleCache.follow c.candles }

/-- The engines a run reaches, each with its chart view. -/
inductive Reachable (env : Primitives) : Charted → Prop
  | genesis {genesis : ExecutionGenesis} {session pubkey : Option String} {recording : Bool}
      {s : MatcherState} (h : genesis.opening session pubkey recording = .ok s) :
      Reachable env ⟨s, .default⟩
  | applied {c c' : Charted} {message : OrderMessage} {received : Option Bytes}
      (hc : Reachable env c) (h : c.apply env message received = .ok c') : Reachable env c'

theorem apply_eq_ok {env : Primitives} {c c' : Charted} {message : OrderMessage}
    {received : Option Bytes} (h : c.apply env message received = .ok c') :
    ∃ done, c.engine.apply env message received = .ok c'.engine ∧
      c.engine.effect env message received = .ok done ∧
      c'.candles = done.changes.foldl CandleCache.follow c.candles := by
  simp only [apply, bind_eq_ok] at h
  obtain ⟨engine, hengine, done, hdone, h⟩ := h
  cases h
  exact ⟨done, hengine, hdone, rfl⟩

/-- Over every run, each chart window is one run of buckets without a hole. -/
theorem Reachable.charts {env : Primitives} {c : Charted} (h : Reachable env c) :
    c.candles.Charts := by
  induction h with
  | genesis h => exact CandleCache.charts_default
  | applied _ h ih =>
      obtain ⟨done, -, -, hcandles⟩ := apply_eq_ok h
      rw [hcandles]
      exact List.foldlRecOn done.changes CandleCache.follow ih
        (fun cache hcache change _ => hcache.follow change)

theorem Reachable.engine {env : Primitives} {c : Charted} (h : Reachable env c) :
    MatcherState.Reachable env c.engine := by
  induction h with
  | genesis h => exact .genesis h
  | applied _ h ih =>
      obtain ⟨_, happly, -, -⟩ := apply_eq_ok h
      exact .applied ih happly

end Charted

end Matcher
end VerifiableExchange
