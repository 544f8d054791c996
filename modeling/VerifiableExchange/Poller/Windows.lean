import VerifiableExchange.Matcher.ReferenceRuns
import VerifiableExchange.Poller.Restore

/-!
# Windows — the watched mid prices, stored and read back

The stored rows of a window carry its samples and its opening, and the sums are worked out again
from them. Every window the engine keeps reads back as it was. A row that reads back need not be one
the engine could have written: the opening it names is not compared with its samples.
-/

namespace VerifiableExchange
namespace Matcher

open Lib Store

/-! ## The sums of a stored window -/

namespace SymbolWindow

theorem closing_eq (clipMs : Nat) (first next : Sample) (sums : Sums) :
    closing clipMs first next sums =
      sums + Sums.ofHold first.2 (next.1 - max first.1 clipMs) := by
  unfold closing
  cases hmid : first.2 with
  | none => exact (add_zero sums).symm
  | some mid => rfl

/-- The sums added up from the oldest sample on are the sums of the closed samples. -/
theorem closedSums_eq (clipMs : Nat) : ∀ (samples : List Sample) (sums : Sums),
    closedSums clipMs samples sums = sums + MidWindow.closedSums clipMs samples
  | [], sums => (add_zero sums).symm
  | [_], sums => (add_zero sums).symm
  | first :: second :: rest, sums => by
      rw [closedSums, closedSums_eq clipMs (second :: rest), closing_eq, MidWindow.closedSums,
        Sums.add_eq, add_assoc]

/-- A window as its row. -/
def row (w : SymbolWindow) : MidWindowRow := ⟨w.clipMs, w.samples⟩

theorem Coherent.sound_iff {w : SymbolWindow} (h : Coherent w) :
    MidWindow.sound w.row ↔ ∀ sample ∈ w.samples, ∀ mid, sample.2 = some mid → 0 < mid := by
  have hchain : (w.samples.map Prod.fst).IsChain (· < ·) :=
    (rising_iff_times.1 h.rising).isChain
  exact ⟨fun hsound => hsound.2.2.2, fun hpositive =>
    ⟨h.recorded, h.length_le, hchain, hpositive⟩⟩

/-- A window read back from its row. -/
theorem Coherent.read_row {w : SymbolWindow} (h : Coherent w) :
    (⟨w.samples, (closedSums w.clipMs w.samples (0, 0)).1,
      (closedSums w.clipMs w.samples (0, 0)).2, w.clipMs⟩ : SymbolWindow) = w := by
  have hsums : closedSums w.clipMs w.samples (0, 0) = (w.closedWeighted, w.closedWeight) := by
    rw [closedSums_eq, h.sums]
    exact zero_add _
  rw [hsums]

end SymbolWindow

/-! ## What is written reads back -/

namespace MidWindow

/-- Every symbol's window is one something was recorded into. -/
def Coherent (mids : MidWindow) : Prop := ∀ symbol w, mids.get? symbol = some w → w.Coherent

/-- Every mid of every window is one a book can show. -/
def Positive (mids : MidWindow) : Prop :=
  ∀ symbol w, mids.get? symbol = some w → ∀ sample ∈ w.samples, ∀ mid, sample.2 = some mid → 0 < mid

theorem restore_eq_ok {rows : SortedMap String MidWindowRow} {mids : MidWindow} :
    restore rows = .ok mids ↔
      (∀ symbol row, rows.get? symbol = some row → sound row) ∧
        mids = rows.mapValues fun row =>
          { samples := row.samples
            closedWeighted := (SymbolWindow.closedSums row.clipMs row.samples (0, 0)).1
            closedWeight := (SymbolWindow.closedSums row.clipMs row.samples (0, 0)).2
            clipMs := row.clipMs } := by
  simp only [restore, bind_eq_ok]
  constructor
  · rintro ⟨⟨⟩, hsound, h⟩
    cases h
    refine ⟨fun symbol row hrow => ?_, rfl⟩
    exact require_eq_ok.1 (forM_eq_ok.1 hsound (symbol, row) (SortedMap.mem_entries.2 hrow))
  · rintro ⟨hsound, rfl⟩
    refine ⟨⟨⟩, forM_eq_ok.2 (fun e he => ?_), rfl⟩
    exact require_eq_ok.2 (hsound e.1 e.2 (SortedMap.mem_entries.1 he))

/-- Coherent windows read back exactly when every mid in them is positive. -/
theorem Coherent.restore_snapshot_iff {mids : MidWindow} (h : mids.Coherent) :
    restore mids.snapshot = .ok mids ↔ mids.Positive := by
  rw [restore_eq_ok]
  have hrow : ∀ symbol, mids.snapshot.get? symbol = (mids.get? symbol).map SymbolWindow.row :=
    fun symbol => SortedMap.get?_mapValues _ _ _
  constructor
  · rintro ⟨hsound, -⟩ symbol w hw
    have hread := hsound symbol w.row (by rw [hrow, hw]; rfl)
    exact (h symbol w hw).sound_iff.1 hread
  · intro hpositive
    refine ⟨fun symbol row hget => ?_, SortedMap.ext (fun symbol => ?_)⟩
    · rw [hrow] at hget
      obtain ⟨w, hw, rfl⟩ := Option.map_eq_some_iff.1 hget
      exact (h symbol w hw).sound_iff.2 (hpositive symbol w hw)
    · rw [SortedMap.get?_mapValues, hrow]
      cases hw : mids.get? symbol with
      | none => rfl
      | some w => exact congrArg some (h symbol w hw).read_row.symm

theorem coherent_observeAll (observations : List Observation) :
    (observeAll SortedMap.empty observations).Coherent := by
  intro symbol w hw
  rw [get?_observeAll] at hw
  split at hw
  case isTrue => cases hw
  case isFalse hne =>
    cases hw
    match hown : ofSymbol symbol observations, hne with
    | first :: rest, _ =>
        exact (SymbolWindow.coherent_first first.1 first.2).observeAll rest

/-- Windows that read back are written as the rows they were read from. -/
theorem snapshot_restore {rows : SortedMap String MidWindowRow} {mids : MidWindow}
    (h : restore rows = .ok mids) : mids.snapshot = rows := by
  obtain ⟨-, rfl⟩ := restore_eq_ok.1 h
  refine SortedMap.ext (fun symbol => ?_)
  unfold snapshot
  rw [SortedMap.get?_mapValues, SortedMap.get?_mapValues]
  cases rows.get? symbol <;> rfl

/-! ## Which rows a run can have written -/

/-- The opening lies where a run can leave it: only the first sample starts at or before it, no
sample lies past the window, and the window ends at a timestamp there is. -/
structure Reached (row : MidWindowRow) : Prop where
  opened : ∀ sample ∈ row.samples.tail, row.clipMs < sample.1
  span : ∀ sample ∈ row.samples, sample.1 ≤ row.clipMs + windowMs
  counted : row.clipMs + windowMs ≤ u64Max

end MidWindow

namespace SymbolWindow

theorem Coherent.lt_of_mem_tail {w : SymbolWindow} (h : Coherent w) {sample : Sample}
    (hsample : sample ∈ w.samples.tail) : w.clipMs < sample.1 := by
  match hsamples : w.samples with
  | [] =>
      rw [hsamples] at hsample
      cases hsample
  | [_] =>
      rw [hsamples] at hsample
      cases hsample
  | first :: second :: rest =>
      have hsecond := h.opened first second rest hsamples
      have hrising := h.rising
      rw [hsamples] at hsample hrising
      rcases List.mem_cons.1 hsample with rfl | hlater
      · exact hsecond
      · have hpairs := List.pairwise_cons.1 (List.pairwise_cons.1 hrising).2
        exact hsecond.trans (hpairs.1 sample hlater)

theorem clipMs_observe {w : SymbolWindow} {newest : Sample} (h : w.samples.getLast? = some newest)
    (atMs : Nat) (mid : Option Int) :
    (w.observe atMs mid).clipMs = max atMs newest.1 - windowMs := by
  unfold SymbolWindow.observe
  rw [h]
  simp only
  split_ifs <;> rfl

/-- Timestamps of 64 bits leave an opening whose window ends at one. -/
theorem counted_observeAll : ∀ {observed : List Sample} {w : SymbolWindow}, w.Coherent →
    w.clipMs + windowMs ≤ u64Max → (∀ sample ∈ observed, sample.1 ≤ u64Max) →
      (w.observeAll observed).clipMs + windowMs ≤ u64Max
  | [], _, _, hcounted, _ => hcounted
  | sample :: rest, w, h, hcounted, hstamped => by
      obtain ⟨hfirst, hrest⟩ := List.forall_mem_cons.1 hstamped
      obtain ⟨newest, hlast⟩ : ∃ newest, w.samples.getLast? = some newest :=
        Option.ne_none_iff_exists'.1 (mt List.getLast?_eq_none_iff.1 h.recorded)
      have hnewest : newest.1 ≤ u64Max := (h.span _ (List.mem_of_getLast? hlast)).trans hcounted
      have hnext : (w.observe sample.1 sample.2).clipMs + windowMs ≤ u64Max := by
        have hwindow : windowMs ≤ u64Max := by decide
        rw [clipMs_observe hlast]
        omega
      exact @counted_observeAll rest _ (h.observe sample.1 sample.2) hnext hrest

/-! ## A run that leaves given samples -/

theorem dropBefore_eq_self {clip : Nat} {samples : List Sample}
    (h : ∀ sample ∈ samples.tail, clip < sample.1) : dropBefore clip samples = samples := by
  match samples, h with
  | [], _ => rfl
  | [_], _ => rfl
  | first :: second :: rest, h =>
      rw [dropBefore, if_neg (not_le.2 (h second List.mem_cons_self))]

/-- A mid that is not this one. -/
def otherMid (mid : Option Int) : Option Int := if mid = none then some 1 else none

theorem otherMid_ne (mid : Option Int) : mid ≠ otherMid mid := by
  unfold otherMid
  cases mid <;> simp

/-- Observations that add the samples one by one after a sample of mid `before`: another mid opens
the sample, and its own mid follows in the same millisecond. -/
def restated : Option Int → List Sample → List Sample
  | _, [] => []
  | before, (start, mid) :: rest =>
      (start, otherMid before) :: (start, mid) :: restated mid rest

theorem mem_restated {sample : Sample} : ∀ {samples : List Sample} {before : Option Int},
    sample ∈ restated before samples → ∃ source ∈ samples, source.1 = sample.1
  | [], _, h => nomatch h
  | (start, mid) :: rest, before, h => by
      rcases List.mem_cons.1 h with rfl | h
      · exact ⟨_, List.mem_cons_self, rfl⟩
      · rcases List.mem_cons.1 h with rfl | h
        · exact ⟨_, List.mem_cons_self, rfl⟩
        · obtain ⟨source, hsource, heq⟩ := mem_restated h
          exact ⟨source, List.mem_cons_of_mem _ hsource, heq⟩

/-- One sample more, stated twice. -/
theorem observe_restated {w : SymbolWindow} {samples : List Sample} {newest : Sample}
    {start clip : Nat} {mid : Option Int} (hsamples : w.samples = samples ++ [newest])
    (hnewer : newest.1 < start) (hlate : ∀ sample ∈ (samples ++ [newest]).tail, clip < sample.1)
    (hclip : clip < start) (hspan : start ≤ clip + windowMs) :
    ((w.observe start (otherMid newest.2)).observe start mid).samples =
      samples ++ [newest] ++ [(start, mid)] := by
  have hlast : w.samples.getLast? = some newest := by
    rw [hsamples, List.getLast?_concat]
  have hkept : ∀ shown : Option Int,
      dropBefore (start - windowMs) (samples ++ [newest] ++ [(start, shown)]) =
        samples ++ [newest] ++ [(start, shown)] := by
    intro shown
    refine dropBefore_eq_self (fun sample hsample => ?_)
    rw [List.tail_append_of_ne_nil (List.append_ne_nil_of_right_ne_nil _ (List.cons_ne_nil _ _))]
      at hsample
    rcases List.mem_append.1 hsample with hold | hnew
    · have hlt := hlate sample hold
      omega
    · rw [List.mem_singleton.1 hnew]
      have hwindow : 0 < windowMs := by decide
      show start - windowMs < start
      omega
  have hopened : (w.observe start (otherMid newest.2)).samples =
      samples ++ [newest] ++ [(start, otherMid newest.2)] := by
    have hmax : max start newest.1 = start := max_eq_left hnewer.le
    rw [← hkept]
    unfold SymbolWindow.observe
    rw [hlast]
    simp only [hmax]
    rw [if_neg hnewer.ne, if_neg (otherMid_ne newest.2), hsamples]
    rfl
  have hopen : (w.observe start (otherMid newest.2)).samples.getLast? =
      some (start, otherMid newest.2) := by
    rw [hopened, List.getLast?_concat]
  generalize w.observe start (otherMid newest.2) = next at hopened hopen
  rw [← hkept]
  unfold SymbolWindow.observe
  rw [hopen]
  simp only [max_self, if_true]
  rw [hopened, setNewestMid_append]
  rfl

/-- A window takes samples that all lie where an opening leaves them, and drops none. -/
theorem samples_observeAll_restated {clip : Nat} : ∀ {rest samples : List Sample}
    {newest : Sample} {w : SymbolWindow}, w.samples = samples ++ [newest] →
      Rising (samples ++ [newest] ++ rest) →
      (∀ sample ∈ (samples ++ [newest] ++ rest).tail, clip < sample.1) →
      (∀ sample ∈ rest, sample.1 ≤ clip + windowMs) →
        (w.observeAll (restated newest.2 rest)).samples = samples ++ [newest] ++ rest
  | [], samples, newest, w, hsamples, _, _, _ => by
      rw [List.append_nil]
      exact hsamples
  | (start, mid) :: rest, samples, newest, w, hsamples, hrising, hlate, hspan => by
      obtain ⟨hfirst, hrest⟩ := List.forall_mem_cons.1 hspan
      have hne : samples ++ [newest] ≠ [] :=
        List.append_ne_nil_of_right_ne_nil _ (List.cons_ne_nil _ _)
      have htail : (samples ++ [newest] ++ (start, mid) :: rest).tail =
          (samples ++ [newest]).tail ++ (start, mid) :: rest := List.tail_append_of_ne_nil hne
      have hnewer : newest.1 < start := (List.pairwise_append.1 hrising).2.2 newest
        (List.mem_append_right _ (List.mem_singleton_self _)) (start, mid) List.mem_cons_self
      have hstep := @observe_restated w samples newest start clip mid hsamples hnewer
        (fun sample hsample => hlate sample (htail ▸ List.mem_append_left _ hsample))
        (hlate (start, mid) (htail ▸ List.mem_append_right _ List.mem_cons_self)) hfirst
      have hsplit : samples ++ [newest] ++ (start, mid) :: rest =
          (samples ++ [newest]) ++ [(start, mid)] ++ rest := by simp
      rw [hsplit] at hrising hlate ⊢
      exact samples_observeAll_restated hstep hrising hlate hrest

/-- The newest mid once more, at a timestamp that moves the opening and drops no sample. -/
theorem row_observe_closing {w : SymbolWindow} {newest : Sample} {clip : Nat}
    (hlast : w.samples.getLast? = some newest) (hspan : newest.1 ≤ clip + windowMs)
    (hopened : ∀ sample ∈ w.samples.tail, clip < sample.1) :
    (w.observe (clip + windowMs) newest.2).row = ⟨clip, w.samples⟩ := by
  obtain ⟨front, hfront⟩ := List.getLast?_eq_some_iff.1 hlast
  have hsame : setNewestMid newest.2 w.samples = w.samples := by
    rw [hfront, setNewestMid_append]
  have hkept : dropBefore clip w.samples = w.samples := dropBefore_eq_self hopened
  unfold SymbolWindow.observe
  rw [hlast]
  simp only [max_eq_left hspan, if_true, Nat.add_sub_cancel]
  split
  case isTrue => simp only [row, clipTo, hsame, hkept]
  case isFalse => simp only [row, clipTo, hkept]

/-- Observations that leave a window with a row. -/
def historyOf (row : MidWindowRow) : List Sample :=
  match row.samples with
  | [] => []
  | first :: rest =>
      first :: (restated first.2 rest ++
        [(row.clipMs + windowMs, (rest.getLast?.getD first).2)])

theorem row_observeAll_historyOf {row : MidWindowRow} (hsound : MidWindow.sound row)
    (h : MidWindow.Reached row) : (default.observeAll (historyOf row)).row = row := by
  obtain ⟨clip, samples⟩ := row
  obtain ⟨hne, -, hchain, -⟩ := hsound
  obtain ⟨hopened, hspan, -⟩ := h
  match samples with
  | [] => exact absurd rfl hne
  | first :: rest =>
      have hrising : Rising (first :: rest) := rising_iff_times.2 hchain.pairwise
      have hfirst : (default.observe first.1 first.2).samples = [] ++ [first] := rfl
      have htaken := samples_observeAll_restated hfirst hrising hopened
        (fun sample hsample => hspan sample (List.mem_cons_of_mem _ hsample))
      have hlast : (first :: rest).getLast? = some (rest.getLast?.getD first) := by
        rw [List.getLast?_cons]
      unfold historyOf SymbolWindow.observeAll
      rw [List.foldl_cons, List.foldl_append]
      generalize hw : (default.observe first.1 first.2).observeAll (restated first.2 rest) = w
        at htaken
      have hsamples : w.samples = first :: rest := htaken
      have hclose := @row_observe_closing w (rest.getLast?.getD first) clip
        (hsamples ▸ hlast) (hspan _ (List.mem_of_getLast? hlast)) (hsamples ▸ hopened)
      rw [hsamples] at hclose
      subst hw
      exact hclose

theorem mem_historyOf {row : MidWindowRow} (h : MidWindow.Reached row) {sample : Sample}
    (hsample : sample ∈ historyOf row) : sample.1 ≤ u64Max := by
  have hkept : ∀ source ∈ row.samples, source.1 ≤ u64Max := fun source hsource =>
    (h.span source hsource).trans h.counted
  unfold historyOf at hsample
  match hsamples : row.samples with
  | [] =>
      rw [hsamples] at hsample
      cases hsample
  | first :: rest =>
      rw [hsamples] at hsample hkept
      rcases List.mem_cons.1 hsample with rfl | hsample
      · exact hkept _ List.mem_cons_self
      · rcases List.mem_append.1 hsample with hrestated | hclosing
        · obtain ⟨source, hsource, heq⟩ := mem_restated hrestated
          exact heq ▸ hkept source (List.mem_cons_of_mem _ hsource)
        · rw [List.mem_singleton.1 hclosing]
          exact h.counted

theorem historyOf_ne_nil {row : MidWindowRow} (h : row.samples ≠ []) : historyOf row ≠ [] := by
  unfold historyOf
  match hsamples : row.samples with
  | [] => exact absurd hsamples h
  | _ :: _ => exact List.cons_ne_nil _ _

end SymbolWindow

namespace MidWindow

/-- Every observation carries a timestamp there is. -/
def Stamped (observations : List Observation) : Prop :=
  ∀ observed ∈ observations, observed.atMs ≤ u64Max

/-- The rows some run of observations leaves behind. -/
def Written (rows : SortedMap String MidWindowRow) : Prop :=
  ∃ observations, Stamped observations ∧
    (observeAll SortedMap.empty observations).snapshot = rows

/-- A symbol's observations. -/
def observationsOf (e : String × MidWindowRow) : List Observation :=
  (SymbolWindow.historyOf e.2).map (fun sample => ⟨e.1, sample.1, sample.2⟩)

theorem ofSymbol_append (symbol : String) (front rest : List Observation) :
    ofSymbol symbol (front ++ rest) = ofSymbol symbol front ++ ofSymbol symbol rest := by
  simp [ofSymbol]

theorem ofSymbol_observationsOf (symbol : String) (e : String × MidWindowRow) :
    ofSymbol symbol (observationsOf e) =
      if e.1 = symbol then SymbolWindow.historyOf e.2 else [] := by
  unfold ofSymbol observationsOf
  rw [List.filter_map, List.map_map]
  by_cases hsymbol : e.1 = symbol
  · rw [if_pos hsymbol]
    simp [Function.comp_def, hsymbol]
  · rw [if_neg hsymbol]
    simp [Function.comp_def, hsymbol]

theorem ofSymbol_flatMap (symbol : String) : ∀ entries : List (String × MidWindowRow),
    (entries.map Prod.fst).Nodup →
      ofSymbol symbol (entries.flatMap observationsOf) =
        ((Entries.lookup symbol entries).map SymbolWindow.historyOf).getD []
  | [], _ => rfl
  | e :: rest, hnodup => by
      obtain ⟨hnot, hrest⟩ := List.nodup_cons.1 hnodup
      rw [List.flatMap_cons, ofSymbol_append, ofSymbol_observationsOf,
        ofSymbol_flatMap symbol rest hrest, Entries.lookup]
      by_cases hsymbol : e.1 = symbol
      · -- The keys are distinct, so no later row is this symbol's.
        have hnone : Entries.lookup symbol rest = none := by
          cases hlookup : Entries.lookup symbol rest with
          | none => rfl
          | some row =>
              have hmem := List.mem_map_of_mem (f := Prod.fst) (Entries.mem_of_lookup hlookup)
              exact absurd hmem (hsymbol ▸ hnot)
        simp [hsymbol, hnone]
      · simp [hsymbol, Ne.symm hsymbol]

/-- Rows whose openings lie where a run can leave them are written by one. -/
theorem written_of_reached {rows : SortedMap String MidWindowRow}
    (hsound : ∀ symbol row, rows.get? symbol = some row → sound row)
    (h : ∀ symbol row, rows.get? symbol = some row → Reached row) : Written rows := by
  refine ⟨rows.entries.flatMap observationsOf, ?_, SortedMap.ext (fun symbol => ?_)⟩
  · intro observed hobserved
    obtain ⟨e, he, hin⟩ := List.mem_flatMap.1 hobserved
    obtain ⟨sample, hsample, rfl⟩ := List.mem_map.1 hin
    exact SymbolWindow.mem_historyOf (h e.1 e.2 (SortedMap.mem_entries.1 he)) hsample
  · have hown : ofSymbol symbol (rows.entries.flatMap observationsOf) =
        ((rows.get? symbol).map SymbolWindow.historyOf).getD [] :=
      ofSymbol_flatMap symbol rows.entries rows.nodup_keys
    unfold snapshot
    rw [SortedMap.get?_mapValues, get?_observeAll, hown]
    cases hrow : rows.get? symbol with
    | none => rfl
    | some row =>
        have hrowSound := hsound symbol row hrow
        have hne : SymbolWindow.historyOf row ≠ [] :=
          SymbolWindow.historyOf_ne_nil hrowSound.1
        simp only [Option.map_some, Option.getD_some, if_neg hne]
        exact congrArg some
          (SymbolWindow.row_observeAll_historyOf hrowSound (h symbol row hrow))

/-- A run leaves every opening where the rows must have it. -/
theorem reached_of_written {rows : SortedMap String MidWindowRow} (h : Written rows)
    {symbol : String} {row : MidWindowRow} (hrow : rows.get? symbol = some row) : Reached row := by
  obtain ⟨observations, hstamped, rfl⟩ := h
  unfold snapshot at hrow
  rw [SortedMap.get?_mapValues] at hrow
  obtain ⟨w, hw, rfl⟩ := Option.map_eq_some_iff.1 hrow
  have hcoherent : w.Coherent := coherent_observeAll observations symbol w hw
  have hcounted : w.clipMs + windowMs ≤ u64Max := by
    have hown : ∀ sample ∈ ofSymbol symbol observations, sample.1 ≤ u64Max := by
      intro sample hsample
      obtain ⟨observed, hobserved, rfl⟩ := List.mem_map.1 hsample
      exact hstamped observed (List.mem_of_mem_filter hobserved)
    rw [get?_observeAll] at hw
    split at hw
    case isTrue => cases hw
    case isFalse hne =>
      cases hw
      match ofSymbol symbol observations, hne, hown with
      | first :: rest, _, hown =>
          obtain ⟨hfirst, hrest⟩ := List.forall_mem_cons.1 hown
          have hopen : (SymbolWindow.default.observe first.1 first.2).clipMs + windowMs ≤
              u64Max := by
            have hwindow : windowMs ≤ u64Max := by decide
            show first.1 - windowMs + windowMs ≤ u64Max
            omega
          exact @SymbolWindow.counted_observeAll rest _
            (SymbolWindow.coherent_first first.1 first.2) hopen hrest
  exact ⟨fun sample hsample => hcoherent.lt_of_mem_tail hsample, hcoherent.span, hcounted⟩

/-- The windows of a run read back as they are exactly when their mids are positive. Rows that read
back are rows a run leaves behind exactly when their openings lie where a run can leave them. -/
theorem restores_iff (observations : List Observation) (rows : SortedMap String MidWindowRow) :
    (restore (observeAll SortedMap.empty observations).snapshot =
          .ok (observeAll SortedMap.empty observations) ∧
        ((∃ mids, restore rows = .ok mids) → Written rows)) ↔
      (observeAll SortedMap.empty observations).Positive ∧
        ((∃ symbol row, rows.get? symbol = some row ∧ ¬ sound row) ∨
          ∀ symbol row, rows.get? symbol = some row → Reached row) := by
  rw [(coherent_observeAll observations).restore_snapshot_iff]
  refine and_congr_right (fun _ => ⟨fun hwritten => ?_, ?_⟩)
  · by_cases hsound : ∀ symbol row, rows.get? symbol = some row → sound row
    · have hread := hwritten ⟨_, restore_eq_ok.2 ⟨hsound, rfl⟩⟩
      exact .inr (fun symbol row hrow => reached_of_written hread hrow)
    · push Not at hsound
      exact .inl hsound
  · rintro hrows ⟨mids, hread⟩
    obtain ⟨hsound, -⟩ := restore_eq_ok.1 hread
    rcases hrows with ⟨symbol, row, hrow, hnot⟩ | hreached
    · exact absurd (hsound symbol row hrow) hnot
    · exact written_of_reached hsound hreached

/-- A row whose opening lies past its second sample. -/
def openedLate : SortedMap String MidWindowRow :=
  SortedMap.ofList [("ETH-USDC", ⟨500, [(0, some 100), (100, some 200), (1000, some 300)]⟩)]

/-- The row reads back and no run leaves it. One observation later the sums it was given are not
those of its samples, and the reference price is another one. -/
theorem openedLate_restores :
    (∃ mids, restore openedLate = .ok mids ∧
      (let window := (mids.observe "ETH-USDC" 1001 (some 400)).getD "ETH-USDC" .default
      window.sumsAt 1001 0 ≠ SymbolWindow.walked 1001 0 window.samples) ∧
      (mids.observe "ETH-USDC" 1001 (some 400)).referenceCents "ETH-USDC" 1001 = some 183) ∧
    ¬ Written openedLate := by
  refine ⟨⟨_, rfl, by decide, by decide⟩, fun hwritten => ?_⟩
  have hreached := @reached_of_written openedLate hwritten "ETH-USDC" _ rfl
  exact absurd (hreached.opened (100, some 200) (by decide)) (by decide)

end MidWindow

end Matcher
end VerifiableExchange
