import VerifiableExchange.Matcher.TimeWeighted

/-!
# ReferenceRuns — the window's answers over a whole run of observations

A repeated mid is dropped and its timestamp with it. So the newest kept sample may stand before the
largest timestamp seen, and a later message with a timestamp in between is placed there and not at
that largest timestamp. A run in which no message does that answers as the definition says.
-/

namespace VerifiableExchange
namespace Matcher

open Lib Lib.StepFunction

/-- One call of `observe`. -/
structure Observation where
  symbol : String
  atMs : Nat
  midCents : Option Int
  deriving DecidableEq

/-- The samples of one symbol, as they were handed in. -/
def ofSymbol (symbol : String) (observations : List Observation) : List Sample :=
  (observations.filter (fun observed => observed.symbol = symbol)).map
    (fun observed => (observed.atMs, observed.midCents))

namespace SymbolWindow

def observeAll (w : SymbolWindow) (observed : List Sample) : SymbolWindow :=
  observed.foldl (fun w sample => w.observe sample.1 sample.2) w

/-- The message reaches the largest timestamp seen, or the newest kept sample stands there, or the
mid is the one the window already ends with. -/
def Advances (latest : Nat) (w : SymbolWindow) (sample : Sample) : Prop :=
  latest ≤ sample.1 ∨
    ∀ newest, w.samples.getLast? = some newest → newest.1 = latest ∨ newest.2 = sample.2

/-- Every observation of a run advances the window, or leaves it where it is. -/
def AlwaysAdvances (latest : Nat) (w : SymbolWindow) : List Sample → Prop
  | [] => True
  | sample :: rest =>
      w.Advances latest sample ∧
        AlwaysAdvances (max latest sample.1) (w.observe sample.1 sample.2) rest

theorem Coherent.observeAll {w : SymbolWindow} (h : Coherent w) (observed : List Sample) :
    Coherent (w.observeAll observed) := by
  induction observed generalizing w with
  | nil => exact h
  | cons sample rest ih => exact ih (h.observe sample.1 sample.2)

/-- Whatever was observed, the running sums answer as the walk over the kept samples does. -/
theorem sumsAt_observeAll (observed : List Sample) (atMs opensAt : Nat) :
    (SymbolWindow.default.observeAll observed).sumsAt atMs opensAt =
      walked atMs opensAt (SymbolWindow.default.observeAll observed).samples := by
  cases observed with
  | nil => rfl
  | cons first rest =>
      have hcoherent := (coherent_first first.1 first.2).observeAll rest
      exact hcoherent.sumsAt_eq atMs opensAt

theorem observe_first (atMs : Nat) (mid : Option Int) :
    (SymbolWindow.default.observe atMs mid).samples = [(atMs, mid)] := rfl

/-- One observation, on a window that agrees with what was placed. -/
theorem Advances.observe {latest : Nat} {placed : List Sample} {w : SymbolWindow}
    {sample : Sample} (h : Agrees latest placed w.samples) (hadvances : w.Advances latest sample) :
    Agrees (max latest sample.1) (placed ++ [(max latest sample.1, sample.2)])
      (w.observe sample.1 sample.2).samples := by
  obtain ⟨atMs, mid⟩ := sample
  obtain ⟨⟨last, newestMid⟩, hlast⟩ : ∃ newest, w.samples.getLast? = some newest :=
    Option.ne_none_iff_exists'.1 (mt List.getLast?_eq_none_iff.1 h.recorded)
  have hlatest : last ≤ latest := h.newest _ (List.mem_of_getLast? hlast)
  have hreach : newestMid ≠ mid → latest ≤ atMs ∨ last = latest := by
    intro hother
    exact hadvances.imp_right (fun hor => (hor (last, newestMid) hlast).resolve_right hother)
  have hmax : latest ≤ max latest atMs := le_max_left _ _
  -- A mid that the window already ends with is shown from its newest sample on.
  have hrepeat : newestMid = mid → ∀ moment,
      shownAt w.samples moment =
        if max latest atMs ≤ moment then mid else shownAt w.samples moment := by
    intro hsame moment
    split
    case isTrue hle => exact (shownAt_newest hlast (hlatest.trans (hmax.trans hle))).trans hsame
    case isFalse => rfl
  unfold SymbolWindow.observe
  rw [hlast]
  simp only
  by_cases hopen : last = max atMs last
  · -- The newest sample takes the new mid.
    rw [if_pos hopen]
    refine h.setNewest hmax (by omega) (fun moment => ?_)
    rw [shownAt_setNewestMid hlast]
    by_cases hsame : newestMid = mid
    · -- It is the mid it had.
      rw [← hrepeat hsame moment]
      split
      case isTrue hle => exact ((shownAt_newest hlast hle).trans hsame).symm
      case isFalse => rfl
    · -- Then the newest sample stands at the largest timestamp.
      have hat : max latest atMs = last := by
        have hreached := hreach hsame
        omega
      rw [hat]
  · rw [if_neg hopen]
    by_cases hsame : newestMid = mid
    · -- Nothing joins the samples.
      rw [if_pos hsame]
      exact h.step hmax (by omega) h.rising h.recorded rfl
        (fun kept hkept => (h.newest kept hkept).trans hmax) (hrepeat hsame)
    · rw [if_neg hsame]
      have hat : max atMs last = max latest atMs := by
        have hreached := hreach hsame
        omega
      rw [hat]
      refine h.push mid hmax le_rfl (fun kept hkept => ?_)
      exact (h.rising.le_getLast hlast hkept).trans_lt (by omega)

/-- A whole run on a window that agrees with what was placed. -/
theorem AlwaysAdvances.observeAll {observed : List Sample} :
    ∀ {latest : Nat} {placed : List Sample} {w : SymbolWindow},
      Agrees latest placed w.samples → Coherent w → AlwaysAdvances latest w observed →
        Agrees (latestFrom latest observed) (placed ++ placedFrom latest observed)
            (w.observeAll observed).samples ∧
          Coherent (w.observeAll observed) := by
  induction observed with
  | nil =>
      intro latest placed w h hcoherent _
      rw [placedFrom, List.append_nil]
      exact ⟨h, hcoherent⟩
  | cons sample rest ih =>
      intro latest placed w h hcoherent ⟨hadvances, hrest⟩
      have hnext := ih (hadvances.observe h) (hcoherent.observe sample.1 sample.2) hrest
      rw [List.append_assoc] at hnext
      exact hnext

/-- A run from the empty window. -/
theorem AlwaysAdvances.fromDefault {observed : List Sample} (hne : observed ≠ [])
    (h : AlwaysAdvances 0 SymbolWindow.default observed) :
    Agrees (latestFrom 0 observed) (placed observed)
        (SymbolWindow.default.observeAll observed).samples ∧
      Coherent (SymbolWindow.default.observeAll observed) := by
  match observed, hne, h with
  | (atMs, mid) :: rest, _, ⟨_, hrest⟩ =>
      rw [Nat.zero_max] at hrest
      have hfirst : Agrees atMs [(atMs, mid)] (SymbolWindow.default.observe atMs mid).samples :=
        observe_first atMs mid ▸ agrees_first atMs mid
      have hrun := hrest.observeAll hfirst (coherent_first atMs mid)
      simpa [placed, placedFrom, latestFrom, SymbolWindow.observeAll] using hrun

/-- Timestamps that do not go down always advance the window. -/
theorem alwaysAdvances_of_ordered : ∀ {observed : List Sample} {latest : Nat} {w : SymbolWindow},
    Ordered observed → (∀ sample ∈ observed, latest ≤ sample.1) → AlwaysAdvances latest w observed
  | [], _, _, _, _ => trivial
  | sample :: rest, latest, w, hordered, hlatest => by
      obtain ⟨hfirst, hrest⟩ := List.pairwise_cons.1 hordered
      have hle : latest ≤ sample.1 := hlatest sample List.mem_cons_self
      refine ⟨.inl hle, alwaysAdvances_of_ordered hrest (fun later hlater => ?_)⟩
      rw [max_eq_right hle]
      exact hfirst later hlater

end SymbolWindow

/-! ## All symbols -/

theorem mem_placedFrom {sample : Sample} : ∀ {observed : List Sample} {latest : Nat},
    sample ∈ placedFrom latest observed → ∃ seen ∈ observed, seen.2 = sample.2
  | [], _, h => nomatch h
  | (atMs, mid) :: rest, latest, h => by
      rcases List.mem_cons.1 h with rfl | h
      · exact ⟨(atMs, mid), List.mem_cons_self, rfl⟩
      · obtain ⟨seen, hseen, heq⟩ := mem_placedFrom h
        exact ⟨seen, List.mem_cons_of_mem _ hseen, heq⟩

/-- A map with one state for each symbol, where every observation moves its own symbol's. -/
theorem get?_foldl_ofSymbol {State : Type} (start : State) (step : State → Sample → State)
    (symbol : String) : ∀ (observations : List Observation) (states : SortedMap String State),
    (observations.foldl (fun states observed =>
        states.insert observed.symbol
          (step (states.getD observed.symbol start) (observed.atMs, observed.midCents)))
      states).get? symbol =
      if ofSymbol symbol observations = [] then states.get? symbol
      else some ((ofSymbol symbol observations).foldl step (states.getD symbol start))
  | [], _ => rfl
  | observed :: rest, states => by
      rw [List.foldl_cons, get?_foldl_ofSymbol start step symbol rest]
      unfold SortedMap.getD
      rw [SortedMap.get?_insert]
      by_cases hsymbol : observed.symbol = symbol
      · have hown : ofSymbol symbol (observed :: rest) =
            (observed.atMs, observed.midCents) :: ofSymbol symbol rest := by
          simp [ofSymbol, hsymbol]
        rw [hown, if_neg (List.cons_ne_nil _ _), if_pos hsymbol.symm, hsymbol]
        split
        case isTrue hnil =>
          rw [hnil]
          rfl
        case isFalse => rfl
      · have hown : ofSymbol symbol (observed :: rest) = ofSymbol symbol rest := by
          simp [ofSymbol, hsymbol]
        rw [hown, if_neg (Ne.symm hsymbol)]

namespace MidWindow

def observeAll (mids : MidWindow) (observations : List Observation) : MidWindow :=
  observations.foldl
    (fun mids observed => mids.observe observed.symbol observed.atMs observed.midCents) mids

/-- A symbol's window sees its own observations alone. -/
theorem get?_observeAll (symbol : String) (observations : List Observation) :
    (observeAll SortedMap.empty observations).get? symbol =
      if ofSymbol symbol observations = [] then none
      else some (SymbolWindow.default.observeAll (ofSymbol symbol observations)) :=
  get?_foldl_ofSymbol SymbolWindow.default (fun w sample => w.observe sample.1 sample.2) symbol
    observations SortedMap.empty

/-- A symbol's window after a run, which is empty where nothing was observed. -/
theorem getD_observeAll (symbol : String) (observations : List Observation) :
    (observeAll SortedMap.empty observations).getD symbol .default =
      SymbolWindow.default.observeAll (ofSymbol symbol observations) := by
  unfold SortedMap.getD
  rw [get?_observeAll]
  split
  case isTrue hnil =>
    rw [hnil]
    rfl
  case isFalse => rfl

/-- Over every run of observations, the running sums of a symbol and the walk over its kept samples
are one pair for every question, and the price is the one the walk gives. -/
theorem kept_sums_eq_walk (observations : List Observation) (symbol : String) (atMs : Nat) :
    let window := (observeAll SortedMap.empty observations).getD symbol .default
    (∀ opensAt, window.sumsAt atMs opensAt = SymbolWindow.walked atMs opensAt window.samples) ∧
      (observeAll SortedMap.empty observations).referenceCents symbol atMs =
        (let sums := SymbolWindow.walked atMs (atMs - windowMs) window.samples
        if 0 < sums.2 then some (castI64 (sums.1.tdiv sums.2)) else none) := by
  intro window
  have hwalk : ∀ opensAt,
      window.sumsAt atMs opensAt = SymbolWindow.walked atMs opensAt window.samples := by
    intro opensAt
    have hwindow : window = SymbolWindow.default.observeAll (ofSymbol symbol observations) :=
      getD_observeAll symbol observations
    rw [hwindow]
    exact SymbolWindow.sumsAt_observeAll _ atMs opensAt
  refine ⟨hwalk, ?_⟩
  rw [← hwalk (atMs - windowMs)]
  unfold referenceCents
  cases hget : (observeAll SortedMap.empty observations).get? symbol with
  | none =>
      have hempty : window = .default := by
        show ((observeAll SortedMap.empty observations).get? symbol).getD .default = .default
        rw [hget]
        rfl
      rw [hempty]
      rfl
  | some w =>
      have hsame : window = w := by
        show ((observeAll SortedMap.empty observations).get? symbol).getD .default = w
        rw [hget]
        rfl
      rw [hsame]

/-- The samples a run leaves a symbol's window with. -/
def keptSamples (symbol : String) (observations : List Observation) : List Sample :=
  (SymbolWindow.default.observeAll (ofSymbol symbol observations)).samples

/-- A window that agrees with what was placed divides the sums of what was placed. -/
theorem referenceCents_of_agrees {mids : MidWindow} {symbol : String} {w : SymbolWindow}
    {latest atMs : Nat} {placed : List Sample} (hw : mids.get? symbol = some w)
    (hagrees : Agrees latest placed w.samples) (hcoherent : w.Coherent)
    (hanswers : Answers latest placed w.samples atMs) :
    mids.referenceCents symbol atMs =
      if 0 < (holds perMs (atMs - windowMs) atMs placed).2 then
        some (castI64 ((holds perMs (atMs - windowMs) atMs placed).1.tdiv
          (holds perMs (atMs - windowMs) atMs placed).2))
      else none := by
  unfold referenceCents
  rw [hw]
  simp only
  rw [hcoherent.sumsAt_eq, walked_eq_holds, hagrees.holds_eq hanswers]

/-- Mids in the signed 64-bit range have an average in it. -/
theorem timeWeighted_of_inI64 {samples : List Sample} (hordered : Ordered samples)
    (hmids : ∀ sample ∈ samples, ∀ mid, sample.2 = some mid → InI64 mid) (atMs : Nat) :
    timeWeighted samples atMs =
      if 0 < (holds perMs (atMs - windowMs) atMs samples).2 then
        some (castI64 ((holds perMs (atMs - windowMs) atMs samples).1.tdiv
          (holds perMs (atMs - windowMs) atMs samples).2))
      else none := by
  have hbetween := between_holds hordered hmids (atMs - windowMs) atMs
  rw [timeWeighted_eq]
  by_cases hzero : (holds perMs (atMs - windowMs) atMs samples).2 = 0
  · rw [if_pos hzero, if_neg (by rw [hzero]; exact lt_irrefl 0)]
  · have hweight : 0 < (holds perMs (atMs - windowMs) atMs samples).2 :=
      lt_of_le_of_ne (holds_perMs_nonneg hordered _ _) (Ne.symm hzero)
    rw [if_pos hweight, if_neg hzero, castI64_of_inI64 (hbetween.tdiv hweight)]

/-- In a run in which every observation advances the window, it answers as the definition says. -/
theorem referenceCents_eq_timeWeighted (observations : List Observation) (symbol : String)
    (atMs : Nat)
    (hmids : ∀ observed ∈ observations, ∀ mid, observed.midCents = some mid → InI64 mid)
    (hadvances : SymbolWindow.AlwaysAdvances 0 .default (ofSymbol symbol observations))
    (hanswers : Answers (latestFrom 0 (ofSymbol symbol observations))
      (placed (ofSymbol symbol observations)) (keptSamples symbol observations) atMs) :
    (observeAll SortedMap.empty observations).referenceCents symbol atMs =
      timeWeighted (placed (ofSymbol symbol observations)) atMs := by
  have hw := get?_observeAll symbol observations
  by_cases hown : ofSymbol symbol observations = []
  · -- Nothing was observed for this symbol.
    rw [if_pos hown] at hw
    unfold referenceCents
    rw [hw, hown]
    rfl
  · rw [if_neg hown] at hw
    obtain ⟨hagrees, hcoherent⟩ := hadvances.fromDefault hown
    rw [referenceCents_of_agrees hw hagrees hcoherent hanswers]
    refine (timeWeighted_of_inI64 hagrees.ordered (fun sample hsample mid hmid => ?_) atMs).symm
    obtain ⟨seen, hseen, heq⟩ := mem_placedFrom hsample
    obtain ⟨observed, hobserved, rfl⟩ := List.mem_map.1 hseen
    exact hmids observed (List.mem_filter.1 hobserved).1 mid (heq.trans hmid)

/-- A dropped repeat, then a book without a mid, and a question later on. -/
def restatedRun : List Observation :=
  [⟨"ETH-USDC", 1000, some 10000⟩, ⟨"ETH-USDC", 20000, some 10000⟩,
    ⟨"ETH-USDC", 21000, some 20000⟩, ⟨"ETH-USDC", 5000, none⟩]

theorem referenceCents_restatedRun :
    (observeAll SortedMap.empty restatedRun).referenceCents "ETH-USDC" 30000 =
      timeWeighted (placed (ofSymbol "ETH-USDC" restatedRun)) 30000 :=
  referenceCents_eq_timeWeighted restatedRun "ETH-USDC" 30000 (by decide)
    (by
      refine ⟨.inl (by decide), .inl (by decide), .inl (by decide), .inr (fun newest hnewest => ?_),
        trivial⟩
      cases hnewest
      exact .inl rfl)
    (.inl (by decide))

/-- A repeated mid at 20,000 and then another mid that arrives stamped 5,000. -/
def woundBackRun : List Observation :=
  [⟨"ETH-USDC", 1000, some 10000⟩, ⟨"ETH-USDC", 20000, some 10000⟩,
    ⟨"ETH-USDC", 5000, some 20000⟩]

/-- The repeat's timestamp is forgotten, and the later mid takes over time already elapsed. -/
theorem referenceCents_ne_of_dropped_repeat :
    (observeAll SortedMap.empty woundBackRun).referenceCents "ETH-USDC" 30000 = some 18620 ∧
      timeWeighted (placed (ofSymbol "ETH-USDC" woundBackRun)) 30000 = some 13448 ∧
      (observeAll SortedMap.empty woundBackRun).referenceCents "ETH-USDC" 30000 ≠
        timeWeighted (placed (ofSymbol "ETH-USDC" woundBackRun)) 30000 := by
  decide

end MidWindow

end Matcher
end VerifiableExchange
