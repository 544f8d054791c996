import VerifiableExchange.Lib.MachineInt
import VerifiableExchange.Lib.StepFunction
import VerifiableExchange.Matcher.ReferenceLaws

/-!
# TimeWeighted — the reference price as it is defined, and when the window meets it

The definition averages the mid over the last 30 seconds, each sample weighted by how long it held,
with every sample placed at the largest timestamp seen so far. A window keeps fewer samples and
running sums; what matters is that it shows the same mid at every moment a question can reach.
-/

namespace VerifiableExchange
namespace Matcher

open Lib Lib.StepFunction

/-! ## The definition -/

/-- How much of the time from `start` to `stop` lies in the last 30 seconds before `atMs`. -/
def overlap (start stop atMs : Nat) : Nat := min stop atMs - max start (atMs - windowMs)

/-- Each sample's mid and how long it held in the window; the last sample holds until `atMs`. -/
def heldInWindow (atMs : Nat) : List Sample → List (Option Int × Nat)
  | [] => []
  | [(start, mid)] => [(mid, overlap start atMs atMs)]
  | (start, mid) :: (next, mid') :: rest =>
      (mid, overlap start next atMs) :: heldInWindow atMs ((next, mid') :: rest)

/-- The mids that are not none, each with its weight. -/
def priced (held : List (Option Int × Nat)) : List (Int × Int) :=
  held.filterMap (fun entry => entry.1.map (fun mid => (mid, (entry.2 : Int))))

/-- The sum of `mid * weight`, and the sum of the weights. -/
def pricedSums (weighed : List (Int × Int)) : Sums :=
  ((weighed.map (fun entry => entry.1 * entry.2)).sum, (weighed.map (fun entry => entry.2)).sum)

/-- The average of the mid over the window, dividing last and truncating toward zero; `none` where
no mid held for any time. -/
def timeWeighted (samples : List Sample) (atMs : Nat) : Option Int :=
  let sums := pricedSums (priced (heldInWindow atMs samples))
  if sums.2 = 0 then none else some (sums.1.tdiv sums.2)

/-- A timestamp that does not advance is read as the last one that did. -/
def placedFrom (latest : Nat) : List Sample → List Sample
  | [] => []
  | (atMs, mid) :: rest => (max latest atMs, mid) :: placedFrom (max latest atMs) rest

def placed (observed : List Sample) : List Sample := placedFrom 0 observed

/-- The largest timestamp seen so far. -/
def latestFrom (latest : Nat) (observed : List Sample) : Nat :=
  observed.foldl (fun latest sample => max latest sample.1) latest

/-- The mid that stands at a moment. -/
def shownAt (samples : List Sample) (moment : Nat) : Option Int := valueAt none samples moment

/-! ## The definition as sums over every millisecond -/

/-- What one millisecond of a mid adds. -/
def perMs (mid : Option Int) : Sums := Sums.ofHold mid 1

theorem perMs_none : perMs none = 0 := rfl

theorem ofHold_eq_nsmul (mid : Option Int) (held : Nat) :
    Sums.ofHold mid held = held • perMs mid := by
  induction held with
  | zero => rw [Sums.ofHold_zero, zero_nsmul]
  | succ held ih => rw [Sums.ofHold_add, ih, succ_nsmul]; rfl

theorem walked_eq_holds (atMs opensAt : Nat) : ∀ samples : List Sample,
    SymbolWindow.walked atMs opensAt samples = holds perMs opensAt atMs samples
  | [] => rfl
  | [(start, mid)] => ofHold_eq_nsmul mid _
  | (start, mid) :: (next, mid') :: rest => by
      show Sums.ofHold mid (min next atMs - max start opensAt) +
          SymbolWindow.walked atMs opensAt ((next, mid') :: rest) = _
      rw [walked_eq_holds atMs opensAt ((next, mid') :: rest), ofHold_eq_nsmul]
      rfl

theorem pricedSums_cons (mid : Option Int) (held : Nat) (rest : List (Option Int × Nat)) :
    pricedSums (priced ((mid, held) :: rest)) =
      Sums.ofHold mid held + pricedSums (priced rest) := by
  cases mid with
  | none => exact (zero_add _).symm
  | some mid => rfl

theorem pricedSums_eq_holds (atMs : Nat) : ∀ samples : List Sample,
    pricedSums (priced (heldInWindow atMs samples)) =
      holds perMs (atMs - windowMs) atMs samples
  | [] => rfl
  | [(start, mid)] => by
      rw [heldInWindow, pricedSums_cons, ofHold_eq_nsmul, overlap, min_self]
      exact add_zero _
  | (start, mid) :: (next, mid') :: rest => by
      rw [heldInWindow, pricedSums_cons, ofHold_eq_nsmul,
        pricedSums_eq_holds atMs ((next, mid') :: rest)]
      rfl

theorem timeWeighted_eq (samples : List Sample) (atMs : Nat) :
    timeWeighted samples atMs =
      if (holds perMs (atMs - windowMs) atMs samples).2 = 0 then none
      else some ((holds perMs (atMs - windowMs) atMs samples).1.tdiv
        (holds perMs (atMs - windowMs) atMs samples).2) := by
  rw [← pricedSums_eq_holds]
  rfl

/-- The time held is never negative. -/
theorem holds_perMs_nonneg {samples : List Sample} (hordered : Ordered samples)
    (opens ends : Nat) : 0 ≤ (holds perMs opens ends samples).2 := by
  rw [holds_eq_sum perMs_none opens ends hordered]
  refine Finset.sum_induction _ (fun sums : Sums => 0 ≤ sums.2) (fun _ _ => add_nonneg) le_rfl
    (fun moment _ => ?_)
  cases valueAt none samples moment with
  | none => exact le_rfl
  | some mid => exact zero_le_one

theorem latestFrom_le {atMs : Nat} : ∀ {observed : List Sample} {latest : Nat}, latest ≤ atMs →
    (∀ sample ∈ observed, sample.1 ≤ atMs) → latestFrom latest observed ≤ atMs
  | [], _, hlatest, _ => hlatest
  | sample :: rest, latest, hlatest, h => by
      obtain ⟨hsample, hrest⟩ := List.forall_mem_cons.1 h
      show latestFrom (max latest sample.1) rest ≤ atMs
      exact latestFrom_le (max_le hlatest hsample) hrest

/-! ## An average stays between the mids -/

/-- The weighted sum lies between the bounds of the mids. -/
def Between (low high : Int) (sums : Sums) : Prop :=
  low * sums.2 ≤ sums.1 ∧ sums.1 ≤ high * sums.2

theorem between_zero (low high : Int) : Between low high 0 := ⟨by simp, by simp⟩

theorem Between.add {low high : Int} {a b : Sums} (ha : Between low high a)
    (hb : Between low high b) : Between low high (a + b) := by
  obtain ⟨hal, hah⟩ := ha
  obtain ⟨hbl, hbh⟩ := hb
  constructor
  · show low * (a.2 + b.2) ≤ a.1 + b.1
    rw [mul_add]
    exact add_le_add hal hbl
  · show a.1 + b.1 ≤ high * (a.2 + b.2)
    rw [mul_add]
    exact add_le_add hah hbh

theorem between_perMs {low high : Int} {mid : Option Int}
    (h : ∀ m, mid = some m → low ≤ m ∧ m ≤ high) : Between low high (perMs mid) := by
  cases mid with
  | none => exact between_zero low high
  | some m =>
      obtain ⟨hlow, hhigh⟩ := h m rfl
      have hone : perMs (some m) = (m, 1) := by simp [perMs, Sums.ofHold]
      rw [hone]
      exact ⟨by simpa using hlow, by simpa using hhigh⟩

theorem shownAt_mem {samples : List Sample} {moment : Nat} {mid : Int}
    (h : shownAt samples moment = some mid) : ∃ sample ∈ samples, sample.2 = some mid := by
  rcases @valueAt_mem _ none moment samples with hnone | hmem
  · rw [shownAt, hnone] at h
    cases h
  · obtain ⟨sample, hsample, hvalue⟩ := hmem
    exact ⟨sample, hsample, hvalue.symm.trans h⟩

theorem between_holds {low high : Int} {samples : List Sample} (hordered : Ordered samples)
    (h : ∀ sample ∈ samples, ∀ mid, sample.2 = some mid → low ≤ mid ∧ mid ≤ high)
    (opens ends : Nat) : Between low high (holds perMs opens ends samples) := by
  rw [holds_eq_sum perMs_none opens ends hordered]
  refine Finset.sum_induction _ (Between low high) (fun _ _ => Between.add)
    (between_zero low high) (fun moment _ => between_perMs (fun mid hmid => ?_))
  obtain ⟨sample, hsample, hvalue⟩ := shownAt_mem hmid
  exact h sample hsample mid hvalue

theorem Between.tdiv {low high : Int} {sums : Sums} (h : Between low high sums)
    (hweight : 0 < sums.2) : low ≤ sums.1.tdiv sums.2 ∧ sums.1.tdiv sums.2 ≤ high := by
  obtain ⟨hlow, hhigh⟩ := h
  constructor
  · have hle := Int.tdiv_le_tdiv hweight hlow
    rwa [Int.mul_tdiv_cancel _ hweight.ne'] at hle
  · have hle := Int.tdiv_le_tdiv hweight hhigh
    rwa [Int.mul_tdiv_cancel _ hweight.ne'] at hle

theorem castI64_of_inI64 {x : Int} (h : InI64 x) : MidWindow.castI64 x = x := by
  unfold InI64 i64Min i64Max at h
  exact Int.bmod_eq_of_le (by omega) (by omega)

/-! ## What a list of samples shows -/

theorem Rising.ordered {samples : List Sample} (h : Rising samples) : Ordered samples :=
  h.imp (fun hlt => hlt.le)

/-- The time of the oldest sample. -/
def oldest (samples : List Sample) : Nat := (samples.head?.map Prod.fst).getD 0

theorem shownAt_of_lt_oldest {samples : List Sample} (h : Rising samples) {moment : Nat}
    (hmoment : moment < oldest samples) : shownAt samples moment = none := by
  refine valueAt_of_lt (fun sample hsample => hmoment.trans_le ?_)
  cases samples with
  | nil => cases hsample
  | cons first rest =>
      rcases List.mem_cons.1 hsample with rfl | hsample
      · exact le_rfl
      · exact ((List.pairwise_cons.1 h).1 sample hsample).le

/-- The newest sample shows from its own time on. -/
theorem shownAt_newest {samples : List Sample} {newest : Sample}
    (hlast : samples.getLast? = some newest) {moment : Nat} (h : newest.1 ≤ moment) :
    shownAt samples moment = newest.2 := by
  obtain ⟨front, rfl⟩ := List.getLast?_eq_some_iff.1 hlast
  rw [shownAt, valueAt_append_singleton, if_pos h]

theorem setNewestMid_append (midCents : Option Int) (newest : Sample) : ∀ front : List Sample,
    SymbolWindow.setNewestMid midCents (front ++ [newest]) = front ++ [(newest.1, midCents)]
  | [] => rfl
  | [_] => rfl
  | first :: second :: rest => by
      have hstep := setNewestMid_append midCents newest (second :: rest)
      simp only [List.cons_append] at hstep
      simp only [List.cons_append, SymbolWindow.setNewestMid]
      rw [hstep]

theorem oldest_append {samples : List Sample} (h : samples ≠ []) (newer : List Sample) :
    oldest (samples ++ newer) = oldest samples := by
  cases samples with
  | nil => exact absurd rfl h
  | cons first rest => rfl

/-- Dropping samples moves the oldest one forward, and never past the opening. -/
theorem oldest_dropBefore (clip : Nat) : ∀ {samples : List Sample}, Rising samples →
    oldest samples ≤ oldest (SymbolWindow.dropBefore clip samples) ∧
      (oldest (SymbolWindow.dropBefore clip samples) = oldest samples ∨
        oldest (SymbolWindow.dropBefore clip samples) ≤ clip)
  | [], _ => ⟨le_rfl, .inl rfl⟩
  | [_], _ => ⟨le_rfl, .inl rfl⟩
  | first :: second :: rest, h => by
      obtain ⟨hfirst, hrest⟩ := List.pairwise_cons.1 h
      have hlt : first.1 < second.1 := hfirst second List.mem_cons_self
      rw [SymbolWindow.dropBefore]
      split
      case isTrue hclip =>
        obtain ⟨hle, hor⟩ := oldest_dropBefore clip hrest
        refine ⟨hlt.le.trans hle, .inr ?_⟩
        rcases hor with heq | hle'
        · exact heq ▸ hclip
        · exact hle'
      case isFalse => exact ⟨le_rfl, .inl rfl⟩

/-- Dropping samples changes nothing from the opening on, nor from the oldest kept one on. -/
theorem shownAt_dropBefore (clip : Nat) : ∀ {samples : List Sample}, Rising samples →
    ∀ {moment : Nat},
      clip ≤ moment ∨ oldest (SymbolWindow.dropBefore clip samples) ≤ moment →
        shownAt (SymbolWindow.dropBefore clip samples) moment = shownAt samples moment
  | [], _, _, _ => rfl
  | [_], _, _, _ => rfl
  | first :: second :: rest, h, moment, hmoment => by
      rw [SymbolWindow.dropBefore] at hmoment ⊢
      split at hmoment
      case isTrue hclip =>
        have hrest : Rising (second :: rest) := (List.pairwise_cons.1 h).2
        have hsecond : second.1 ≤ moment := by
          rcases hmoment with hmoment | hmoment
          · exact hclip.trans hmoment
          · exact (oldest_dropBefore clip hrest).1.trans hmoment
        rw [if_pos hclip, shownAt_dropBefore clip hrest hmoment]
        exact (valueAt_append_cons hsecond [first] rest).symm
      case isFalse hclip => rw [if_neg hclip]

/-! ## The running sums are the walk -/

namespace SymbolWindow

open MidWindow (closedSums)

/-- A walk does not see the samples whose hold ended before its window. -/
theorem walked_dropBefore (atMs opensAt : Nat) : ∀ samples : List Sample,
    walked atMs opensAt (dropBefore opensAt samples) = walked atMs opensAt samples
  | [] => rfl
  | [_] => rfl
  | (start, mid) :: (next, mid') :: rest => by
      rw [dropBefore]
      split
      case isTrue hclip =>
        have hzero : min next atMs - max start opensAt = 0 := by
          have hnext : next ≤ opensAt := hclip
          omega
        rw [walked_dropBefore atMs opensAt ((next, mid') :: rest), walked, hzero,
          Sums.ofHold_zero, Sums.add_eq, zero_add]
      case isFalse => rfl

theorem getLast?_dropBefore (clip : Nat) : ∀ samples : List Sample,
    (dropBefore clip samples).getLast? = samples.getLast?
  | [] => rfl
  | [_] => rfl
  | first :: second :: rest => by
      rw [dropBefore]
      split
      case isTrue => rw [getLast?_dropBefore clip (second :: rest), List.getLast?_cons_cons]
      case isFalse => rfl

/-- A walk to a moment past the newest sample is the closed holds and the open one. -/
theorem walked_eq_closedSums {atMs opensAt : Nat} : ∀ {samples : List Sample} {newest : Sample},
    Rising samples → samples.getLast? = some newest → newest.1 ≤ atMs →
      walked atMs opensAt samples =
        closedSums opensAt samples + Sums.ofHold newest.2 (atMs - max newest.1 opensAt)
  | [], _, _, h, _ => nomatch h
  | [sample], newest, _, h, _ => by
      cases h
      exact (zero_add _).symm
  | (start, mid) :: (next, mid') :: rest, newest, hrising, h, hat => by
      have hlast : ((next, mid') :: rest).getLast? = some newest := by
        rwa [List.getLast?_cons_cons] at h
      have hrest : Rising ((next, mid') :: rest) := (List.pairwise_cons.1 hrising).2
      have hnext : next ≤ atMs := (hrest.le_getLast hlast List.mem_cons_self).trans hat
      rw [walked, closedSums, walked_eq_closedSums hrest hlast hat, min_eq_left hnext]
      exact (add_assoc _ _ _).symm

/-- What a window answers is what its samples say. -/
theorem Coherent.sumsAt_eq {w : SymbolWindow} (h : Coherent w) (atMs opensAt : Nat) :
    w.sumsAt atMs opensAt = walked atMs opensAt w.samples := by
  obtain ⟨newest, hlast⟩ : ∃ newest, w.samples.getLast? = some newest :=
    Option.ne_none_iff_exists'.1 (mt List.getLast?_eq_none_iff.1 h.recorded)
  unfold sumsAt
  rw [hlast]
  simp only
  split
  case isTrue => rfl
  case isFalse hkept =>
    obtain ⟨hat, hopens⟩ := not_or.1 hkept
    -- The sums lose what the window has moved past, and the newest hold joins them.
    have hclosed : (w.closedWeighted - (lossTo w.clipMs opensAt w.samples).1,
        w.closedWeight - (lossTo w.clipMs opensAt w.samples).2) =
          closedSums opensAt (dropBefore opensAt w.samples) := by
      rw [← closedSums_sub_lossTo (not_lt.1 hopens) h.rising, ← h.sums]
      rfl
    rw [hclosed, Sums.add_eq, ← walked_dropBefore,
      walked_eq_closedSums (h.rising.sublist (dropBefore_suffix opensAt w.samples).sublist)
        ((getLast?_dropBefore opensAt w.samples).trans hlast) (not_lt.1 hat)]

end SymbolWindow

/-! ## A list kept beside the samples placed -/

/-- A kept list shows what was placed, from the opening on and from its own oldest sample on. -/
structure Agrees (latest : Nat) (placed kept : List Sample) : Prop where
  recorded : kept ≠ []
  rising : Rising kept
  ordered : Ordered placed
  bounded : ∀ sample ∈ placed, sample.1 ≤ latest
  newest : ∀ sample ∈ kept, sample.1 ≤ latest
  shows : ∀ moment, latest - windowMs ≤ moment ∨ oldest kept ≤ moment →
    shownAt kept moment = shownAt placed moment

/-- One more sample placed, where the kept list shows it from the same moment on. -/
theorem Agrees.step {latest latest' clip : Nat} {placed kept kept' : List Sample}
    {mid : Option Int} (h : Agrees latest placed kept) (hlatest : latest ≤ latest')
    (hclip : clip ≤ latest' - windowMs) (hrising : Rising kept')
    (hrecorded : kept' ≠ []) (holdest : oldest kept' = oldest kept)
    (hnewest : ∀ sample ∈ kept', sample.1 ≤ latest')
    (hshown : ∀ moment,
      shownAt kept' moment = if latest' ≤ moment then mid else shownAt kept moment) :
    Agrees latest' (placed ++ [(latest', mid)]) (SymbolWindow.dropBefore clip kept') where
  recorded := SymbolWindow.dropBefore_ne_nil clip hrecorded
  rising := hrising.sublist (SymbolWindow.dropBefore_suffix clip kept').sublist
  ordered := h.ordered.append (fun sample hsample => (h.bounded sample hsample).trans hlatest)
  bounded sample hsample := by
    rcases List.mem_append.1 hsample with hold | hnew
    · exact (h.bounded sample hold).trans hlatest
    · exact (List.mem_singleton.1 hnew) ▸ le_rfl
  newest sample hsample :=
    hnewest sample ((SymbolWindow.dropBefore_suffix clip kept').subset hsample)
  shows moment hmoment := by
    rw [shownAt_dropBefore clip hrising (hmoment.imp_left hclip.trans), hshown]
    unfold shownAt
    rw [valueAt_append_singleton]
    refine if_congr Iff.rfl rfl (h.shows moment ?_)
    rcases hmoment with hmoment | hmoment
    · exact .inl ((Nat.sub_le_sub_right hlatest windowMs).trans hmoment)
    · exact .inr (holdest ▸ (oldest_dropBefore clip hrising).1.trans hmoment)

/-- The newest sample takes another mid, which then shows from that sample's time on. -/
theorem shownAt_setNewestMid {samples : List Sample} {newest : Sample}
    (hlast : samples.getLast? = some newest) (mid : Option Int) (moment : Nat) :
    shownAt (SymbolWindow.setNewestMid mid samples) moment =
      if newest.1 ≤ moment then mid else shownAt samples moment := by
  obtain ⟨front, rfl⟩ := List.getLast?_eq_some_iff.1 hlast
  rw [setNewestMid_append]
  unfold shownAt
  rw [valueAt_append_singleton, valueAt_append_singleton]
  split <;> rfl

theorem Agrees.setNewest {latest latest' clip : Nat} {placed kept : List Sample}
    {mid : Option Int} (h : Agrees latest placed kept) (hlatest : latest ≤ latest')
    (hclip : clip ≤ latest' - windowMs)
    (hshown : ∀ moment, shownAt (SymbolWindow.setNewestMid mid kept) moment =
      if latest' ≤ moment then mid else shownAt kept moment) :
    Agrees latest' (placed ++ [(latest', mid)])
      (SymbolWindow.dropBefore clip (SymbolWindow.setNewestMid mid kept)) := by
  have htimes := SymbolWindow.setNewestMid_times mid kept
  refine h.step hlatest hclip (rising_iff_times.2 (htimes ▸ rising_iff_times.1 h.rising))
    (fun hnil => h.recorded ?_) ?_ (fun sample hsample => ?_) hshown
  · rw [hnil] at htimes
    exact List.map_eq_nil_iff.1 htimes.symm
  · have hhead := congrArg (fun times => times.head?.getD 0) htimes
    simpa only [oldest, List.head?_map] using hhead
  · have hmem : sample.1 ∈ (SymbolWindow.setNewestMid mid kept).map Prod.fst :=
      List.mem_map_of_mem hsample
    rw [htimes] at hmem
    obtain ⟨old, hold, heq⟩ := List.mem_map.1 hmem
    exact heq ▸ (h.newest old hold).trans hlatest

/-- A sample joins the kept ones. -/
theorem Agrees.push {latest latest' clip : Nat} {placed kept : List Sample} (mid : Option Int)
    (h : Agrees latest placed kept) (hlatest : latest ≤ latest')
    (hclip : clip ≤ latest' - windowMs) (hlater : ∀ sample ∈ kept, sample.1 < latest') :
    Agrees latest' (placed ++ [(latest', mid)])
      (SymbolWindow.dropBefore clip (kept ++ [(latest', mid)])) := by
  refine h.step hlatest hclip (h.rising.append hlater)
    (List.append_ne_nil_of_right_ne_nil _ (List.cons_ne_nil _ _)) (oldest_append h.recorded _)
    (fun sample hsample => ?_) (fun moment => valueAt_append_singleton _ _ _ _)
  rcases List.mem_append.1 hsample with hold | hnew
  · exact (hlater sample hold).le
  · exact (List.mem_singleton.1 hnew) ▸ le_rfl

/-- The first sample. -/
theorem agrees_first (atMs : Nat) (mid : Option Int) : Agrees atMs [(atMs, mid)] [(atMs, mid)] where
  recorded := List.cons_ne_nil _ _
  rising := List.pairwise_singleton _ _
  ordered := List.pairwise_singleton _ _
  bounded _ hsample := (List.mem_singleton.1 hsample) ▸ le_rfl
  newest _ hsample := (List.mem_singleton.1 hsample) ▸ le_rfl
  shows _ _ := rfl

/-- Whether a kept list still holds what a question at `atMs` asks about. -/
def Answers (latest : Nat) (placed kept : List Sample) (atMs : Nat) : Prop :=
  latest ≤ atMs ∨
    ∀ moment, atMs - windowMs ≤ moment → moment < atMs → moment < oldest kept →
      shownAt placed moment = none

/-- A kept list weighs every mid as the samples placed do. -/
theorem Agrees.holds_eq {latest atMs : Nat} {placed kept : List Sample}
    (h : Agrees latest placed kept) (hanswers : Answers latest placed kept atMs) :
    holds perMs (atMs - windowMs) atMs kept = holds perMs (atMs - windowMs) atMs placed := by
  refine holds_congr perMs_none h.rising.ordered h.ordered (fun moment hopens hends => ?_)
  rcases hanswers with hlate | hnone
  · exact h.shows moment (.inl ((Nat.sub_le_sub_right hlate windowMs).trans hopens))
  · by_cases holdest : oldest kept ≤ moment
    · exact h.shows moment (.inr holdest)
    · -- Before the oldest kept sample neither list shows a mid.
      exact (shownAt_of_lt_oldest h.rising (not_le.1 holdest)).trans
        (hnone moment hopens hends (not_le.1 holdest)).symm

end Matcher
end VerifiableExchange
