import Mathlib.Algebra.Group.Prod
import Mathlib.Order.Interval.Finset.Nat
import VerifiableExchange.Matcher.ReferencePrice

/-!
# ReferenceLaws — the running sums are those of the kept samples

However timestamps move, the two sums of a window are what its closed samples add up to from its
opening on. So the samples and the opening alone say everything about a window.
-/

namespace VerifiableExchange
namespace Matcher

open Lib

theorem Sums.add_eq (a b : Sums) : a.add b = a + b := rfl

/-- A hold cut in two. -/
theorem Sums.ofHold_add (mid : Option Int) (a b : Nat) :
    Sums.ofHold mid (a + b) = Sums.ofHold mid a + Sums.ofHold mid b := by
  cases mid with
  | none => rfl
  | some m =>
      refine Prod.ext ?_ ?_
      · show m * ((a + b : Nat) : Int) = m * a + m * b
        rw [Nat.cast_add, mul_add]
      · show ((a + b : Nat) : Int) = a + b
        exact Nat.cast_add a b

@[simp] theorem Sums.ofHold_zero (mid : Option Int) : Sums.ofHold mid 0 = 0 := by
  cases mid with
  | none => rfl
  | some m =>
      refine Prod.ext ?_ rfl
      show m * ((0 : Nat) : Int) = 0
      simp

/-! ## Sample times -/

/-- The samples' times go up. -/
def Rising (samples : List Sample) : Prop := samples.Pairwise (fun a b => a.1 < b.1)

theorem Rising.le_getLast {samples : List Sample} (h : Rising samples) {last : Sample}
    (hlast : samples.getLast? = some last) {sample : Sample} (hsample : sample ∈ samples) :
    sample.1 ≤ last.1 := by
  obtain ⟨front, rfl⟩ := List.getLast?_eq_some_iff.1 hlast
  rcases List.mem_append.1 hsample with hsample | hsample
  · exact ((List.pairwise_append.1 h).2.2 sample hsample last List.mem_cons_self).le
  · exact (List.mem_singleton.1 hsample) ▸ le_rfl

theorem Rising.append {samples : List Sample} (h : Rising samples) {newest : Sample}
    (hnewest : ∀ sample ∈ samples, sample.1 < newest.1) : Rising (samples ++ [newest]) :=
  List.pairwise_append.2 ⟨h, List.pairwise_singleton _ _, fun sample hsample _ hb =>
    (List.mem_singleton.1 hb) ▸ hnewest sample hsample⟩

theorem rising_iff_times {samples : List Sample} :
    Rising samples ↔ (samples.map Prod.fst).Pairwise (· < ·) := List.pairwise_map.symm

namespace SymbolWindow

open MidWindow (closedSums)

/-- Samples that all start at or after an opening do not see it. -/
theorem closedSums_late {clip clip' : Nat} : ∀ {samples : List Sample},
    (∀ sample ∈ samples, clip ≤ sample.1 ∧ clip' ≤ sample.1) →
      closedSums clip samples = closedSums clip' samples
  | [], _ => rfl
  | [_], _ => rfl
  | (start, mid) :: (next, mid') :: rest, h => by
      obtain ⟨hfirst, hrest⟩ := List.forall_mem_cons.1 h
      unfold closedSums
      rw [closedSums_late hrest, max_eq_left hfirst.1, max_eq_left hfirst.2]

/-- What the sums lose is what the dropped and shortened samples added. -/
theorem closedSums_sub_lossTo {clipMs clip : Nat} (hclip : clipMs ≤ clip) :
    ∀ {samples : List Sample}, Rising samples →
      closedSums clipMs samples - lossTo clipMs clip samples =
        closedSums clip (dropBefore clip samples)
  | [], _ => rfl
  | [_], _ => rfl
  | (start, mid) :: (next, mid') :: rest, h => by
      obtain ⟨hstart, hrest⟩ := List.pairwise_cons.1 h
      have hnext : start < next := hstart _ List.mem_cons_self
      have hafter : ∀ sample ∈ (next, mid') :: rest, next ≤ sample.1 := by
        intro sample hsample
        rcases List.mem_cons.1 hsample with rfl | hsample
        · exact le_rfl
        · exact ((List.pairwise_cons.1 hrest).1 sample hsample).le
      unfold lossTo dropBefore
      by_cases hlate : clip ≤ start
      · -- Every sample starts after the new opening.
        rw [if_pos hlate, if_neg (not_le.2 (lt_of_le_of_lt hlate hnext))]
        have hall : ∀ sample ∈ (start, mid) :: (next, mid') :: rest,
            clipMs ≤ sample.1 ∧ clip ≤ sample.1 := by
          intro sample hsample
          rcases List.mem_cons.1 hsample with rfl | hsample
          · exact ⟨hclip.trans hlate, hlate⟩
          · have hle := hafter sample hsample
            exact ⟨by omega, by omega⟩
        rw [closedSums_late hall]
        exact sub_zero _
      · rw [if_neg hlate]
        by_cases hholds : clip < next
        · -- The opening falls inside the first hold.
          rw [if_pos hholds, if_neg (not_le.2 hholds)]
          have hlater : closedSums clipMs ((next, mid') :: rest) =
              closedSums clip ((next, mid') :: rest) := by
            refine closedSums_late (fun sample hsample => ?_)
            have hle := hafter sample hsample
            exact ⟨by omega, by omega⟩
          have hsplit : next - max start clipMs =
              (min next clip - max start clipMs) + (next - max start clip) := by omega
          simp only [closedSums, Sums.add_eq]
          rw [hlater, hsplit, Sums.ofHold_add]
          abel
        · -- The first hold ended before the opening, so the sample goes.
          rw [if_neg hholds, if_pos (not_lt.1 hholds), ← closedSums_sub_lossTo hclip hrest]
          simp only [closedSums, Sums.add_eq, min_eq_left (not_lt.1 hholds)]
          abel

/-- The first sample's hold, counted from an earlier opening. -/
theorem ofHold_add_gainedTo {clipMs clip start next : Nat} (hclip : clip ≤ clipMs)
    (hnext : start < next) (mid mid' : Option Int) (rest : List Sample) :
    Sums.ofHold mid (next - max start clipMs) +
        gainedTo clipMs clip ((start, mid) :: (next, mid') :: rest) =
      Sums.ofHold mid (next - max start clip) := by
  cases mid with
  | none => rfl
  | some m =>
      have hheld : ((next - max start clipMs : Nat) : Int) +
          ((max (min next clipMs) start : Int) - (max (min next clip) start : Int)) =
            ((next - max start clip : Nat) : Int) := by omega
      refine Prod.ext ?_ hheld
      calc
        m * ((next - max start clipMs : Nat) : Int) +
              m * ((max (min next clipMs) start : Int) - (max (min next clip) start : Int)) =
            m * (((next - max start clipMs : Nat) : Int) +
              ((max (min next clipMs) start : Int) - (max (min next clip) start : Int))) :=
              (mul_add _ _ _).symm
        _ = m * ((next - max start clip : Nat) : Int) := by rw [hheld]

/-- What the oldest sample holds again is what an earlier opening adds. -/
theorem closedSums_add_gainedTo {clipMs clip : Nat} (hclip : clip ≤ clipMs) {samples : List Sample}
    (h : Rising samples)
    (hsecond : ∀ first second third rest,
      samples = first :: second :: third :: rest → clipMs < second.1) :
    closedSums clipMs samples + gainedTo clipMs clip samples =
      closedSums clip (dropBefore clip samples) := by
  match samples, h, hsecond with
  | [], _, _ => rfl
  | [_], _, _ => rfl
  | (start, mid) :: (next, mid') :: rest, h, hsecond =>
      obtain ⟨hstart, hrest⟩ := List.pairwise_cons.1 h
      have hnext : start < next := hstart _ List.mem_cons_self
      have htail : closedSums clipMs ((next, mid') :: rest) =
          closedSums clip ((next, mid') :: rest) := by
        cases rest with
        | nil => rfl
        | cons third rest =>
            -- Two closed samples: only the first can start before the old opening.
            have hlate : clipMs < next := hsecond _ _ _ _ rfl
            refine closedSums_late (fun sample hsample => ?_)
            have hle : next ≤ sample.1 := by
              rcases List.mem_cons.1 hsample with rfl | hsample
              · exact le_rfl
              · exact ((List.pairwise_cons.1 hrest).1 sample hsample).le
            exact ⟨by omega, by omega⟩
      have hhead := ofHold_add_gainedTo hclip hnext mid mid' rest
      have hsum : closedSums clipMs ((start, mid) :: (next, mid') :: rest) +
          gainedTo clipMs clip ((start, mid) :: (next, mid') :: rest) =
            closedSums clip ((start, mid) :: (next, mid') :: rest) := by
        simp only [closedSums, Sums.add_eq]
        rw [htail, ← hhead]
        abel
      by_cases hdrop : next ≤ clip
      · -- The first sample goes, and it held for no time after the opening.
        cases rest with
        | nil =>
            have hzero : next - max start clip = 0 := by omega
            rw [hsum]
            simp [closedSums, dropBefore, hdrop, hzero, Sums.add_eq]
        | cons third rest =>
            have hlate : clipMs < next := hsecond _ _ _ _ rfl
            omega
      · rw [hsum, dropBefore, if_neg hdrop]

/-! ## What is kept of the samples -/

theorem dropBefore_ne_nil (clip : Nat) : ∀ {samples : List Sample}, samples ≠ [] →
    dropBefore clip samples ≠ []
  | [], h => absurd rfl h
  | [_], h => h
  | first :: second :: rest, h => by
      unfold dropBefore
      split
      · exact dropBefore_ne_nil clip (List.cons_ne_nil _ _)
      · exact h

theorem dropBefore_suffix (clip : Nat) : ∀ samples : List Sample,
    dropBefore clip samples <:+ samples
  | [] => List.suffix_rfl
  | [_] => List.suffix_rfl
  | first :: second :: rest => by
      unfold dropBefore
      split
      · exact (dropBefore_suffix clip (second :: rest)).trans (List.suffix_cons _ _)
      · exact List.suffix_rfl

/-- After the drop only the first sample may start at or before the opening. -/
theorem lt_second_of_dropBefore {clip : Nat} : ∀ {samples : List Sample} {first second rest},
    dropBefore clip samples = first :: second :: rest → clip < second.1
  | [], _, _, _, h => nomatch h
  | [_], _, _, _, h => nomatch h
  | a :: b :: samples, first, second, rest, h => by
      unfold dropBefore at h
      split at h
      case isTrue => exact lt_second_of_dropBefore h
      case isFalse hlate =>
        injection h with _ h
        injection h with h _
        exact h ▸ not_le.1 hlate

theorem closedSums_append (clip : Nat) (newest : Sample) : ∀ {samples : List Sample} {last},
    samples.getLast? = some last →
      closedSums clip (samples ++ [newest]) =
        closedSums clip samples + Sums.ofHold last.2 (newest.1 - max last.1 clip)
  | [], _, h => nomatch h
  | [sample], last, h => by
      cases h
      exact (add_zero _).trans (zero_add _).symm
  | (start, mid) :: (next, mid') :: rest, last, h => by
      have hlast : ((next, mid') :: rest).getLast? = some last := by
        rwa [List.getLast?_cons_cons] at h
      have hstep := closedSums_append clip newest hlast
      simp only [List.cons_append, closedSums, Sums.add_eq] at hstep ⊢
      rw [hstep]
      abel

theorem closedSums_setNewestMid (clip : Nat) (midCents : Option Int) : ∀ samples : List Sample,
    closedSums clip (setNewestMid midCents samples) = closedSums clip samples
  | [] => rfl
  | [_] => rfl
  | [_, _] => rfl
  | first :: (next, mid) :: third :: rest => by
      have hstep := closedSums_setNewestMid clip midCents ((next, mid) :: third :: rest)
      simp only [setNewestMid, closedSums] at hstep ⊢
      rw [hstep]

/-- A new mid leaves the samples' times as they are. -/
theorem setNewestMid_times (midCents : Option Int) : ∀ samples : List Sample,
    (setNewestMid midCents samples).map Prod.fst = samples.map Prod.fst
  | [] => rfl
  | [_] => rfl
  | first :: second :: rest => by
      show first.1 :: (setNewestMid midCents (second :: rest)).map Prod.fst = _
      rw [setNewestMid_times midCents (second :: rest)]
      rfl

theorem mem_setNewestMid {midCents : Option Int} {sample : Sample} : ∀ {samples : List Sample},
    sample ∈ setNewestMid midCents samples → sample ∈ samples ∨ sample.2 = midCents
  | [], h => nomatch h
  | [(start, _)], h => by
      cases List.mem_singleton.1 h
      exact .inr rfl
  | first :: second :: rest, h => by
      rcases List.mem_cons.1 h with rfl | h
      · exact .inl List.mem_cons_self
      · exact (mem_setNewestMid h).imp_left (List.mem_cons_of_mem _)

/-! ## A window the engine has kept -/

/-- What holds of every window something has been recorded into. -/
structure Coherent (w : SymbolWindow) : Prop where
  recorded : w.samples ≠ []
  rising : Rising w.samples
  /-- Only the oldest sample can start before the opening. -/
  opened : ∀ first second rest, w.samples = first :: second :: rest → w.clipMs < second.1
  sums : (w.closedWeighted, w.closedWeight) = closedSums w.clipMs w.samples
  span : ∀ sample ∈ w.samples, sample.1 ≤ w.clipMs + windowMs

/-- What holds of every window the engine has recorded a mid into. -/
structure Kept (w : SymbolWindow) : Prop extends Coherent w where
  positive : ∀ sample ∈ w.samples, ∀ mid, sample.2 = some mid → 0 < mid

theorem coherent_clipTo {w : SymbolWindow} {clip : Nat} (hrecorded : w.samples ≠ [])
    (hrising : Rising w.samples)
    (hopened : ∀ first second third rest,
      w.samples = first :: second :: third :: rest → w.clipMs < second.1)
    (hsums : (w.closedWeighted, w.closedWeight) = closedSums w.clipMs w.samples)
    (hspan : ∀ sample ∈ w.samples, sample.1 ≤ clip + windowMs) :
    Coherent (w.clipTo clip) where
  recorded := dropBefore_ne_nil clip hrecorded
  rising := hrising.sublist (dropBefore_suffix clip w.samples).sublist
  opened _ _ _ h := lt_second_of_dropBefore h
  sums := by
    unfold clipTo
    -- The opening moves forward and the sums lose, or back and they gain.
    by_cases hclip : w.clipMs ≤ clip
    · have hloss := closedSums_sub_lossTo hclip hrising
      rw [← hsums] at hloss
      simp only [if_pos hclip]
      exact hloss
    · have hgain := closedSums_add_gainedTo (not_le.1 hclip).le hrising hopened
      rw [← hsums] at hgain
      simp only [if_neg hclip]
      exact hgain
  span sample hsample := hspan sample ((dropBefore_suffix clip w.samples).subset hsample)

theorem le_sub_windowMs_add {sample at' : Nat} (h : sample ≤ at') :
    sample ≤ at' - windowMs + windowMs := by omega

/-- Recording a mid keeps the window in order. -/
theorem Coherent.observe {w : SymbolWindow} (h : Coherent w) (atMs : Nat)
    (midCents : Option Int) : Coherent (w.observe atMs midCents) := by
  -- A window is never empty, so there is a newest sample.
  obtain ⟨⟨last, mid⟩, hlast⟩ : ∃ newest, w.samples.getLast? = some newest :=
    Option.ne_none_iff_exists'.1 (mt List.getLast?_eq_none_iff.1 h.recorded)
  have hle : ∀ sample ∈ w.samples, sample.1 ≤ last := fun _ hsample => h.rising.le_getLast hlast hsample
  have hspan : ∀ sample ∈ w.samples,
      sample.1 ≤ max atMs last - windowMs + windowMs := fun sample hsample =>
    le_sub_windowMs_add ((hle sample hsample).trans (le_max_right _ _))
  unfold SymbolWindow.observe
  simp only [hlast]
  by_cases hsame : last = max atMs last
  · -- Only the newest mid changes, and it is not in the sums.
    rw [if_pos hsame]
    have htimes := setNewestMid_times midCents w.samples
    refine coherent_clipTo (fun hnil => h.recorded ?_) ?_ (fun first second third rest heq => ?_)
      ?_ (fun sample hsample => ?_)
    · have hnil' : setNewestMid midCents w.samples = [] := hnil
      rw [hnil'] at htimes
      exact List.map_eq_nil_iff.1 htimes.symm
    · refine rising_iff_times.2 ?_
      show ((setNewestMid midCents w.samples).map Prod.fst).Pairwise (· < ·)
      rw [htimes]
      exact rising_iff_times.1 h.rising
    · have heq' : setNewestMid midCents w.samples = first :: second :: third :: rest := heq
      rw [heq'] at htimes
      match hsamples : w.samples, htimes with
      | [_], htimes =>
          injection htimes with _ htimes
          cases htimes
      | a :: b :: samples, htimes =>
          have hsecond := h.opened a b samples hsamples
          injection htimes with _ htimes
          injection htimes with htimes _
          show w.clipMs < second.1
          rwa [htimes]
    · exact h.sums.trans (closedSums_setNewestMid _ _ _).symm
    · have hfst : sample.1 ∈ (setNewestMid midCents w.samples).map Prod.fst :=
        List.mem_map_of_mem hsample
      rw [htimes] at hfst
      obtain ⟨old, hold, heq⟩ := List.mem_map.1 hfst
      exact heq ▸ hspan old hold
  · rw [if_neg hsame]
    have hnewer : last < max atMs last := by omega
    by_cases hheld : mid = midCents
    · -- The mid still holds, and only the opening moves.
      rw [if_pos hheld]
      exact coherent_clipTo h.recorded h.rising (fun first second third rest => h.opened _ _ _)
        h.sums hspan
    · rw [if_neg hheld]
      -- A new sample opens, and the one before it joins the sums.
      refine coherent_clipTo (List.append_ne_nil_of_right_ne_nil _ (List.cons_ne_nil _ _))
        (h.rising.append (fun sample hsample => (hle sample hsample).trans_lt hnewer))
        (fun first second third rest heq => ?_) ?_ (fun sample hsample => ?_)
      · have heq' : w.samples ++ [(max atMs last, midCents)] =
            first :: second :: third :: rest := heq
        match hsamples : w.samples, heq' with
        | [_], heq' => cases heq'
        | a :: b :: samples, heq' =>
            have hsecond := h.opened a b samples hsamples
            injection heq' with _ heq'
            injection heq' with heq' _
            exact heq' ▸ hsecond
      · -- The sample that was newest closes here.
        calc
          (w.closedWeighted, w.closedWeight) +
                Sums.ofHold mid (max atMs last - max last w.clipMs) =
              closedSums w.clipMs w.samples +
                Sums.ofHold mid (max atMs last - max last w.clipMs) := by rw [h.sums]
          _ = closedSums w.clipMs (w.samples ++ [(max atMs last, midCents)]) :=
              (closedSums_append w.clipMs (max atMs last, midCents) hlast).symm
      · rcases List.mem_append.1 hsample with hold | hnew
        · exact hspan sample hold
        · exact (List.mem_singleton.1 hnew) ▸ le_sub_windowMs_add le_rfl

/-- A window's first mid. -/
theorem coherent_first (atMs : Nat) (midCents : Option Int) :
    Coherent (SymbolWindow.default.observe atMs midCents) :=
  coherent_clipTo (List.cons_ne_nil _ _) (List.pairwise_singleton _ _) (fun _ _ _ _ h => nomatch h)
    rfl (fun _ hsample => (List.mem_singleton.1 hsample) ▸ le_sub_windowMs_add le_rfl)

/-- Recording a mid adds no other one. -/
theorem mem_observe {w : SymbolWindow} {atMs : Nat} {midCents : Option Int} {sample : Sample}
    (h : sample ∈ (w.observe atMs midCents).samples) :
    sample ∈ w.samples ∨ sample.2 = midCents := by
  unfold SymbolWindow.observe at h
  split at h
  case h_1 hnone =>
    have hmem := (dropBefore_suffix _ _).subset h
    rcases List.mem_append.1 hmem with hold | hnew
    · exact .inl hold
    · exact .inr (congrArg Prod.snd (List.mem_singleton.1 hnew))
  case h_2 last mid hlast =>
    -- The newest mid is set, or nothing is, or a sample joins.
    simp only at h
    split_ifs at h
    · exact mem_setNewestMid ((dropBefore_suffix _ _).subset h)
    · exact .inl ((dropBefore_suffix _ _).subset h)
    · have hmem := (dropBefore_suffix _ _).subset h
      rcases List.mem_append.1 hmem with hold | hnew
      · exact .inl hold
      · exact .inr (congrArg Prod.snd (List.mem_singleton.1 hnew))

theorem Kept.observe {w : SymbolWindow} (h : Kept w) (atMs : Nat) {midCents : Option Int}
    (hmid : ∀ mid, midCents = some mid → 0 < mid) : Kept (w.observe atMs midCents) where
  toCoherent := h.toCoherent.observe atMs midCents
  positive sample hsample mid hsome := by
    rcases mem_observe hsample with hold | hnew
    · exact h.positive sample hold mid hsome
    · exact hmid mid (hnew.symm.trans hsome)

theorem kept_first (atMs : Nat) {midCents : Option Int}
    (hmid : ∀ mid, midCents = some mid → 0 < mid) :
    Kept (SymbolWindow.default.observe atMs midCents) where
  toCoherent := coherent_first atMs midCents
  positive sample hsample mid hsome := by
    rcases mem_observe hsample with hold | hnew
    · exact nomatch hold
    · exact hmid mid (hnew.symm.trans hsome)

/-- A window holds at most one sample a millisecond, and the one it opens under. -/
theorem Coherent.length_le {w : SymbolWindow} (h : Coherent w) : w.samples.length ≤ windowMs + 1 := by
  match hsamples : w.samples with
  | [] => exact Nat.zero_le _
  | first :: rest =>
      have hrising : (rest.map Prod.fst).Pairwise (· < ·) :=
        rising_iff_times.1 (List.pairwise_cons.1 (hsamples ▸ h.rising)).2
      -- Past the first one, samples are at different milliseconds inside the window.
      have hsub : (rest.map Prod.fst).toFinset ⊆ Finset.Ioc w.clipMs (w.clipMs + windowMs) := by
        intro time htime
        obtain ⟨sample, hsample, rfl⟩ := List.mem_map.1 (List.mem_toFinset.1 htime)
        refine Finset.mem_Ioc.2 ⟨?_, h.span sample (hsamples ▸ List.mem_cons_of_mem _ hsample)⟩
        match rest, hsample with
        | second :: rest, hsample =>
            have hsecond := h.opened first second rest hsamples
            rcases List.mem_cons.1 hsample with rfl | hsample
            · exact hsecond
            · exact hsecond.trans ((List.pairwise_cons.1 (List.pairwise_cons.1
                (hsamples ▸ h.rising)).2).1 sample hsample)
      have hcard := Finset.card_le_card hsub
      rw [List.toFinset_card_of_nodup (hrising.imp (fun h => ne_of_lt h)), Nat.card_Ioc,
        List.length_map] at hcard
      simp only [List.length_cons]
      omega

/-- Two kept windows with the same opening and samples are one window. -/
theorem Kept.eq_of_row {w w' : SymbolWindow} (h : Kept w) (h' : Kept w')
    (hclip : w.clipMs = w'.clipMs) (hsamples : w.samples = w'.samples) : w = w' := by
  have hsums := h.sums.trans ((by rw [hclip, hsamples] :
    closedSums w.clipMs w.samples = closedSums w'.clipMs w'.samples).trans h'.sums.symm)
  cases w
  cases w'
  simp only [Prod.mk.injEq] at hsums hclip hsamples
  simp [hsums, hclip, hsamples]

end SymbolWindow

namespace MidWindow

/-- Every symbol's window is one the engine has kept. -/
def Kept (mids : MidWindow) : Prop := ∀ symbol w, mids.get? symbol = some w → w.Kept

theorem kept_empty : Kept SortedMap.empty := fun _ _ h => nomatch h

theorem Kept.observe {mids : MidWindow} (h : Kept mids) (symbol : String) (atMs : Nat)
    {midCents : Option Int} (hmid : ∀ mid, midCents = some mid → 0 < mid) :
    Kept (mids.observe symbol atMs midCents) := by
  intro other w hw
  unfold MidWindow.observe at hw
  rw [SortedMap.get?_insert] at hw
  split at hw
  case isTrue =>
    cases hw
    unfold SortedMap.getD
    cases hold : mids.get? symbol with
    | none => exact SymbolWindow.kept_first atMs hmid
    | some old => exact (h symbol old hold).observe atMs hmid
  case isFalse => exact h other w hw

/-- The rows that are hashed say everything about the windows. -/
theorem Kept.eq_of_snapshot {mids mids' : MidWindow} (h : Kept mids) (h' : Kept mids')
    (hrows : mids.snapshot = mids'.snapshot) : mids = mids' := by
  refine SortedMap.ext (fun symbol => ?_)
  have hrow := congrArg (fun rows => rows.get? symbol) hrows
  simp only [snapshot, SortedMap.get?_mapValues] at hrow
  cases hw : mids.get? symbol with
  | none => cases hw' : mids'.get? symbol with
    | none => rfl
    | some w' => simp [hw, hw'] at hrow
  | some w => cases hw' : mids'.get? symbol with
    | none => simp [hw, hw'] at hrow
    | some w' =>
        simp only [hw, hw', Option.map_some, Option.some.injEq, MidWindowRow.mk.injEq] at hrow
        exact congrArg some ((h symbol w hw).eq_of_row (h' symbol w' hw') hrow.1 hrow.2)

end MidWindow

end Matcher
end VerifiableExchange
