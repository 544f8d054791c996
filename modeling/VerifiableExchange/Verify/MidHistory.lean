import VerifiableExchange.Matcher.ReferenceRuns
import VerifiableExchange.Matcher.Steps

/-!
# MidHistory — the checker's own reading of the reference price

The checker keeps every sample of the window, repeats included, and walks them all on every
question. It shares no code with the exchange; both answer as the definition says on every log
whose timestamps do not go down, so both bound a market order at the same price.
-/

namespace VerifiableExchange
namespace Verify

open Lib Lib.StepFunction Matcher

/-- How far back the reference price is averaged, in milliseconds. -/
def referenceWindowMs : Nat := 30000

/-- How far past the reference price a market order may fill, in basis points. -/
def collarBasisPoints : Int := 200

/-- The collar only ever tightens a bound. -/
def collar (side : Side) (signedLimitCents referenceCents : Int) : Int :=
  let band := max 1 ((referenceCents * collarBasisPoints).tdiv 10000)
  match side with
  | .buy => min signedLimitCents (referenceCents + band)
  | .sell => max signedLimitCents (max 1 (referenceCents - band))

/-- The mid price each replayed book showed, and when it showed it. -/
abbrev MidHistory := SortedMap String (List Sample)

namespace MidHistory

/-- Drops the oldest entries that no later question can reach. -/
def dropBefore (opened : Nat) : List Sample → List Sample
  | oldest :: second :: rest =>
      if second.1 ≤ opened then dropBefore opened (second :: rest) else oldest :: second :: rest
  | held => held

/-- One symbol's entries after the book showed a mid. A timestamp that does not go up is read as
the last one that did. -/
def showedOne (held : List Sample) (atMs : Nat) (midCents : Option Int) : List Sample :=
  match held.getLast? with
  | none => dropBefore (max atMs atMs - referenceWindowMs) (held ++ [(max atMs atMs, midCents)])
  | some newest =>
      let at' := max atMs newest.1
      let held :=
        if newest.1 = at' then held.dropLast ++ [(newest.1, midCents)]
        else held ++ [(at', midCents)]
      dropBefore (at' - referenceWindowMs) held

/-- Records the mid a book showed after a message finished with it. -/
def showed (history : MidHistory) (symbol : String) (atMs : Nat) (midCents : Option Int) :
    MidHistory :=
  history.insert symbol (showedOne (history.getD symbol []) atMs midCents)

/-- The total of `mid * milliseconds`, and the milliseconds, over every entry. -/
def totals (atMs opened : Nat) : List Sample → Int × Int
  | [] => (0, 0)
  | (shownFrom, mid) :: rest =>
      let ends := (rest.head?.map Prod.fst).getD atMs
      let start := max shownFrom opened
      let stop := min ends atMs
      let later := totals atMs opened rest
      match mid with
      | some mid =>
          if start < stop then
            (mid * ((stop - start : Nat) : Int) + later.1, ((stop - start : Nat) : Int) + later.2)
          else later
      | none => later

/-- The reference price at `atMs`, or `none` when no mid has held for any time in the window. -/
def referenceCents (history : MidHistory) (symbol : String) (atMs : Nat) : Option Int :=
  match history.get? symbol with
  | none => none
  | some held =>
      let sums := totals atMs (atMs - referenceWindowMs) held
      if sums.2 = 0 then none else some (MidWindow.castI64 (sums.1.tdiv sums.2))

/-! ## The walk over the entries -/

theorem dropBefore_eq (opened : Nat) : ∀ held : List Sample,
    dropBefore opened held = SymbolWindow.dropBefore opened held
  | [] => rfl
  | [_] => rfl
  | oldest :: second :: rest => by
      rw [dropBefore, SymbolWindow.dropBefore, dropBefore_eq opened (second :: rest)]

theorem totals_eq_holds (atMs opened : Nat) : ∀ held : List Sample,
    totals atMs opened held = holds perMs opened atMs held
  | [] => rfl
  | (shownFrom, mid) :: rest => by
      have hrest := totals_eq_holds atMs opened rest
      -- The last entry holds until the moment asked about, the others until the next one.
      have hholds : holds perMs opened atMs ((shownFrom, mid) :: rest) =
          (min ((rest.head?.map Prod.fst).getD atMs) atMs - max shownFrom opened) • perMs mid +
            holds perMs opened atMs rest := by
        cases rest with
        | nil => simp [holds]
        | cons next rest => rfl
      rw [hholds, ← hrest, ← ofHold_eq_nsmul]
      cases mid with
      | none => exact (zero_add _).symm
      | some mid =>
          rw [totals]
          split
          case isTrue => rfl
          case isFalse hnone =>
            rw [Nat.sub_eq_zero_of_le (not_lt.1 hnone), Sums.ofHold_zero, zero_add]

/-! ## Its entries over a run -/

theorem agrees_showedOne {latest atMs : Nat} {placed held : List Sample} {mid : Option Int}
    (h : Agrees latest placed held) (hlatest : latest ≤ atMs) :
    Agrees atMs (placed ++ [(atMs, mid)]) (showedOne held atMs mid) := by
  obtain ⟨⟨last, newestMid⟩, hlast⟩ : ∃ newest, held.getLast? = some newest :=
    Option.ne_none_iff_exists'.1 (mt List.getLast?_eq_none_iff.1 h.recorded)
  have hnewest : last ≤ atMs := (h.newest _ (List.mem_of_getLast? hlast)).trans hlatest
  unfold showedOne
  rw [hlast]
  simp only
  rw [max_eq_left hnewest, dropBefore_eq]
  by_cases hsame : last = atMs
  · -- The newest entry takes the new mid.
    have hset : held.dropLast ++ [(last, mid)] = SymbolWindow.setNewestMid mid held := by
      obtain ⟨front, rfl⟩ := List.getLast?_eq_some_iff.1 hlast
      rw [List.dropLast_concat, setNewestMid_append]
    rw [if_pos hsame, hset]
    refine h.setNewest hlatest le_rfl (fun moment => ?_)
    rw [shownAt_setNewestMid hlast, hsame]
  · -- A new entry, even where the mid repeats.
    rw [if_neg hsame]
    refine h.push mid hlatest le_rfl (fun entry hentry => ?_)
    exact (h.rising.le_getLast hlast hentry).trans_lt (lt_of_le_of_ne hnewest hsame)

def showedAll (history : MidHistory) (observations : List Observation) : MidHistory :=
  observations.foldl
    (fun history observed => history.showed observed.symbol observed.atMs observed.midCents) history

/-- A symbol's entries come from its own observations alone. -/
theorem get?_showedAll (symbol : String) (observations : List Observation) :
    (showedAll SortedMap.empty observations).get? symbol =
      if ofSymbol symbol observations = [] then none
      else some ((ofSymbol symbol observations).foldl
        (fun held sample => showedOne held sample.1 sample.2) []) :=
  get?_foldl_ofSymbol [] (fun held sample => showedOne held sample.1 sample.2) symbol observations
    SortedMap.empty

/-- The entries over observations whose timestamps do not go down. -/
theorem agrees_foldl_showedOne : ∀ {observed : List Sample} {latest : Nat}
    {placed held : List Sample}, Agrees latest placed held → Ordered observed →
      (∀ sample ∈ observed, latest ≤ sample.1) →
        Agrees (latestFrom latest observed) (placed ++ placedFrom latest observed)
          (observed.foldl (fun held sample => showedOne held sample.1 sample.2) held)
  | [], _, _, _, h, _, _ => by
      rw [placedFrom, List.append_nil]
      exact h
  | (atMs, mid) :: rest, latest, placed, held, h, hordered, hlatest => by
      obtain ⟨hfirst, hrest⟩ := List.pairwise_cons.1 hordered
      have hle : latest ≤ atMs := hlatest (atMs, mid) List.mem_cons_self
      have hshown : Agrees atMs (placed ++ [(atMs, mid)]) (showedOne held atMs mid) :=
        agrees_showedOne h hle
      have hnext := agrees_foldl_showedOne hshown hrest hfirst
      rw [List.append_assoc] at hnext
      simpa only [placedFrom, latestFrom, List.foldl_cons, max_eq_right hle,
        List.singleton_append] using hnext

theorem agrees_showedAll {observed : List Sample} (hne : observed ≠ []) (hordered : Ordered observed) :
    Agrees (latestFrom 0 observed) (placed observed)
      (observed.foldl (fun held sample => showedOne held sample.1 sample.2) []) := by
  match observed, hne, hordered with
  | (atMs, mid) :: rest, _, hordered =>
      obtain ⟨hfirst, hrest⟩ := List.pairwise_cons.1 hordered
      have hshowed : showedOne [] atMs mid = [(atMs, mid)] := by
        simp [showedOne, dropBefore]
      have hrun := agrees_foldl_showedOne (agrees_first atMs mid) hrest hfirst
      simpa only [placed, placedFrom, latestFrom, List.foldl_cons, hshowed, Nat.zero_max,
        List.singleton_append] using hrun

/-- The checker divides the sums of what was placed. -/
theorem referenceCents_of_agrees {history : MidHistory} {symbol : String} {held : List Sample}
    {latest atMs : Nat} {placed : List Sample} (hheld : history.get? symbol = some held)
    (hagrees : Agrees latest placed held) (hanswers : Answers latest placed held atMs) :
    history.referenceCents symbol atMs =
      if (holds perMs (atMs - windowMs) atMs placed).2 = 0 then none
      else some (MidWindow.castI64 ((holds perMs (atMs - windowMs) atMs placed).1.tdiv
        (holds perMs (atMs - windowMs) atMs placed).2)) := by
  unfold referenceCents
  rw [hheld]
  simp only
  rw [totals_eq_holds]
  rw [show holds perMs (atMs - referenceWindowMs) atMs held =
    holds perMs (atMs - windowMs) atMs placed from hagrees.holds_eq hanswers]

/-- On a log whose timestamps do not go down, the exchange and its checker read one reference
price and bound a market order at one price. -/
theorem referenceCents_eq_exchange (observations : List Observation) (symbol : String) (atMs : Nat)
    (hordered : observations.Pairwise (fun a b => a.atMs ≤ b.atMs))
    (hnewest : ∀ observed ∈ observations, observed.atMs ≤ atMs) :
    (showedAll SortedMap.empty observations).referenceCents symbol atMs =
        (MidWindow.observeAll SortedMap.empty observations).referenceCents symbol atMs ∧
      ∀ (side : Side) (limitCents : Int),
        ((showedAll SortedMap.empty observations).referenceCents symbol atMs).map
            (collar side limitCents) =
          ((MidWindow.observeAll SortedMap.empty observations).referenceCents symbol atMs).map
            (Matcher.collar side limitCents) := by
  have hsame : (showedAll SortedMap.empty observations).referenceCents symbol atMs =
      (MidWindow.observeAll SortedMap.empty observations).referenceCents symbol atMs := by
    have hheld := get?_showedAll symbol observations
    have hw := MidWindow.get?_observeAll symbol observations
    by_cases hown : ofSymbol symbol observations = []
    · rw [if_pos hown] at hheld hw
      unfold referenceCents MidWindow.referenceCents
      rw [hheld, hw]
    · rw [if_neg hown] at hheld hw
      have howned : Ordered (ofSymbol symbol observations) :=
        List.pairwise_map.2 (hordered.filter _)
      have hlatest : latestFrom 0 (ofSymbol symbol observations) ≤ atMs := by
        refine latestFrom_le (Nat.zero_le _) (fun sample hsample => ?_)
        obtain ⟨observed, hobserved, rfl⟩ := List.mem_map.1 hsample
        exact hnewest observed (List.mem_filter.1 hobserved).1
      have hchecker := agrees_showedAll hown howned
      obtain ⟨hexchange, hcoherent⟩ := (SymbolWindow.alwaysAdvances_of_ordered
        (w := SymbolWindow.default) howned (fun _ _ => Nat.zero_le _)).fromDefault hown
      rw [referenceCents_of_agrees hheld hchecker (.inl hlatest),
        MidWindow.referenceCents_of_agrees hw hexchange hcoherent (.inl hlatest)]
      -- A weight that is not zero is a positive one.
      have hnonneg := holds_perMs_nonneg hchecker.ordered (atMs - windowMs) atMs
      split_ifs <;> first | rfl | omega
  refine ⟨hsame, fun side limitCents => ?_⟩
  rw [hsame]
  refine Option.map_congr (fun reference _ => ?_)
  cases side with
  | buy => rw [collar, Matcher.collar, max_comm 1]; rfl
  | sell => rw [collar, Matcher.collar, max_comm 1, max_comm 1]; rfl

/-- Two symbols, a repeated mid, two mids in one millisecond, and a book that loses a side. -/
def quotedRun : List Observation :=
  [⟨"ETH-USDC", 1000, some 10000⟩, ⟨"ETH-USDC", 20000, some 10000⟩,
    ⟨"BTC-USDC", 20000, some 5000000⟩, ⟨"ETH-USDC", 20000, some 20000⟩,
    ⟨"ETH-USDC", 45000, none⟩]

theorem referenceCents_eq_exchange_sample :
    (showedAll SortedMap.empty quotedRun).referenceCents "ETH-USDC" 47000 =
        (MidWindow.observeAll SortedMap.empty quotedRun).referenceCents "ETH-USDC" 47000 ∧
      ∀ (side : Side) (limitCents : Int),
        ((showedAll SortedMap.empty quotedRun).referenceCents "ETH-USDC" 47000).map
            (collar side limitCents) =
          ((MidWindow.observeAll SortedMap.empty quotedRun).referenceCents "ETH-USDC" 47000).map
            (Matcher.collar side limitCents) :=
  referenceCents_eq_exchange quotedRun "ETH-USDC" 47000 (by decide) (by decide)

end MidHistory

end Verify
end VerifiableExchange
