import Mathlib.Algebra.BigOperators.Intervals
import Mathlib.Order.Interval.Finset.Nat

/-!
# StepFunction — values that hold until the next one is set

A list of settings, oldest first: each is a moment and the value set then. What the values add up
to over a stretch of time depends only on the value at each moment of it, so two lists that show
the same value at every moment have the same sums, whatever settings each of them keeps.
-/

namespace VerifiableExchange
namespace Lib
namespace StepFunction

variable {α M : Type*}

/-- The value last set at or before a moment, and `before` where none is. -/
def valueAt (before : α) (settings : List (Nat × α)) (moment : Nat) : α :=
  settings.foldl (fun value setting => if setting.1 ≤ moment then setting.2 else value) before

@[simp] theorem valueAt_nil (before : α) (moment : Nat) : valueAt before [] moment = before := rfl

@[simp] theorem valueAt_cons (before : α) (setting : Nat × α) (rest : List (Nat × α))
    (moment : Nat) :
    valueAt before (setting :: rest) moment =
      valueAt (if setting.1 ≤ moment then setting.2 else before) rest moment := rfl

/-- A setting at the end covers what came before it. -/
theorem valueAt_append_singleton (before : α) (settings : List (Nat × α)) (setting : Nat × α)
    (moment : Nat) :
    valueAt before (settings ++ [setting]) moment =
      if setting.1 ≤ moment then setting.2 else valueAt before settings moment := by
  rw [valueAt, List.foldl_append]
  rfl

theorem valueAt_of_lt {before : α} {moment : Nat} : ∀ {settings : List (Nat × α)},
    (∀ setting ∈ settings, moment < setting.1) → valueAt before settings moment = before
  | [], _ => rfl
  | setting :: rest, h => by
      obtain ⟨hfirst, hrest⟩ := List.forall_mem_cons.1 h
      rw [valueAt_cons, if_neg (not_le.2 hfirst)]
      exact valueAt_of_lt hrest

/-- From a setting on, nothing set before it is seen. -/
theorem valueAt_append_cons {before before' : α} {setting : Nat × α} {moment : Nat}
    (h : setting.1 ≤ moment) (older rest : List (Nat × α)) :
    valueAt before (older ++ setting :: rest) moment = valueAt before' (setting :: rest) moment := by
  rw [valueAt, List.foldl_append, List.foldl_cons, if_pos h, valueAt_cons, if_pos h]
  rfl

/-- A value that only settings give is one of theirs. -/
theorem valueAt_mem {before : α} {moment : Nat} : ∀ {settings : List (Nat × α)},
    valueAt before settings moment = before ∨
      ∃ setting ∈ settings, valueAt before settings moment = setting.2
  | [] => .inl rfl
  | setting :: rest => by
      rw [valueAt_cons]
      split
      case isTrue =>
        rcases @valueAt_mem setting.2 moment rest with h | h
        · exact .inr ⟨setting, List.mem_cons_self, h⟩
        · obtain ⟨later, hlater, h⟩ := h
          exact .inr ⟨later, List.mem_cons_of_mem _ hlater, h⟩
      case isFalse =>
        refine valueAt_mem.imp_right (fun ⟨later, hlater, h⟩ => ?_)
        exact ⟨later, List.mem_cons_of_mem _ hlater, h⟩

/-! ## What the values add up to -/

/-- No setting is earlier than one before it. -/
def Ordered (settings : List (Nat × α)) : Prop := settings.Pairwise (fun a b => a.1 ≤ b.1)

theorem Ordered.append {settings : List (Nat × α)} (h : Ordered settings) {newest : Nat × α}
    (hnewest : ∀ setting ∈ settings, setting.1 ≤ newest.1) : Ordered (settings ++ [newest]) :=
  List.pairwise_append.2 ⟨h, List.pairwise_singleton _ _, fun setting hsetting _ hb =>
    (List.mem_singleton.1 hb) ▸ hnewest setting hsetting⟩

variable [AddCommMonoid M]

/-- Each value's weight, as often as the moments from `opens` to `ends` that it held. The newest
value holds to the end. -/
def holds (weight : α → M) (opens ends : Nat) : List (Nat × α) → M
  | [] => 0
  | [(start, value)] => (ends - max start opens) • weight value
  | (start, value) :: (next, value') :: rest =>
      (min next ends - max start opens) • weight value +
        holds weight opens ends ((next, value') :: rest)

/-- A weight on one stretch of a longer one. -/
theorem sum_ite_stretch (opens ends start stop : Nat) (weight : M) :
    (∑ moment ∈ Finset.Ico opens ends, if start ≤ moment ∧ moment < stop then weight else 0) =
      (min stop ends - max start opens) • weight := by
  have hstretch : (Finset.Ico opens ends).filter (fun moment => start ≤ moment ∧ moment < stop) =
      Finset.Ico (max start opens) (min stop ends) := by
    ext moment
    simp only [Finset.mem_filter, Finset.mem_Ico]
    omega
  rw [← Finset.sum_filter, hstretch, Finset.sum_const, Nat.card_Ico]

/-- The value at a moment is the first setting's until the next one, and then the others'. -/
theorem weight_valueAt_cons {weight : α → M} {before : α} (hbefore : weight before = 0)
    {start next : Nat} {value value' : α} {rest : List (Nat × α)}
    (h : Ordered ((start, value) :: (next, value') :: rest)) (moment : Nat) :
    weight (valueAt before ((start, value) :: (next, value') :: rest) moment) =
      (if start ≤ moment ∧ moment < next then weight value else 0) +
        weight (valueAt before ((next, value') :: rest) moment) := by
  obtain ⟨-, hrest⟩ := List.pairwise_cons.1 h
  by_cases hnext : next ≤ moment
  · -- The later settings cover the first one.
    rw [if_neg (fun hheld => absurd hheld.2 (not_lt.2 hnext)), zero_add]
    simp [hnext]
  · have hlater : ∀ setting ∈ (next, value') :: rest, moment < setting.1 := by
      intro setting hsetting
      rcases List.mem_cons.1 hsetting with rfl | hsetting
      · exact not_le.1 hnext
      · exact (not_le.1 hnext).trans_le ((List.pairwise_cons.1 hrest).1 setting hsetting)
    rw [valueAt_cons, valueAt_of_lt hlater, valueAt_of_lt hlater, hbefore, add_zero]
    by_cases hstart : start ≤ moment
    · rw [if_pos hstart, if_pos ⟨hstart, not_le.1 hnext⟩]
    · rw [if_neg hstart, if_neg (fun hheld => hstart hheld.1), hbefore]

/-- The holds add up to the weight of the value at each moment. -/
theorem holds_eq_sum {weight : α → M} {before : α} (hbefore : weight before = 0)
    (opens ends : Nat) : ∀ {settings : List (Nat × α)}, Ordered settings →
      holds weight opens ends settings =
        ∑ moment ∈ Finset.Ico opens ends, weight (valueAt before settings moment)
  | [], _ => by
      simp [holds, hbefore]
  | [(start, value)], _ => by
      have hvalue : ∀ moment ∈ Finset.Ico opens ends,
          weight (valueAt before [(start, value)] moment) =
            if start ≤ moment ∧ moment < ends then weight value else 0 := by
        intro moment hmoment
        have hends : moment < ends := (Finset.mem_Ico.1 hmoment).2
        by_cases hstart : start ≤ moment
        · simp [hstart, hends]
        · simp [hstart, hbefore]
      rw [Finset.sum_congr rfl hvalue, sum_ite_stretch, min_self]
      rfl
  | (start, value) :: (next, value') :: rest, h => by
      have hrest : Ordered ((next, value') :: rest) := (List.pairwise_cons.1 h).2
      rw [Finset.sum_congr rfl (fun moment _ => weight_valueAt_cons hbefore h moment),
        Finset.sum_add_distrib, sum_ite_stretch, ← holds_eq_sum hbefore opens ends hrest]
      rfl

/-- Two lists that show the same values have the same sums. -/
theorem holds_congr {weight : α → M} {before : α} (hbefore : weight before = 0) {opens ends : Nat}
    {settings settings' : List (Nat × α)} (h : Ordered settings) (h' : Ordered settings')
    (hsame : ∀ moment, opens ≤ moment → moment < ends →
      valueAt before settings moment = valueAt before settings' moment) :
    holds weight opens ends settings = holds weight opens ends settings' := by
  rw [holds_eq_sum hbefore opens ends h, holds_eq_sum hbefore opens ends h']
  refine Finset.sum_congr rfl (fun moment hmoment => ?_)
  obtain ⟨hopens, hends⟩ := Finset.mem_Ico.1 hmoment
  rw [hsame moment hopens hends]

end StepFunction
end Lib
end VerifiableExchange
