import Mathlib.Data.Nat.Basic
import Mathlib.Order.MinMax

/-!
# Fueled — programs whose loops need not end

A program is a function of the fuel its loops are given: a loop that goes round more often than that
runs dry. Such a program settles on a result when every sufficient amount of fuel gives that result,
and a loop settles when something becomes less in every round.
-/

namespace VerifiableExchange
namespace Lib

/-- Why a program with fuel ends without an answer. -/
inductive Stop (ε : Type) where
  | failed (reason : ε)
  | dry

/-- A program each of whose loops goes round at most as often as its fuel says. -/
def Fueled (ε α : Type) : Type := Nat → Except (Stop ε) α

namespace Fueled

variable {ε α β σ : Type}

def done (a : α) : Fueled ε α := fun _ => .ok a

def fail (reason : ε) : Fueled ε α := fun _ => .error (.failed reason)

def andThen (prog : Fueled ε α) (next : α → Fueled ε β) : Fueled ε β := fun fuel =>
  match prog fuel with
  | .ok a => next a fuel
  | .error stop => .error stop

instance : Monad (Fueled ε) where
  pure := done
  bind := andThen

/-- An answer that needs no loop. -/
def lift : Except ε α → Fueled ε α
  | .ok a => done a
  | .error reason => fail reason

/-- At most `n` rounds of a body that goes on from a state or answers. -/
def rounds (body : σ → Fueled ε (σ ⊕ α)) (fuel : Nat) : Nat → σ → Except (Stop ε) α
  | 0, _ => .error .dry
  | n + 1, s =>
      match body s fuel with
      | .ok (.inl next) => rounds body fuel n next
      | .ok (.inr a) => .ok a
      | .error stop => .error stop

/-- Goes round until the body answers. -/
def loop (body : σ → Fueled ε (σ ⊕ α)) (s : σ) : Fueled ε α := fun fuel => rounds body fuel fuel s

/-! ## Settling -/

/-- What a program with enough fuel answers. -/
def answer (result : Except ε α) : Except (Stop ε) α := result.mapError .failed

/-- Every sufficient amount of fuel gives this result. -/
def Settles (prog : Fueled ε α) (result : Except ε α) : Prop :=
  ∃ enough, ∀ fuel, enough ≤ fuel → prog fuel = answer result

/-- The program has a result, and what it answers meets a postcondition. -/
def Finishes (prog : Fueled ε α) (P : α → Prop) : Prop :=
  ∃ result, prog.Settles result ∧ ∀ a, result = .ok a → P a

/-- The program has a result. -/
def Ends (prog : Fueled ε α) : Prop := ∃ result, prog.Settles result

/-- No amount of fuel is enough. -/
def RunsDry (prog : Fueled ε α) : Prop := ∀ fuel, prog fuel = .error .dry

theorem answer_inj {result result' : Except ε α} (h : answer result = answer result') :
    result = result' := by
  cases result <;> cases result' <;> cases h <;> rfl

theorem Settles.unique {prog : Fueled ε α} {result result' : Except ε α} (h : prog.Settles result)
    (h' : prog.Settles result') : result = result' := by
  obtain ⟨enough, hresult⟩ := h
  obtain ⟨enough', hresult'⟩ := h'
  have hboth := (hresult _ (Nat.le_max_left enough enough')).symm.trans
    (hresult' _ (Nat.le_max_right enough enough'))
  exact answer_inj hboth

theorem settles_done (a : α) : (done a : Fueled ε α).Settles (.ok a) := ⟨0, fun _ _ => rfl⟩

theorem settles_pure (a : α) : (pure a : Fueled ε α).Settles (.ok a) := settles_done a

theorem settles_fail (reason : ε) : (fail reason : Fueled ε α).Settles (.error reason) :=
  ⟨0, fun _ _ => rfl⟩

theorem settles_lift (result : Except ε α) : (lift result).Settles result := by
  cases result with
  | ok a => exact settles_done a
  | error reason => exact settles_fail reason

theorem Settles.bind {prog : Fueled ε α} {next : α → Fueled ε β} {a : α} {result : Except ε β}
    (h : prog.Settles (.ok a)) (hnext : (next a).Settles result) :
    (prog >>= next).Settles result := by
  obtain ⟨enough, hprog⟩ := h
  obtain ⟨enough', hrest⟩ := hnext
  refine ⟨max enough enough', fun fuel hfuel => ?_⟩
  have hfirst := hprog fuel (le_of_max_le_left hfuel)
  have hsecond := hrest fuel (le_of_max_le_right hfuel)
  change andThen prog next fuel = _
  rw [andThen, hfirst]
  exact hsecond

theorem Settles.bind_error {prog : Fueled ε α} {next : α → Fueled ε β} {reason : ε}
    (h : prog.Settles (.error reason)) : (prog >>= next).Settles (.error reason) := by
  obtain ⟨enough, hprog⟩ := h
  refine ⟨enough, fun fuel hfuel => ?_⟩
  change andThen prog next fuel = _
  rw [andThen, hprog fuel hfuel]
  rfl

/-- What comes after the answer of the first part is what the whole settles on. -/
theorem Settles.of_bind {prog : Fueled ε α} {next : α → Fueled ε β} {a : α} {result : Except ε β}
    (h : (prog >>= next).Settles result) (hfirst : prog.Settles (.ok a)) :
    (next a).Settles result := by
  obtain ⟨enough, hwhole⟩ := h
  obtain ⟨enough', hprog⟩ := hfirst
  refine ⟨max enough enough', fun fuel hfuel => ?_⟩
  have hboth := hwhole fuel (le_of_max_le_left hfuel)
  change andThen prog next fuel = _ at hboth
  rw [andThen, hprog fuel (le_of_max_le_right hfuel)] at hboth
  exact hboth

theorem ends_bind_iff {prog : Fueled ε α} {next : α → Fueled ε β} {a : α}
    (h : prog.Settles (.ok a)) : (prog >>= next).Ends ↔ (next a).Ends := by
  constructor
  · rintro ⟨result, hwhole⟩
    exact ⟨result, hwhole.of_bind h⟩
  · rintro ⟨result, hrest⟩
    exact ⟨result, h.bind hrest⟩

theorem RunsDry.not_ends {prog : Fueled ε α} (h : prog.RunsDry) : ¬prog.Ends := by
  rintro ⟨result, enough, hresult⟩
  have hboth := (h enough).symm.trans (hresult enough le_rfl)
  cases result <;> cases hboth

theorem RunsDry.bind {prog : Fueled ε α} {next : α → Fueled ε β} (h : prog.RunsDry) :
    (prog >>= next).RunsDry := by
  intro fuel
  change andThen prog next fuel = _
  rw [andThen, h fuel]

/-! ## Finishing -/

theorem finishes_done {P : α → Prop} {a : α} (h : P a) :
    (done a : Fueled ε α).Finishes P := by
  refine ⟨.ok a, settles_done a, fun b hb => ?_⟩
  cases hb
  exact h

theorem finishes_pure {P : α → Prop} {a : α} (h : P a) :
    (pure a : Fueled ε α).Finishes P := finishes_done h

theorem finishes_fail (reason : ε) (P : α → Prop) :
    (fail reason : Fueled ε α).Finishes P :=
  ⟨.error reason, settles_fail reason, fun _ h => nomatch h⟩

theorem finishes_lift {P : α → Prop} {result : Except ε α}
    (h : ∀ a, result = .ok a → P a) : (lift result).Finishes P :=
  ⟨result, settles_lift result, h⟩

theorem Finishes.ends {prog : Fueled ε α} {P : α → Prop} (h : prog.Finishes P) :
    prog.Ends := by
  obtain ⟨result, hresult, -⟩ := h
  exact ⟨result, hresult⟩

theorem Finishes.mono {prog : Fueled ε α} {P Q : α → Prop} (h : prog.Finishes P)
    (hpost : ∀ a, P a → Q a) : prog.Finishes Q := by
  obtain ⟨result, hresult, hall⟩ := h
  exact ⟨result, hresult, fun a ha => hpost a (hall a ha)⟩

/-- A program finishes if its first part does, and its rest after what the first part answers. -/
theorem Finishes.bind {prog : Fueled ε α} {next : α → Fueled ε β} {M : α → Prop}
    {P : β → Prop} (h : prog.Finishes M)
    (hnext : ∀ a, prog.Settles (.ok a) → M a → (next a).Finishes P) :
    (prog >>= next).Finishes P := by
  obtain ⟨result, hresult, hmid⟩ := h
  cases result with
  | error reason => exact ⟨.error reason, hresult.bind_error, fun _ ha => nomatch ha⟩
  | ok a =>
      obtain ⟨result, hrest, hpost⟩ := hnext a hresult (hmid a rfl)
      exact ⟨result, hresult.bind hrest, hpost⟩

theorem Finishes.map {prog : Fueled ε α} {f : α → β} {P : β → Prop}
    (h : prog.Finishes (fun a => P (f a))) : (f <$> prog).Finishes P :=
  h.bind (fun _ _ hpost => finishes_pure hpost)

/-! ## Loops -/

section

variable {body : σ → Fueled ε (σ ⊕ α)} {I : σ → Prop} {P : α → Prop}

/-- What a round answers: a state that is less, or what the loop is to answer. -/
def Progress (I : σ → Prop) (measure : σ → Nat) (P : α → Prop) (s : σ) : σ ⊕ α → Prop
  | .inl next => I next ∧ measure next < measure s
  | .inr a => P a

/-- A loop finishes where every round does and makes something less. -/
theorem finishes_loop (measure : σ → Nat)
    (hbody : ∀ s, I s → (body s).Finishes (Progress I measure P s)) {s : σ} (h : I s) :
    (loop body s).Finishes P := by
  -- The number of rounds and the fuel of the bodies grow apart from each other.
  have hrounds : ∀ bound s, measure s < bound → I s → ∃ result : Except ε α,
      (∃ enough count, ∀ fuel, enough ≤ fuel → ∀ n, count ≤ n →
        rounds body fuel n s = answer result) ∧ ∀ a, result = .ok a → P a := by
    intro bound
    induction bound with
    | zero => exact fun s hlt => absurd hlt (Nat.not_lt_zero _)
    | succ bound ih =>
        intro s hlt hs
        obtain ⟨result, ⟨enough, hround⟩, hpost⟩ := hbody s hs
        rcases result with reason | (next | a)
        · refine ⟨.error reason, ⟨enough, 1, fun fuel hfuel n hn => ?_⟩, fun a ha => nomatch ha⟩
          obtain ⟨n, rfl⟩ := Nat.exists_eq_add_of_le' hn
          rw [rounds, hround fuel hfuel]
          rfl
        · obtain ⟨hinv, hmeasure⟩ := hpost _ rfl
          obtain ⟨result, ⟨enough', count, hrest⟩, hlast⟩ :=
            ih next (Nat.lt_of_lt_of_le hmeasure (Nat.le_of_lt_succ hlt)) hinv
          refine ⟨result, ⟨max enough enough', count + 1, fun fuel hfuel n hn => ?_⟩, hlast⟩
          obtain ⟨n, rfl⟩ := Nat.exists_eq_add_of_le' (Nat.le_trans (Nat.le_add_left 1 count) hn)
          rw [rounds, hround fuel (le_of_max_le_left hfuel)]
          exact hrest fuel (le_of_max_le_right hfuel) n (Nat.le_of_succ_le_succ hn)
        · refine ⟨.ok a, ⟨enough, 1, fun fuel hfuel n hn => ?_⟩, fun b hb => ?_⟩
          · obtain ⟨n, rfl⟩ := Nat.exists_eq_add_of_le' hn
            rw [rounds, hround fuel hfuel]
            rfl
          · cases hb
            exact hpost _ rfl
  obtain ⟨result, ⟨enough, count, hresult⟩, hpost⟩ :=
    hrounds (measure s + 1) s (Nat.lt_succ_self _) h
  exact ⟨result, ⟨max enough count, fun fuel hfuel =>
    hresult fuel (le_of_max_le_left hfuel) fuel (le_of_max_le_right hfuel)⟩, hpost⟩

/-- A loop each of whose rounds leads to another one runs dry of any fuel. -/
theorem runsDry_loop
    (hbody : ∀ s, I s → ∃ next, I next ∧ ∀ fuel, body s fuel = .ok (.inl next))
    {s : σ} (h : I s) : (loop body s).RunsDry := by
  have hdry : ∀ fuel n s, I s → rounds body fuel n s = .error .dry := by
    intro fuel n
    induction n with
    | zero => exact fun s _ => rfl
    | succ n ih =>
        intro s hs
        obtain ⟨next, hnext, hround⟩ := hbody s hs
        rw [rounds, hround fuel]
        exact ih next hnext
  exact fun fuel => hdry fuel fuel s h

end

end Fueled
end Lib
end VerifiableExchange
