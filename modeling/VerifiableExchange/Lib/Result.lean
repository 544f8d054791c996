import Mathlib.Tactic.SplitIfs

/-!
# Result — fallible computations that carry a reason

Small combinators over `Except`, and the rules that take a successful run apart: a bind succeeds
exactly when its two halves do, a check succeeds exactly when its condition holds.
-/

namespace VerifiableExchange
namespace Lib

universe u v

variable {ε : Type u} {α β : Type v}

/-- An optional value, or the reason there is none. -/
def orFail (value : Option α) (reason : ε) : Except ε α :=
  match value with
  | some a => .ok a
  | none => .error reason

/-- A condition that must hold for the computation to go on. -/
def require (p : Prop) [Decidable p] (reason : ε) : Except ε Unit :=
  if p then .ok () else .error reason

theorem bind_eq_ok {x : Except ε α} {f : α → Except ε β} {b : β} :
    (x >>= f) = .ok b ↔ ∃ a, x = .ok a ∧ f a = .ok b := by
  cases x with
  | error e => simp [bind, Except.bind]
  | ok a => simp [bind, Except.bind]

/-- A computation fails at its first failing half. -/
theorem bind_eq_error {x : Except ε α} {f : α → Except ε β} {e : ε} :
    (x >>= f) = .error e ↔ x = .error e ∨ ∃ a, x = .ok a ∧ f a = .error e := by
  cases x with
  | error e' => simp [bind, Except.bind]
  | ok a => simp [bind, Except.bind]

@[simp] theorem orFail_eq_ok {value : Option α} {reason : ε} {a : α} :
    orFail value reason = .ok a ↔ value = some a := by
  cases value <;> simp [orFail]

@[simp] theorem require_eq_ok {p : Prop} [Decidable p] {reason : ε} {u : Unit} :
    require p reason = .ok u ↔ p := by
  unfold require
  split_ifs with h <;> simp [h]

theorem require_eq_error {p : Prop} [Decidable p] {reason e : ε} :
    require p reason = .error e ↔ ¬p ∧ reason = e := by
  unfold require
  split_ifs with h <;> simp [h]

theorem mapError_eq_ok {ε' : Type u} {f : ε → ε'} {x : Except ε α} {a : α} :
    x.mapError f = .ok a ↔ x = .ok a := by
  cases x <;> simp [Except.mapError]

theorem toOption_eq_some {x : Except ε α} {a : α} : x.toOption = some a ↔ x = .ok a := by
  cases x <;> simp [Except.toOption]

/-- A computation that succeeds has its result, whatever the default. -/
theorem eq_ok_getD {x : Except ε α} {d : α} (h : x.toOption.isSome = true) :
    x = .ok (x.toOption.getD d) := by
  cases x with
  | error e => simp [Except.toOption] at h
  | ok a => rfl

theorem forM_eq_ok {f : α → Except ε PUnit} :
    ∀ {l : List α}, l.forM f = .ok ⟨⟩ ↔ ∀ a ∈ l, f a = .ok ⟨⟩
  | [] => by simp [pure, Except.pure]
  | a :: l => by
      have hcons : (a :: l).forM f = (f a >>= fun _ => l.forM f) := rfl
      rw [hcons, bind_eq_ok, List.forall_mem_cons, ← forM_eq_ok]
      constructor
      · rintro ⟨⟨⟩, ha, hl⟩
        exact ⟨ha, hl⟩
      · rintro ⟨ha, hl⟩
        exact ⟨⟨⟩, ha, hl⟩

/-- A `mapM` whose step can only answer `g` answers `map g`. -/
theorem mapM_eq_ok {f : α → Except ε β} {g : α → β} (hfg : ∀ a b, f a = .ok b → b = g a) :
    ∀ {l : List α} {r : List β}, l.mapM f = .ok r → r = l.map g ∧ ∀ a ∈ l, f a = .ok (g a)
  | [], r, h => by
      cases h
      simp
  | a :: l, r, h => by
      rw [List.mapM_cons] at h
      obtain ⟨b, hb, h⟩ := bind_eq_ok.1 h
      obtain ⟨bs, hbs, h⟩ := bind_eq_ok.1 h
      cases h
      obtain ⟨rfl, hall⟩ := mapM_eq_ok hfg hbs
      have hba := hfg a b hb
      subst hba
      exact ⟨rfl, List.forall_mem_cons.2 ⟨hb, hall⟩⟩

/-- A `mapM` whose step answers `g` everywhere answers `map g`. -/
theorem mapM_ok_of_forall {f : α → Except ε β} {g : α → β} {l : List α}
    (h : ∀ a ∈ l, f a = .ok (g a)) : l.mapM f = .ok (l.map g) := by
  induction l with
  | nil => rfl
  | cons head l ih =>
      obtain ⟨hhead, htail⟩ := List.forall_mem_cons.1 h
      rw [List.mapM_cons, hhead, ih htail]
      rfl

theorem exists_mapM_ok {f : α → Except ε β} {l : List α} (h : ∀ a ∈ l, ∃ b, f a = .ok b) :
    ∃ bs, l.mapM f = .ok bs := by
  induction l with
  | nil => exact ⟨[], rfl⟩
  | cons head l ih =>
      obtain ⟨⟨b, hb⟩, htail⟩ := List.forall_mem_cons.1 h
      obtain ⟨bs, hbs⟩ := ih htail
      exact ⟨b :: bs, by rw [List.mapM_cons, hb, hbs]; rfl⟩

theorem mapM_error_of_mem {f : α → Except ε β} {l : List α} {a : α} (ha : a ∈ l) {e : ε}
    (he : f a = .error e) : ∃ e', l.mapM f = .error e' := by
  induction l with
  | nil => cases ha
  | cons head l ih =>
      rw [List.mapM_cons]
      cases hhead : f head with
      | error e' => exact ⟨e', rfl⟩
      | ok b =>
          have htail : a ∈ l := by
            rcases List.mem_cons.1 ha with rfl | htail
            · rw [hhead] at he
              cases he
            · exact htail
          obtain ⟨e', he'⟩ := ih htail
          exact ⟨e', by rw [he']; rfl⟩

theorem mapM_congr {f g : α → Except ε β} {l : List α} (h : ∀ a ∈ l, f a = g a) :
    l.mapM f = l.mapM g := by
  induction l with
  | nil => rfl
  | cons head l ih =>
      obtain ⟨hhead, htail⟩ := List.forall_mem_cons.1 h
      rw [List.mapM_cons, List.mapM_cons, hhead, ih htail]

/-- An invariant that every successful step of a fold keeps holds of the fold's result. -/
theorem foldlM_invariant {σ : Type v} {step : σ → α → Except ε σ} (P : σ → Prop)
    (hstep : ∀ s a s', P s → step s a = .ok s' → P s') :
    ∀ (l : List α) (s s' : σ), P s → l.foldlM step s = .ok s' → P s'
  | [], s, s', hs, h => by
      cases h
      exact hs
  | a :: l, s, s', hs, h => by
      rw [List.foldlM_cons] at h
      obtain ⟨t, ht, h⟩ := bind_eq_ok.1 h
      exact foldlM_invariant P hstep l t s' (hstep s a t hs ht) h

/-- What every step keeps between a computation and the list it read, a whole run keeps. -/
theorem foldlM_reads {σ α : Type v} {step : σ → α → Except ε σ} (R : List α → σ → Prop)
    (hstep : ∀ read s a s', R read s → step s a = .ok s' → R (read ++ [a]) s') :
    ∀ (l : List α) (read : List α) (s s' : σ), R read s → l.foldlM step s = .ok s' →
      R (read ++ l) s'
  | [], read, s, s', hs, h => by
      cases h
      rwa [List.append_nil]
  | a :: l, read, s, s', hs, h => by
      rw [List.foldlM_cons] at h
      obtain ⟨t, ht, h⟩ := bind_eq_ok.1 h
      rw [List.append_cons]
      exact foldlM_reads R hstep l (read ++ [a]) t s' (hstep read s a t hs ht) h

/-! ## Two computations side by side -/

/-- Both computations fail for the same reason, or both succeed with related results. -/
def SameResult {β : Type*} {α : Type*} (R : α → β → Prop) : Except ε α → Except ε β → Prop
  | .ok a, .ok b => R a b
  | .error e, .error e' => e = e'
  | _, _ => False

namespace SameResult

variable {σ τ γ δ : Type v} {R : σ → τ → Prop} {S : γ → δ → Prop}

/-- One result decides the next step of both. -/
theorem bind {x : Except ε σ} {y : Except ε τ} {f : σ → Except ε γ} {g : τ → Except ε δ}
    (h : SameResult R x y) (hfg : ∀ a b, R a b → SameResult S (f a) (g b)) :
    SameResult S (x >>= f) (y >>= g) := by
  cases x with
  | error e =>
      cases y with
      | error e' => exact h
      | ok b => exact h.elim
  | ok a =>
      cases y with
      | error e' => exact h.elim
      | ok b => exact hfg a b h

/-- Both go on from the same first step. -/
theorem bind_left {x : Except ε σ} {f : σ → Except ε γ} {g : σ → Except ε δ}
    (hfg : ∀ a, x = .ok a → SameResult S (f a) (g a)) : SameResult S (x >>= f) (x >>= g) := by
  cases x with
  | error e => rfl
  | ok a => exact hfg a rfl

theorem cases {x : Except ε σ} {y : Except ε τ} (h : SameResult R x y) :
    (∃ e, x = .error e ∧ y = .error e) ∨ ∃ a b, x = .ok a ∧ y = .ok b ∧ R a b := by
  cases x with
  | error e =>
      cases y with
      | error e' => exact Or.inl ⟨e, rfl, congrArg _ (Eq.symm h)⟩
      | ok b => exact h.elim
  | ok a =>
      cases y with
      | error e' => exact h.elim
      | ok b => exact Or.inr ⟨a, b, rfl, rfl, h⟩

theorem exists_ok {x : Except ε σ} {y : Except ε τ} {a : σ} (h : SameResult R x y)
    (hx : x = .ok a) : ∃ b, y = .ok b ∧ R a b := by
  subst hx
  cases y with
  | error e => exact h.elim
  | ok b => exact ⟨b, rfl, h⟩

end SameResult

end Lib
end VerifiableExchange
