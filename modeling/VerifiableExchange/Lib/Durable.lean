import Mathlib.Logic.Basic

/-!
# Durable — programs over a state that outlives them

A program reads and changes a durable state one statement at a time. A statement runs at some time
of the clock, or it is refused and changes nothing; and the program can be cut short before any
statement, after which the state is all that is left. What holds of the state after every
statement therefore holds wherever the program is cut.
-/

namespace VerifiableExchange
namespace Lib

/-- What happens to one statement. -/
inductive Fate (C E : Type) where
  | runs (clock : C)
  | refused (reason : E)

/-- A program over the durable state `S`. It consumes one fate for each statement; where none is
left, it is cut short and answers nothing. -/
def Durable (S C E α : Type) : Type :=
  S → List (Fate C E) → Option α × S × List (Fate C E)

namespace Durable

variable {S C E α β : Type}

def done (a : α) : Durable S C E α := fun s fates => (some a, s, fates)

def andThen (prog : Durable S C E α) (next : α → Durable S C E β) : Durable S C E β :=
  fun s fates =>
    match prog s fates with
    | (some a, s', rest) => next a s' rest
    | (none, s', rest) => (none, s', rest)

instance : Monad (Durable S C E) where
  pure := done
  bind := andThen

/-- The program ends here of its own accord. -/
def stop : Durable S C E α := fun s fates => (none, s, fates)

/-- One statement: what it makes of the state and what it answers, or why it is refused. -/
def attempt (statement : S → C → Except E (S × α)) : Durable S C E (Except E α) :=
  fun s fates =>
    match fates with
    | [] => (none, s, [])
    | .refused reason :: rest => (some (.error reason), s, rest)
    | .runs clock :: rest =>
        match statement s clock with
        | .ok (s', a) => (some (.ok a), s', rest)
        | .error reason => (some (.error reason), s, rest)

/-- What the state holds is read without changing it. -/
def read (look : S → α) : Durable S C E α := fun s fates => (some (look s), s, fates)

/-- From `s`, the state is `Good` wherever the program is cut, and where it is not cut its answer
and the state stand in the relation `Post`. -/
def Ensures (prog : Durable S C E α) (s : S) (Good : S → Prop) (Post : α → S → Prop) : Prop :=
  ∀ fates, Good (prog s fates).2.1 ∧
    ∀ a, (prog s fates).1 = some a → Post a (prog s fates).2.1

namespace Ensures

variable {prog : Durable S C E α} {s : S} {Good : S → Prop} {Post Mid : α → S → Prop}

theorem pure {a : α} (hgood : Good s) (hpost : Post a s) :
    Ensures (Pure.pure a : Durable S C E α) s Good Post := by
  intro fates
  refine ⟨hgood, fun b hb => ?_⟩
  cases hb
  exact hpost

theorem stop (hgood : Good s) : Ensures (Durable.stop : Durable S C E α) s Good Post := by
  intro fates
  refine ⟨hgood, fun b hb => ?_⟩
  cases hb

theorem read {look : S → α} (hgood : Good s) (hpost : Post (look s) s) :
    Ensures (Durable.read look : Durable S C E α) s Good Post := by
  intro fates
  refine ⟨hgood, fun b hb => ?_⟩
  cases hb
  exact hpost

theorem bind {next : α → Durable S C E β} {PostB : β → S → Prop} (h : Ensures prog s Good Mid)
    (hnext : ∀ a s', Mid a s' → Ensures (next a) s' Good PostB) :
    Ensures (prog >>= next) s Good PostB := by
  intro fates
  obtain ⟨hgood, hmid⟩ := h fates
  have hbind : (prog >>= next) s fates = andThen prog next s fates := rfl
  rw [hbind, andThen]
  rcases hprog : prog s fates with ⟨answer, s', rest⟩
  rw [hprog] at hgood hmid
  cases answer with
  | none => exact ⟨hgood, fun b hb => by cases hb⟩
  | some a => exact hnext a s' (hmid a rfl) rest

/-- A statement keeps the state good where it runs, and answers its reason where it does not. -/
theorem attempt {statement : S → C → Except E (S × α)} {PostE : Except E α → S → Prop}
    (hgood : Good s)
    (hruns : ∀ clock s' a, statement s clock = .ok (s', a) → Good s' ∧ PostE (.ok a) s')
    (hrefused : ∀ reason, PostE (.error reason) s) :
    Ensures (Durable.attempt statement) s Good PostE := by
  intro fates
  unfold Durable.attempt
  match fates with
  | [] => exact ⟨hgood, fun b hb => by cases hb⟩
  | .refused reason :: rest =>
      refine ⟨hgood, fun b hb => ?_⟩
      cases hb
      exact hrefused reason
  | .runs clock :: rest =>
      cases hstatement : statement s clock with
      | error reason =>
          simp only [hstatement]
          refine ⟨hgood, fun b hb => ?_⟩
          cases hb
          exact hrefused reason
      | ok answer =>
          obtain ⟨s', a⟩ := answer
          simp only [hstatement]
          obtain ⟨hgood', hpost⟩ := hruns clock s' a hstatement
          refine ⟨hgood', fun b hb => ?_⟩
          cases hb
          exact hpost

/-- A statement and what follows it, where it runs and where it is refused. -/
theorem attempt_bind {statement : S → C → Except E (S × α)} {next : Except E α → Durable S C E β}
    {PostB : β → S → Prop} (hgood : Good s)
    (hruns : ∀ clock s' a, statement s clock = .ok (s', a) →
      Good s' ∧ Ensures (next (.ok a)) s' Good PostB)
    (hrefused : ∀ reason, Ensures (next (.error reason)) s Good PostB) :
    Ensures (Durable.attempt statement >>= next) s Good PostB :=
  bind (attempt hgood hruns hrefused) (fun _ _ h => h)

theorem weaken {Weak : S → Prop} (h : Ensures prog s Good Mid) (hgood : ∀ s', Good s' → Weak s')
    (hpost : ∀ a s', Mid a s' → Post a s') : Ensures prog s Weak Post := fun fates =>
  ⟨hgood _ (h fates).1, fun a ha => hpost a _ ((h fates).2 a ha)⟩

theorem mono (h : Ensures prog s Good Mid) (hpost : ∀ a s', Mid a s' → Post a s') :
    Ensures prog s Good Post := fun fates =>
  ⟨(h fates).1, fun a ha => hpost a _ ((h fates).2 a ha)⟩

end Ensures

/-! ## What a program leaves alone -/

/-- Wherever the program is cut, what `look` sees of the state is as it was. -/
def Keeps {V : Type} (look : S → V) (prog : Durable S C E α) : Prop :=
  ∀ s fates, look (prog s fates).2.1 = look s

namespace Keeps

variable {V : Type} {look : S → V} {prog : Durable S C E α}

theorem pure {a : α} : Keeps look (Pure.pure a : Durable S C E α) := fun _ _ => rfl

theorem attempt {statement : S → C → Except E (S × α)}
    (h : ∀ s clock s' a, statement s clock = .ok (s', a) → look s' = look s) :
    Keeps look (Durable.attempt statement) := by
  intro s fates
  unfold Durable.attempt
  match fates with
  | [] => rfl
  | .refused reason :: rest => rfl
  | .runs clock :: rest =>
      cases hstatement : statement s clock with
      | error reason => simp only [hstatement]
      | ok answer =>
          obtain ⟨s', a⟩ := answer
          simp only [hstatement]
          exact h s clock s' a hstatement

theorem bind {next : α → Durable S C E β} (h : Keeps look prog)
    (hnext : ∀ a, Keeps look (next a)) : Keeps look (prog >>= next) := by
  intro s fates
  have hprog := h s fates
  have hbind : (prog >>= next) s fates = andThen prog next s fates := rfl
  rw [hbind, andThen]
  rcases hrun : prog s fates with ⟨answer, s', rest⟩
  rw [hrun] at hprog
  cases answer with
  | none => exact hprog
  | some a => exact (hnext a s' rest).trans hprog

end Keeps

end Durable
end Lib
end VerifiableExchange
