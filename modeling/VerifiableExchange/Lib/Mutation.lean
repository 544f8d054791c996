import Mathlib.Logic.Basic

/-!
# Mutation — computations that change a state in place

A computation reads its state, fails, or writes, in the order of its statements, and what it wrote
before it failed stays written. One that fails only before its first write is all or nothing: it
has the outcome of a pure function from the state to the next one.
-/

namespace VerifiableExchange
namespace Lib

/-- A computation over a state in place: its answer or its reason, and the state it leaves. -/
def Mutation (S E α : Type) : Type := S → Except E α × S

namespace Mutation

variable {S E α β : Type}

instance : Monad (Mutation S E) where
  pure a := fun s => (.ok a, s)
  bind prog next := fun s =>
    match prog s with
    | (.ok a, s') => next a s'
    | (.error e, s') => (.error e, s')

/-- The state as it stands. -/
def get : Mutation S E S := fun s => (.ok s, s)

/-- A write. -/
def modify (f : S → S) : Mutation S E Unit := fun s => (.ok (), f s)

/-- A step that fails or answers and writes nothing. -/
def check (x : Except E α) : Mutation S E α := fun s => (x, s)

/-- What a pure function makes of the state: its next one, or the state as it was. -/
def outcome (s : S) : Except E (S × α) → Except E α × S
  | .ok (s', a) => (.ok a, s')
  | .error e => (.error e, s)

theorem get_bind (next : S → Mutation S E α) (s : S) : (get >>= next) s = next s s := rfl

theorem modify_bind (f : S → S) (next : Unit → Mutation S E α) (s : S) :
    (modify f >>= next) s = next () (f s) := rfl

/-- Checks before the first write: where what follows has its pure function's outcome, so have the
check and what follows together. -/
theorem check_bind {x : Except E α} {next : α → Mutation S E β} {g : α → Except E (S × β)} {s : S}
    (h : ∀ a, next a s = outcome s (g a)) : (check x >>= next) s = outcome s (x >>= g) := by
  cases x with
  | error e => rfl
  | ok a => exact h a

/-- Writes one after the other do not fail. -/
theorem forM_modify (f : α → S → S) : ∀ (l : List α) (s : S),
    (l.forM (fun a => (modify (f a) : Mutation S E Unit))) s =
      (.ok (), l.foldl (fun s a => f a s) s)
  | [], _ => rfl
  | a :: rest, s => forM_modify f rest (f a s)

theorem bind_of_ok {prog : Mutation S E α} {next : α → Mutation S E β} {s s' : S} {a : α}
    (h : prog s = (.ok a, s')) : (prog >>= next) s = next a s' := by
  show (match prog s with
    | (.ok a, s') => next a s'
    | (.error e, s') => (.error e, s')) = next a s'
  rw [h]

theorem bind_of_error {prog : Mutation S E α} {next : α → Mutation S E β} {s s' : S} {e : E}
    (h : prog s = (.error e, s')) : (prog >>= next) s = (.error e, s') := by
  show (match prog s with
    | (.ok a, s') => next a s'
    | (.error e, s') => (.error e, s')) = (.error e, s')
  rw [h]

theorem snd_outcome_error {s : S} {x : Except E (S × α)} {e : E}
    (h : (outcome s x).1 = .error e) : (outcome s x).2 = s := by
  cases x with
  | error e' => rfl
  | ok answer => cases h

end Mutation

end Lib
end VerifiableExchange
