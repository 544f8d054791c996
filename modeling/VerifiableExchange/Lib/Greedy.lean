import Mathlib.Algebra.BigOperators.Group.List.Basic
import Mathlib.Algebra.Order.BigOperators.Group.List
import Mathlib.Algebra.Order.Ring.Int
import Mathlib.Tactic.Linarith
import Mathlib.Tactic.SplitIfs

/-!
# Greedy — taking an amount off the front of a queue

A queue holds items of positive size. A walk takes a wanted amount from the front, item by item, and
the last item it touches may keep a part.

* `Greedy.fills` — what a walk takes from each item;
* `Greedy.leave` — what the walk leaves of the queue;
* `Greedy.sum_fills` — a walk takes the wanted amount, or all there is;
* `Greedy.leave_add` — two walks in a row are one walk for both amounts;
* `Greedy.foldlM_fills` — a pass over the queue that keeps its own count is a pass over the fills.
-/

namespace VerifiableExchange
namespace Lib
namespace Greedy

variable {α : Type*}

/-- What a walk for `wanted` takes, the front item first. -/
def fills (size : α → Int) (wanted : Int) : List α → List (α × Int)
  | [] => []
  | a :: rest =>
      if wanted ≤ 0 then []
      else (a, min wanted (size a)) :: fills size (wanted - min wanted (size a)) rest

/-- What a walk for `wanted` leaves; `shrink` gives the item it took only a part of. -/
def leave (size : α → Int) (shrink : α → Int → α) (wanted : Int) : List α → List α
  | [] => []
  | a :: rest =>
      if wanted ≤ 0 then a :: rest
      else if size a ≤ wanted then leave size shrink (wanted - size a) rest
      else shrink a (size a - wanted) :: rest

variable {size : α → Int} {shrink : α → Int → α} {wanted : Int} {queue : List α}

@[simp] theorem fills_of_nonpos (h : wanted ≤ 0) : fills size wanted queue = [] := by
  cases queue with
  | nil => rfl
  | cons a rest => exact if_pos h

@[simp] theorem leave_of_nonpos (h : wanted ≤ 0) : leave size shrink wanted queue = queue := by
  cases queue with
  | nil => rfl
  | cons a rest => exact if_pos h

theorem fills_cons (a : α) (rest : List α) (h : 0 < wanted) :
    fills size wanted (a :: rest) =
      (a, min wanted (size a)) :: fills size (wanted - min wanted (size a)) rest :=
  if_neg (not_le.2 h)

/-- A walk over two queues goes on in the second with what it did not find in the first. -/
theorem fills_append (front back : List α) :
    fills size wanted (front ++ back) = fills size wanted front ++
      fills size (wanted - ((fills size wanted front).map Prod.snd).sum) back := by
  induction front generalizing wanted with
  | nil => simp [fills]
  | cons a rest ih =>
      rcases le_or_gt wanted 0 with hdone | hwanted
      · simp [hdone]
      · rw [List.cons_append, fills_cons a _ hwanted, fills_cons a rest hwanted, ih, List.cons_append,
          List.map_cons, List.sum_cons, sub_sub]

/-- A walk takes what it wants, or all there is. -/
theorem sum_fills (hwanted : 0 ≤ wanted) (hsize : ∀ a ∈ queue, 0 < size a) :
    ((fills size wanted queue).map Prod.snd).sum = min wanted (queue.map size).sum := by
  induction queue generalizing wanted with
  | nil => simp [fills, hwanted]
  | cons a rest ih =>
      have ha := hsize a List.mem_cons_self
      have hrest : ∀ b ∈ rest, 0 < size b := fun b hb => hsize b (List.mem_cons_of_mem _ hb)
      have hsum : 0 ≤ (rest.map size).sum := by
        refine List.sum_nonneg ?_
        intro n hn
        obtain ⟨b, hb, rfl⟩ := List.mem_map.1 hn
        exact (hrest b hb).le
      rcases eq_or_lt_of_le hwanted with rfl | hpos
      · simp only [fills_of_nonpos le_rfl, List.map_nil, List.sum_nil, List.map_cons, List.sum_cons]
        omega
      · rw [fills_cons a rest hpos, List.map_cons, List.sum_cons,
          ih (sub_nonneg.2 (min_le_left _ _)) hrest, List.map_cons, List.sum_cons]
        omega

theorem length_fills_le : ∀ (queue : List α) (wanted : Int),
    (fills size wanted queue).length ≤ queue.length
  | [], _ => le_rfl
  | a :: rest, wanted => by
      unfold fills
      split_ifs
      · exact Nat.zero_le _
      · exact Nat.succ_le_succ (length_fills_le rest _)

/-- What a walk takes comes from the queue. -/
theorem mem_of_mem_fills {a : α} {n : Int} :
    ∀ {queue : List α} {wanted : Int}, (a, n) ∈ fills size wanted queue → a ∈ queue
  | [], _, h => nomatch h
  | b :: rest, wanted, h => by
      unfold fills at h
      split_ifs at h
      · cases h
      rcases List.mem_cons.1 h with heq | hlater
      · exact List.mem_cons.2 (Or.inl (Prod.mk.inj heq).1)
      · exact List.mem_cons_of_mem _ (mem_of_mem_fills hlater)

section Pass

variable {β ε : Type*} {step : β → α → Except ε β} {take : β → α × Int → Except ε β} (left : β → Int)

/-- A pass over the queue that counts down what is wanted, and does nothing once it has it, is a
pass over the fills. -/
theorem foldlM_fills (hdone : ∀ b a, left b = 0 → step b a = .ok b)
    (hstep : ∀ b a, left b ≠ 0 → step b a = take b (a, min (left b) (size a)))
    (htake : ∀ b f b', take b f = .ok b' → left b' = left b - f.2) :
    ∀ (queue : List α) (b : β), 0 ≤ left b →
      queue.foldlM step b = (fills size (left b) queue).foldlM take b
  | [], b, _ => rfl
  | a :: rest, b, hleft => by
      rw [List.foldlM_cons]
      rcases eq_or_lt_of_le hleft with hzero | hwanted
      · -- With nothing wanted the rest of the queue is passed over.
        have hrest := foldlM_fills hdone hstep htake rest b hleft
        rw [fills_of_nonpos hzero.symm.le] at hrest ⊢
        rw [hdone b a hzero.symm]
        exact hrest
      · rw [hstep b a hwanted.ne', fills_cons a rest hwanted, List.foldlM_cons]
        cases htaken : take b (a, min (left b) (size a)) with
        | error why => rfl
        | ok b' =>
            have hnext := htake _ _ _ htaken
            rw [← hnext]
            refine foldlM_fills hdone hstep htake rest b' ?_
            rw [hnext]
            exact sub_nonneg.2 (min_le_left _ _)

end Pass

theorem leave_cons_of_le {a : α} {rest : List α} (h : 0 < wanted) (hall : size a ≤ wanted) :
    leave size shrink wanted (a :: rest) = leave size shrink (wanted - size a) rest := by
  rw [leave, if_neg (not_le.2 h), if_pos hall]

theorem leave_cons_of_lt {a : α} {rest : List α} (h : 0 < wanted) (hpart : wanted < size a) :
    leave size shrink wanted (a :: rest) = shrink a (size a - wanted) :: rest := by
  rw [leave, if_neg (not_le.2 h), if_neg (not_le.2 hpart)]

/-- A walk that takes a part of the front item goes on with what that leaves of it. -/
theorem leave_shrink (hshrunk : ∀ a n, size (shrink a n) = n)
    (hagain : ∀ a m n, shrink (shrink a m) n = shrink a n) {a : α} {rest : List α} {part more : Int}
    (hpart : 0 < part) (hleft : part < size a) (hmore : 0 ≤ more) :
    leave size shrink more (shrink a (size a - part) :: rest) =
      leave size shrink (part + more) (a :: rest) := by
  rcases eq_or_lt_of_le hmore with rfl | hmore
  · rw [leave_of_nonpos le_rfl, add_zero, leave_cons_of_lt hpart hleft]
  · by_cases hall : size a - part ≤ more
    · rw [leave_cons_of_le hmore (by rw [hshrunk]; exact hall),
        leave_cons_of_le (by omega) (by omega), hshrunk]
      congr 1
      omega
    · rw [leave_cons_of_lt hmore (by rw [hshrunk]; omega), leave_cons_of_lt (by omega) (by omega),
        hshrunk, hagain]
      congr 2
      omega

/-- A walk that takes the whole front item goes on with the rest. -/
theorem leave_whole {a : α} {rest : List α} {more : Int} (ha : 0 < size a) (hmore : 0 ≤ more) :
    leave size shrink (size a + more) (a :: rest) = leave size shrink more rest := by
  rw [leave_cons_of_le (by omega) (by omega), add_sub_cancel_left]

/-- Two walks in a row are one walk for both amounts. -/
theorem leave_add (hshrunk : ∀ a n, size (shrink a n) = n)
    (hagain : ∀ a m n, shrink (shrink a m) n = shrink a n) (hsize : ∀ a ∈ queue, 0 < size a)
    {more : Int} (hwanted : 0 ≤ wanted) (hmore : 0 ≤ more) :
    leave size shrink more (leave size shrink wanted queue) =
      leave size shrink (wanted + more) queue := by
  induction queue generalizing wanted with
  | nil => rfl
  | cons a rest ih =>
      have ha := hsize a List.mem_cons_self
      rcases eq_or_lt_of_le hwanted with rfl | hpos
      · rw [leave_of_nonpos le_rfl, zero_add]
      -- The first request empties the head, or stops in it and the second one finds it shrunk.
      by_cases hall : size a ≤ wanted
      · calc
          leave size shrink more (leave size shrink wanted (a :: rest))
            = leave size shrink (wanted - size a + more) rest := by
              rw [leave_cons_of_le hpos hall,
                ih (fun b hb => hsize b (List.mem_cons_of_mem _ hb)) (by omega)]
          _ = leave size shrink (size a + (wanted - size a + more)) (a :: rest) :=
              (leave_whole ha (by omega)).symm
          _ = leave size shrink (wanted + more) (a :: rest) := by
              congr 1
              omega
      · rw [leave_cons_of_lt hpos (not_le.1 hall),
          leave_shrink hshrunk hagain hpos (not_le.1 hall) hmore]

end Greedy
end Lib
end VerifiableExchange
