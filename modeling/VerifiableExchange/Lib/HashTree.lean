import Mathlib.Data.List.Basic
import Mathlib.Tactic.Linarith
import Mathlib.Tactic.Ring

/-!
# HashTree — trees over a list, split at the largest power of two below its length

The tree hash, the inclusion path and the consistency proof of a list of leaf hashes, as recursions
that split the list, for any node function.

* `HashTree.mth`, `HashTree.path`, `HashTree.proof` — the three recursions;
* `HashTree.up` — one level of the tree: neighbours join, a lone last node moves up as it is;
* `HashTree.mth_up`, `HashTree.path_up`, `HashTree.proof_up_even` — each recursion read one
  level up, which is the direction a verifier climbs in;
* `HashTree.climb` — the climb of a verifier, level by level;
* `HashTree.joins`, `HashTree.climbed` — the pairs the tree joins, and those a climb joins;
* `HashTree.climb_path`, `HashTree.climb_sound` — the climb along the real path ends at the
  root, and a climb that ends at the root took the real path or found a collision;
* `HashTree.perfect` — the subtrees that are full, by level and index, which never change.
-/

namespace VerifiableExchange
namespace Lib
namespace HashTree

/-! ## The split point -/

/-- The largest power of two below `n`. -/
def splitPoint (n : Nat) : Nat := 2 ^ (n - 1).log2

theorem splitPoint_pos (n : Nat) : 0 < splitPoint n := Nat.two_pow_pos _

theorem splitPoint_lt {n : Nat} (hn : 2 ≤ n) : splitPoint n < n := by
  have hle : splitPoint n ≤ n - 1 := Nat.log2_self_le (by omega)
  omega

theorem le_two_mul_splitPoint (n : Nat) : n ≤ 2 * splitPoint n := by
  have hlt : n - 1 < 2 ^ ((n - 1).log2 + 1) := Nat.lt_log2_self
  rw [Nat.pow_succ'] at hlt
  unfold splitPoint
  omega

theorem splitPoint_eq {n d : Nat} (hlow : 2 ^ d < n) (hhigh : n ≤ 2 ^ (d + 1)) :
    splitPoint n = 2 ^ d := by
  have hlog : (n - 1).log2 = d := by
    rw [Nat.log2_eq_iff (by omega)]
    omega
  rw [splitPoint, hlog]

theorem exists_splitPoint (n : Nat) : ∃ d, splitPoint n = 2 ^ d := ⟨_, rfl⟩

/-- A level up, the tree splits at half the point. -/
theorem splitPoint_half {n : Nat} (hn : 3 ≤ n) : splitPoint n = 2 * splitPoint ((n + 1) / 2) := by
  obtain ⟨d, hd⟩ := exists_splitPoint ((n + 1) / 2)
  have hlow := splitPoint_lt (n := (n + 1) / 2) (by omega)
  have hhigh := le_two_mul_splitPoint ((n + 1) / 2)
  rw [hd] at hlow hhigh ⊢
  rw [← Nat.pow_succ'] at hhigh ⊢
  refine splitPoint_eq ?_ ?_
  · rw [Nat.pow_succ']
    omega
  · rw [Nat.pow_succ' (n := d + 1)]
    omega

variable {α : Type*}

/-! ## One level -/

/-- Neighbours join, and a lone last node moves up as it is. -/
def up (node : α → α → α) : List α → List α
  | a :: b :: rest => node a b :: up node rest
  | l => l

variable {node : α → α → α}

@[simp] theorem up_nil : up node [] = [] := rfl

@[simp] theorem up_single (a : α) : up node [a] = [a] := rfl

@[simp] theorem up_cons_cons (a b : α) (rest : List α) :
    up node (a :: b :: rest) = node a b :: up node rest := rfl

@[simp] theorem length_up : ∀ l : List α, (up node l).length = (l.length + 1) / 2
  | [] => by simp
  | [_] => by simp
  | a :: b :: rest => by
      rw [up_cons_cons, List.length_cons, length_up rest, List.length_cons, List.length_cons]
      omega

/-- An even number of nodes joins among itself. -/
theorem up_append : ∀ (l : List α) {m : List α}, l.length % 2 = 0 →
    up node (l ++ m) = up node l ++ up node m
  | [], _, _ => rfl
  | [_], _, h => by cases h
  | a :: b :: rest, m, h => by
      have hrest : rest.length % 2 = 0 := by
        simp only [List.length_cons] at h
        omega
      rw [List.cons_append, List.cons_append, up_cons_cons, up_cons_cons, up_append rest hrest,
        List.cons_append]

theorem take_up {l : List α} {k : Nat} (hk : 2 * k ≤ l.length) :
    (up node l).take k = up node (l.take (2 * k)) := by
  have hlen : (l.take (2 * k)).length = 2 * k := List.length_take_of_le hk
  have happ : up node l = up node (l.take (2 * k)) ++ up node (l.drop (2 * k)) := by
    rw [← up_append _ (by omega), List.take_append_drop]
  rw [happ, List.take_append_of_le_length (by rw [length_up]; omega),
    List.take_of_length_le (by rw [length_up]; omega)]

theorem drop_up {l : List α} {k : Nat} (hk : 2 * k ≤ l.length) :
    (up node l).drop k = up node (l.drop (2 * k)) := by
  have hlen : (l.take (2 * k)).length = 2 * k := List.length_take_of_le hk
  have happ : up node l = up node (l.take (2 * k)) ++ up node (l.drop (2 * k)) := by
    rw [← up_append _ (by omega), List.take_append_drop]
  rw [happ, List.drop_append_of_le_length (by rw [length_up]; omega),
    List.drop_eq_nil_of_le (by rw [length_up]; omega), List.nil_append]

/-- The node over two neighbours. -/
theorem getElem?_up_pair : ∀ {l : List α} {j : Nat} {a b : α}, l[2 * j]? = some a →
    l[2 * j + 1]? = some b → (up node l)[j]? = some (node a b)
  | [], _, _, _, ha, _ => by cases ha
  | [x], j, a, b, ha, hb => by
      cases hb
  | x :: y :: rest, 0, a, b, ha, hb => by
      cases ha
      cases hb
      rfl
  | x :: y :: rest, j + 1, a, b, ha, hb => by
      have hj : 2 * (j + 1) = 2 * j + 1 + 1 := by omega
      rw [hj] at ha hb
      exact getElem?_up_pair (l := rest) ha hb

/-- A last node without a neighbour moves up as it is. -/
theorem getElem?_up_last : ∀ {l : List α} {j : Nat}, l.length = 2 * j + 1 →
    (up node l)[j]? = l[2 * j]?
  | [], _, h => by cases h
  | [x], j, h => by
      have hj : j = 0 := by
        simp only [List.length_cons, List.length_nil] at h
        omega
      subst hj
      rfl
  | x :: y :: rest, 0, h => by
      simp only [List.length_cons] at h
      omega
  | x :: y :: rest, j + 1, h => by
      have hj : 2 * (j + 1) = 2 * j + 1 + 1 := by omega
      rw [hj]
      refine getElem?_up_last (l := rest) ?_
      simp only [List.length_cons] at h
      omega

/-! ## The tree hash -/

/-- The hash of the tree over the leaves; `empty` is that of no leaves. -/
def mth (node : α → α → α) (empty : α) (l : List α) : α :=
  if _ : 2 ≤ l.length then
    node (mth node empty (l.take (splitPoint l.length)))
      (mth node empty (l.drop (splitPoint l.length)))
  else l.headD empty
termination_by l.length
decreasing_by
  · rw [List.length_take]
    exact lt_of_le_of_lt (min_le_left _ _) (splitPoint_lt ‹_›)
  · rw [List.length_drop]
    have := splitPoint_pos l.length
    omega

variable {empty : α}

@[simp] theorem mth_nil : mth node empty [] = empty := by
  rw [mth, dif_neg (by simp)]
  rfl

@[simp] theorem mth_single (a : α) : mth node empty [a] = a := by
  rw [mth, dif_neg (by simp)]
  rfl

theorem mth_split {l : List α} (h : 2 ≤ l.length) :
    mth node empty l = node (mth node empty (l.take (splitPoint l.length)))
      (mth node empty (l.drop (splitPoint l.length))) := by
  rw [mth, dif_pos h]

/-- Joining neighbours does not change the hash of the tree. -/
theorem mth_up (l : List α) : mth node empty (up node l) = mth node empty l := by
  induction hn : l.length using Nat.strong_induction_on generalizing l with
  | _ n ih =>
      match l, hn with
      | [], _ => rfl
      | [a], _ => rfl
      | [a, b], _ =>
          have hsplit : splitPoint [a, b].length = 1 := rfl
          rw [mth_split (l := [a, b]) (by simp), hsplit]
          change mth node empty [node a b] = node (mth node empty [a]) (mth node empty [b])
          rw [mth_single, mth_single, mth_single]
      | a :: b :: c :: rest, hn =>
          -- Both trees split at the same place: the upper one at half the point of the lower one.
          set l := a :: b :: c :: rest with hl
          have hlen : 3 ≤ l.length := by
            simp only [hl, List.length_cons]
            omega
          have hpoint := splitPoint_half hlen
          have hlt := splitPoint_lt (n := l.length) (by omega)
          have hpos := splitPoint_pos ((l.length + 1) / 2)
          rw [mth_split (l := l) (by omega), mth_split (l := up node l) (by rw [length_up]; omega),
            length_up, take_up (by omega), drop_up (by omega), ← hpoint]
          rw [ih _ (by rw [List.length_take]; omega) _ rfl,
            ih _ (by rw [List.length_drop]; omega) _ rfl]

/-- The pairs of nodes the tree joins. -/
def joins (node : α → α → α) (empty : α) (l : List α) : List (α × α) :=
  if _ : 2 ≤ l.length then
    (mth node empty (l.take (splitPoint l.length)), mth node empty (l.drop (splitPoint l.length))) ::
      (joins node empty (l.take (splitPoint l.length)) ++
        joins node empty (l.drop (splitPoint l.length)))
  else []
termination_by l.length
decreasing_by
  · rw [List.length_take]
    exact lt_of_le_of_lt (min_le_left _ _) (splitPoint_lt ‹_›)
  · rw [List.length_drop]
    have := splitPoint_pos l.length
    omega

theorem joins_split {l : List α} (h : 2 ≤ l.length) :
    joins node empty l =
      (mth node empty (l.take (splitPoint l.length)),
        mth node empty (l.drop (splitPoint l.length))) ::
      (joins node empty (l.take (splitPoint l.length)) ++
        joins node empty (l.drop (splitPoint l.length))) := by
  rw [joins, dif_pos h]

theorem joins_of_length_lt {l : List α} (h : l.length < 2) : joins node empty l = [] := by
  rw [joins, dif_neg (by omega)]

/-- What the upper levels join, the tree joins. -/
theorem joins_up_subset (l : List α) : joins node empty (up node l) ⊆ joins node empty l := by
  induction hn : l.length using Nat.strong_induction_on generalizing l with
  | _ n ih =>
      have hup : (up node l).length = (l.length + 1) / 2 := length_up l
      by_cases hlen : 3 ≤ l.length
      · have hpoint := splitPoint_half hlen
        have hlt := splitPoint_lt (n := l.length) (by omega)
        have hpos := splitPoint_pos ((l.length + 1) / 2)
        rw [joins_split (l := l) (by omega), joins_split (l := up node l) (by omega), hup,
          take_up (by omega), drop_up (by omega), ← hpoint, mth_up, mth_up]
        have hleft := ih _ (by rw [List.length_take]; omega) (l.take (splitPoint l.length)) rfl
        have hright := ih _ (by rw [List.length_drop]; omega) (l.drop (splitPoint l.length)) rfl
        exact List.cons_subset_cons _ (List.append_subset.2
          ⟨List.subset_append_of_subset_left _ hleft, List.subset_append_of_subset_right _ hright⟩)
      · rw [joins_of_length_lt (l := up node l) (by omega)]
        exact List.nil_subset _

/-- The tree joins neighbours of the lowest level. -/
theorem pair_mem_joins {l : List α} {j : Nat} {a b : α} (ha : l[2 * j]? = some a)
    (hb : l[2 * j + 1]? = some b) : (a, b) ∈ joins node empty l := by
  induction hn : l.length using Nat.strong_induction_on generalizing l j with
  | _ n ih =>
      have hlt : 2 * j + 1 < l.length := (List.getElem?_eq_some_iff.1 hb).1
      have hpos := splitPoint_pos l.length
      have hsplit := splitPoint_lt (n := l.length) (by omega)
      rw [joins_split (by omega)]
      by_cases hlen : 3 ≤ l.length
      · have hpoint := splitPoint_half hlen
        -- The split is even, so a pair lies on one side of it.
        by_cases hside : 2 * j < splitPoint l.length
        · have hmem := ih _ (by rw [List.length_take]; omega) (l := l.take (splitPoint l.length))
            (j := j) (by rw [List.getElem?_take_of_lt hside, ha])
            (by rw [List.getElem?_take_of_lt (by omega), hb]) rfl
          exact List.mem_cons_of_mem _ (List.mem_append_left _ hmem)
        · have hback : splitPoint l.length + 2 * (j - splitPoint ((l.length + 1) / 2)) = 2 * j := by
            omega
          have hmem := ih _ (by rw [List.length_drop]; omega) (l := l.drop (splitPoint l.length))
            (j := j - splitPoint ((l.length + 1) / 2))
            (by rw [List.getElem?_drop, hback, ha])
            (by rw [List.getElem?_drop, ← Nat.add_assoc, hback, hb]) rfl
          exact List.mem_cons_of_mem _ (List.mem_append_right _ hmem)
      · -- Two leaves are the pair itself.
        obtain ⟨x, y, rfl⟩ := List.length_eq_two.1 (by omega : l.length = 2)
        obtain rfl : j = 0 := by omega
        cases ha
        cases hb
        have hone : splitPoint [a, b].length = 1 := rfl
        refine List.mem_cons.2 (Or.inl ?_)
        rw [hone]
        change (a, b) = (mth node empty [a], mth node empty [b])
        rw [mth_single, mth_single]

/-! ## The inclusion path -/

/-- The hashes beside the way from leaf `i` to the root, the lowest first. -/
def path (node : α → α → α) (empty : α) (i : Nat) (l : List α) : List α :=
  if _ : 2 ≤ l.length then
    if i < splitPoint l.length then
      path node empty i (l.take (splitPoint l.length)) ++
        [mth node empty (l.drop (splitPoint l.length))]
    else
      path node empty (i - splitPoint l.length) (l.drop (splitPoint l.length)) ++
        [mth node empty (l.take (splitPoint l.length))]
  else []
termination_by l.length
decreasing_by
  · rw [List.length_take]
    exact lt_of_le_of_lt (min_le_left _ _) (splitPoint_lt ‹_›)
  · rw [List.length_drop]
    have := splitPoint_pos l.length
    omega

theorem path_of_length_lt {i : Nat} {l : List α} (h : l.length < 2) : path node empty i l = [] := by
  rw [path, dif_neg (by omega)]

theorem path_left {i : Nat} {l : List α} (h : 2 ≤ l.length) (hi : i < splitPoint l.length) :
    path node empty i l = path node empty i (l.take (splitPoint l.length)) ++
      [mth node empty (l.drop (splitPoint l.length))] := by
  rw [path, dif_pos h, if_pos hi]

theorem path_right {i : Nat} {l : List α} (h : 2 ≤ l.length) (hi : splitPoint l.length ≤ i) :
    path node empty i l =
      path node empty (i - splitPoint l.length) (l.drop (splitPoint l.length)) ++
        [mth node empty (l.take (splitPoint l.length))] := by
  rw [path, dif_pos h, if_neg (by omega)]

/-- The place of the neighbour a node joins with. -/
def beside (i : Nat) : Nat := if i % 2 = 1 then i - 1 else i + 1

theorem beside_lt {i k : Nat} (hi : i < 2 * k) : beside i < 2 * k := by
  unfold beside
  split <;> omega

theorem beside_sub {i k : Nat} (hi : 2 * k ≤ i) : beside (i - 2 * k) = beside i - 2 * k := by
  unfold beside
  split <;> split <;> omega

theorem le_beside {i k : Nat} (hi : 2 * k ≤ i) : 2 * k ≤ beside i := by
  unfold beside
  split <;> omega

/-- The path from a leaf is its neighbour, if it has one, and the path one level up. -/
theorem path_up {i : Nat} {l : List α} (hi : i < l.length) :
    path node empty i l = l[beside i]?.toList ++ path node empty (i / 2) (up node l) := by
  induction hn : l.length using Nat.strong_induction_on generalizing i l with
  | _ n ih =>
      match l, hn, hi with
      | [a], _, hi =>
          obtain rfl : i = 0 := by simpa using hi
          rw [path_of_length_lt (by simp), path_of_length_lt (by simp)]
          rfl
      | [a, b], _, hi =>
          have hsplit : splitPoint [a, b].length = 1 := rfl
          rw [path_of_length_lt (l := up node [a, b]) (by simp), List.append_nil]
          have hi : i = 0 ∨ i = 1 := by
            simp only [List.length_cons, List.length_nil] at hi
            omega
          rcases hi with rfl | rfl
          · rw [path_left (by simp) (by rw [hsplit]; omega), hsplit, path_of_length_lt (by simp)]
            simp [beside]
          · rw [path_right (by simp) (by rw [hsplit]), hsplit, path_of_length_lt (by simp)]
            simp [beside]
      | a :: b :: c :: rest, hn, hi =>
          set l := a :: b :: c :: rest with hl
          have hlen : 3 ≤ l.length := by
            simp only [hl, List.length_cons]
            omega
          -- The level above splits where this one does, at half the index.
          have hpoint := splitPoint_half hlen
          have hlt := splitPoint_lt (n := l.length) (by omega)
          have hpos := splitPoint_pos ((l.length + 1) / 2)
          have hup : (up node l).length = (l.length + 1) / 2 := length_up l
          by_cases hside : i < splitPoint l.length
          · have hbeside : beside i < splitPoint l.length := by
              rw [hpoint]
              exact beside_lt (by omega)
            rw [path_left (by omega) hside, path_left (l := up node l) (by omega) (by rw [hup]; omega),
              ih _ (by rw [List.length_take]; omega) (by rw [List.length_take]; omega) rfl, hup,
              take_up (by omega), drop_up (by omega), ← hpoint, mth_up,
              List.getElem?_take_of_lt hbeside, List.append_assoc]
          · have hbeside : splitPoint l.length ≤ beside i := by
              rw [hpoint]
              exact le_beside (by omega)
            -- Past the split all shift by an even count, which keeps every pair together.
            have hsub : beside (i - splitPoint l.length) = beside i - splitPoint l.length := by
              rw [hpoint]
              exact beside_sub (by omega)
            have hhalf : (i - splitPoint l.length) / 2 = i / 2 - splitPoint ((l.length + 1) / 2) := by
              omega
            rw [path_right (l := l) (by omega) (by omega),
              path_right (l := up node l) (by omega) (by rw [hup]; omega),
              ih _ (by rw [List.length_drop]; omega) (by rw [List.length_drop]; omega) rfl, hup,
              take_up (by omega), drop_up (by omega), ← hpoint, mth_up, hsub, hhalf,
              List.getElem?_drop, Nat.add_sub_cancel' hbeside, List.append_assoc]

/-! ## The climb of a verifier -/

/-- The climb from node `i` of a level whose last node is `last`, taking one hash of the path at each
level where the node has a neighbour. `onRight` is what a neighbour on the right does. -/
def climb (node onRight : α → α → α) (i last : Nat) (r : α) (p : List α) : Option α :=
  if _ : last = 0 then (if p.isEmpty then some r else none)
  else if i % 2 = 1 then
    match p with
    | [] => none
    | c :: p => climb node onRight (i / 2) (last / 2) (node c r) p
  else if i < last then
    match p with
    | [] => none
    | c :: p => climb node onRight (i / 2) (last / 2) (onRight r c) p
  else climb node onRight (i / 2) (last / 2) r p
termination_by last

variable {onRight : α → α → α}

@[simp] theorem climb_zero (i : Nat) (r : α) (p : List α) :
    climb node onRight i 0 r p = if p.isEmpty then some r else none := by
  rw [climb.eq_def, dif_pos rfl]

theorem climb_odd {i last : Nat} (hlast : last ≠ 0) (hi : i % 2 = 1) (r c : α) (p : List α) :
    climb node onRight i last r (c :: p) =
      climb node onRight (i / 2) (last / 2) (node c r) p := by
  rw [climb, dif_neg hlast, if_pos hi]

theorem climb_even {i last : Nat} (hi : i % 2 = 0) (hlt : i < last) (r c : α) (p : List α) :
    climb node onRight i last r (c :: p) =
      climb node onRight (i / 2) (last / 2) (onRight r c) p := by
  rw [climb, dif_neg (by omega), if_neg (by omega), if_pos hlt]

theorem climb_last {i last : Nat} (hlast : last ≠ 0) (hi : i % 2 = 0) (hge : last ≤ i) (r : α)
    (p : List α) :
    climb node onRight i last r p = climb node onRight (i / 2) (last / 2) r p := by
  rw [climb.eq_def, dif_neg hlast, if_neg (by omega), if_neg (by omega)]

/-- Where the node has a neighbour, a path that ran out leads nowhere. -/
theorem climb_nil {i last : Nat} (hlast : last ≠ 0) (h : i % 2 = 1 ∨ i < last) (r : α) :
    climb node onRight i last r [] = none := by
  rw [climb.eq_def, dif_neg hlast]
  split_ifs with hi hlt
  · rfl
  · rfl
  · omega

/-- The pairs of nodes the climb joins. -/
def climbed (node : α → α → α) (i last : Nat) (r : α) (p : List α) : List (α × α) :=
  if _ : last = 0 then []
  else if i % 2 = 1 then
    match p with
    | [] => []
    | c :: p => (c, r) :: climbed node (i / 2) (last / 2) (node c r) p
  else if i < last then
    match p with
    | [] => []
    | c :: p => (r, c) :: climbed node (i / 2) (last / 2) (node r c) p
  else climbed node (i / 2) (last / 2) r p
termination_by last

theorem climbed_zero (i : Nat) (r : α) (p : List α) : climbed node i 0 r p = [] := by
  rw [climbed.eq_def, dif_pos rfl]

theorem climbed_odd {i last : Nat} (hlast : last ≠ 0) (hi : i % 2 = 1) (r c : α) (p : List α) :
    climbed node i last r (c :: p) = (c, r) :: climbed node (i / 2) (last / 2) (node c r) p := by
  rw [climbed.eq_def, dif_neg hlast, if_pos hi]

theorem climbed_even {i last : Nat} (hi : i % 2 = 0) (hlt : i < last) (r c : α) (p : List α) :
    climbed node i last r (c :: p) = (r, c) :: climbed node (i / 2) (last / 2) (node r c) p := by
  rw [climbed.eq_def, dif_neg (by omega), if_neg (by omega), if_pos hlt]

theorem climbed_last {i last : Nat} (hlast : last ≠ 0) (hi : i % 2 = 0) (hge : last ≤ i) (r : α)
    (p : List α) :
    climbed node i last r p = climbed node (i / 2) (last / 2) r p := by
  rw [climbed.eq_def, dif_neg hlast, if_neg (by omega), if_neg (by omega)]

/-- A pair of each list: two different pairs that join to one node. -/
def Collision (node : α → α → α) (xs ys : List (α × α)) : Prop :=
  ∃ x ∈ xs, ∃ y ∈ ys, x ≠ y ∧ node x.1 x.2 = node y.1 y.2

theorem Collision.mono {xs xs' ys ys' : List (α × α)} (h : Collision node xs ys) (hx : xs ⊆ xs')
    (hy : ys ⊆ ys') : Collision node xs' ys' := by
  obtain ⟨x, hxmem, y, hymem, hne, heq⟩ := h
  exact ⟨x, hx hxmem, y, hy hymem, hne, heq⟩

theorem eq_or_collision {a b a' b' : α} {xs ys : List (α × α)} (h : node a b = node a' b')
    (hx : (a, b) ∈ xs) (hy : (a', b') ∈ ys) : (a = a' ∧ b = b') ∨ Collision node xs ys := by
  by_cases heq : (a, b) = (a', b')
  · exact Or.inl (Prod.mk.inj heq)
  · exact Or.inr ⟨_, hx, _, hy, heq, h⟩

/-- What one level of the climb meets at node `i` of a level. -/
theorem level_cases (node : α → α → α) (empty : α) {l : List α} {i last : Nat}
    (hlen : l.length = last + 1) (hi : i ≤ last) {x : α} (hx : l[i]? = some x) :
    (∃ c, i % 2 = 1 ∧ l[beside i]? = some c ∧ (up node l)[i / 2]? = some (node c x) ∧
      (c, x) ∈ joins node empty l) ∨
    (∃ c, i % 2 = 0 ∧ i < last ∧ l[beside i]? = some c ∧
      (up node l)[i / 2]? = some (node x c) ∧ (x, c) ∈ joins node empty l) ∨
    (i % 2 = 0 ∧ i = last ∧ l[beside i]? = none ∧ (up node l)[i / 2]? = some x) := by
  rcases Nat.mod_two_eq_zero_or_one i with heven | hodd
  · have hhalf : 2 * (i / 2) = i := by omega
    have hbeside : beside i = i + 1 := by
      rw [beside, if_neg (by omega)]
    -- A left node, with a right one beside it unless it is the last.
    rcases Nat.lt_or_ge i last with hlt | hge
    · have hc : l[i + 1]? = some l[i + 1] := List.getElem?_eq_getElem (by omega)
      have hx' : l[2 * (i / 2)]? = some x := by rw [hhalf, hx]
      have hc' : l[2 * (i / 2) + 1]? = some l[i + 1] := by rw [hhalf, hc]
      exact Or.inr (Or.inl ⟨l[i + 1], heven, hlt, by rw [hbeside, hc],
        getElem?_up_pair hx' hc', pair_mem_joins hx' hc'⟩)
    · refine Or.inr (Or.inr ⟨heven, by omega, ?_, ?_⟩)
      · rw [hbeside]
        exact List.getElem?_eq_none (by omega)
      · rw [getElem?_up_last (by omega), hhalf, hx]
  · have hhalf : 2 * (i / 2) = i - 1 := by omega
    have hbeside : beside i = i - 1 := by
      rw [beside, if_pos hodd]
    have hc : l[i - 1]? = some l[i - 1] := List.getElem?_eq_getElem (by omega)
    have hc' : l[2 * (i / 2)]? = some l[i - 1] := by rw [hhalf, hc]
    have hx' : l[2 * (i / 2) + 1]? = some x := by
      rw [hhalf, Nat.sub_add_cancel (by omega), hx]
    exact Or.inl ⟨l[i - 1], hodd, by rw [hbeside, hc], getElem?_up_pair hc' hx',
      pair_mem_joins hc' hx'⟩

/-- The climb from a leaf along its path ends at the root. -/
theorem climb_path {l : List α} {i last : Nat} (hlen : l.length = last + 1) {x : α}
    (hx : l[i]? = some x) :
    climb node node i last x (path node empty i l) = some (mth node empty l) := by
  induction last using Nat.strong_induction_on generalizing i l x with
  | _ last ih =>
      have hi : i < l.length := (List.getElem?_eq_some_iff.1 hx).1
      by_cases hlast : last = 0
      · subst hlast
        obtain ⟨a, rfl⟩ := List.length_eq_one_iff.1 hlen
        obtain rfl : i = 0 := by simpa using hi
        cases hx
        rw [path_of_length_lt (by simp), climb_zero, mth_single]
        rfl
      · have hup : (up node l).length = last / 2 + 1 := by
          rw [length_up]
          omega
        rw [path_up hi, ← mth_up l]
        -- One level up the same claim is the induction hypothesis.
        rcases level_cases node empty hlen (by omega) hx with
          ⟨c, hodd, hc, hnode, -⟩ | ⟨c, heven, hlt, hc, hnode, -⟩ | ⟨heven, heq, hc, hnode⟩
        · rw [hc]
          exact (climb_odd hlast hodd x c _).trans (ih (last / 2) (by omega) hup hnode)
        · rw [hc]
          exact (climb_even heven hlt x c _).trans (ih (last / 2) (by omega) hup hnode)
        · rw [hc]
          exact (climb_last hlast heven (by omega) x _).trans (ih (last / 2) (by omega) hup hnode)

/-- A climb that ends at the root started at the leaf and took its path, or it joined a pair that
collides with one the tree joins. -/
theorem climb_sound {l : List α} {i last : Nat} (hlen : l.length = last + 1) (hi : i ≤ last) {r : α}
    {p : List α} (h : climb node node i last r p = some (mth node empty l)) :
    (l[i]? = some r ∧ p = path node empty i l) ∨
      Collision node (joins node empty l) (climbed node i last r p) := by
  induction last using Nat.strong_induction_on generalizing i l r p with
  | _ last ih =>
      have hx : l[i]? = some l[i] := List.getElem?_eq_getElem (by omega)
      by_cases hlast : last = 0
      · subst hlast
        obtain ⟨a, rfl⟩ := List.length_eq_one_iff.1 hlen
        obtain rfl : i = 0 := by omega
        rw [climb_zero, mth_single] at h
        split_ifs at h with hp
        cases h
        exact Or.inl ⟨rfl, by rw [path_of_length_lt (by simp), List.isEmpty_iff.1 hp]⟩
      · have hup : (up node l).length = last / 2 + 1 := by
          rw [length_up]
          omega
        rw [path_up (by omega)]
        rw [← mth_up l] at h
        rcases level_cases node empty hlen hi hx with
          ⟨c, hodd, hc, hnode, hpair⟩ | ⟨c, heven, hlt, hc, hnode, hpair⟩ | ⟨heven, heq, hc, hnode⟩
        · cases p with
          | nil =>
              rw [climb_nil hlast (Or.inl hodd)] at h
              cases h
          | cons c' p =>
              rw [climb_odd hlast hodd] at h
              rw [climbed_odd hlast hodd]
              rcases ih (last / 2) (by omega) hup (by omega) h with ⟨hr, hp⟩ | hcollision
              · rw [hnode] at hr
                -- Equal hashes of the two parents: equal children, or a collision at this level.
                refine (eq_or_collision (Option.some.inj hr) hpair List.mem_cons_self).imp_left ?_
                rintro ⟨rfl, rfl⟩
                exact ⟨hx, by rw [hc, hp]; rfl⟩
              · exact Or.inr (hcollision.mono (joins_up_subset l) (List.subset_cons_self _ _))
        · cases p with
          | nil =>
              rw [climb_nil hlast (Or.inr hlt)] at h
              cases h
          | cons c' p =>
              rw [climb_even heven hlt] at h
              rw [climbed_even heven hlt]
              rcases ih (last / 2) (by omega) hup (by omega) h with ⟨hr, hp⟩ | hcollision
              · rw [hnode] at hr
                refine (eq_or_collision (Option.some.inj hr) hpair List.mem_cons_self).imp_left ?_
                rintro ⟨rfl, rfl⟩
                exact ⟨hx, by rw [hc, hp]; rfl⟩
              · exact Or.inr (hcollision.mono (joins_up_subset l) (List.subset_cons_self _ _))
        · rw [climb_last hlast heven (by omega)] at h
          rw [climbed_last hlast heven (by omega)]
          rcases ih (last / 2) (by omega) hup (by omega) h with ⟨hr, hp⟩ | hcollision
          · rw [hnode] at hr
            -- A last node without a neighbour goes up as it is, and the path has no entry for it.
            exact Or.inl ⟨by rw [hx, hr], by rw [hc, hp]; rfl⟩
          · exact Or.inr (hcollision.mono (joins_up_subset l) (List.Subset.refl _))

/-- A climb that takes only the hashes on the left ends at the root of the leaves up to it. -/
theorem climb_prefix {l : List α} {i last : Nat} (hlen : l.length = last + 1) (hi : i ≤ last) (r : α) :
    climb node (fun r _ => r) i last r (path node empty i l) =
      some (mth node empty (l.take i ++ [r])) := by
  induction last using Nat.strong_induction_on generalizing i l r with
  | _ last ih =>
      have hx : l[i]? = some l[i] := List.getElem?_eq_getElem (by omega)
      by_cases hlast : last = 0
      · subst hlast
        obtain ⟨a, rfl⟩ := List.length_eq_one_iff.1 hlen
        obtain rfl : i = 0 := by omega
        rw [path_of_length_lt (by simp), climb_zero, List.take_zero, List.nil_append, mth_single]
        rfl
      · have hup : (up node l).length = last / 2 + 1 := by
          rw [length_up]
          omega
        rw [path_up (by omega), ← mth_up (l.take i ++ [r])]
        -- A level up, the leaves before the node are joined and the node stands at half its place.
        have heven_up : i % 2 = 0 →
            up node (l.take i ++ [r]) = (up node l).take (i / 2) ++ [r] := by
          intro heven
          have hhalf : 2 * (i / 2) = i := by omega
          rw [up_append _ (by rw [List.length_take]; omega), take_up (by omega), hhalf, up_single]
        rcases level_cases node empty hlen hi hx with
          ⟨c, hodd, hc, -⟩ | ⟨c, heven, hlt, hc, -⟩ | ⟨heven, heq, hc, -⟩
        · have hhalf : 2 * (i / 2) = i - 1 := by omega
          have hbeside : beside i = i - 1 := by
            rw [beside, if_pos hodd]
          have htake : l.take i = l.take (i - 1) ++ [c] := by
            rw [hbeside] at hc
            obtain ⟨hlt, rfl⟩ := List.getElem?_eq_some_iff.1 hc
            rw [List.take_append_getElem, Nat.sub_add_cancel (by omega)]
          have hodd_up :
              up node (l.take i ++ [r]) = (up node l).take (i / 2) ++ [node c r] := by
            rw [htake, List.append_assoc, up_append _ (by rw [List.length_take]; omega),
              take_up (by omega), hhalf]
            rfl
          rw [hc, hodd_up]
          exact (climb_odd hlast hodd r c _).trans (ih (last / 2) (by omega) hup (by omega) _)
        · rw [hc, heven_up heven]
          exact (climb_even heven hlt r c _).trans (ih (last / 2) (by omega) hup (by omega) _)
        · rw [hc, heven_up heven]
          exact (climb_last hlast heven (by omega) r _).trans
            (ih (last / 2) (by omega) hup (by omega) _)

/-! ## The consistency proof -/

/-- The hashes that show the tree over the first `m` leaves inside the tree over all of them.
`complete` says that the smaller tree is a whole subtree of the range. -/
def subproof (node : α → α → α) (empty : α) (m : Nat) (l : List α) (complete : Bool) : List α :=
  if _ : 2 ≤ l.length ∧ m < l.length then
    if m ≤ splitPoint l.length then
      subproof node empty m (l.take (splitPoint l.length)) complete ++
        [mth node empty (l.drop (splitPoint l.length))]
    else
      subproof node empty (m - splitPoint l.length) (l.drop (splitPoint l.length)) false ++
        [mth node empty (l.take (splitPoint l.length))]
  else if complete then [] else [mth node empty l]
termination_by l.length
decreasing_by
  · rw [List.length_take]
    have hlt := splitPoint_lt (And.left ‹_›)
    omega
  · rw [List.length_drop]
    have := splitPoint_pos l.length
    omega

variable {m : Nat} {l : List α} {complete : Bool}

theorem subproof_whole (h : l.length ≤ m) :
    subproof node empty m l complete = if complete then [] else [mth node empty l] := by
  rw [subproof, dif_neg (by omega)]

theorem subproof_left (h : 2 ≤ l.length) (hm : m < l.length) (hsplit : m ≤ splitPoint l.length) :
    subproof node empty m l complete =
      subproof node empty m (l.take (splitPoint l.length)) complete ++
        [mth node empty (l.drop (splitPoint l.length))] := by
  rw [subproof, dif_pos ⟨h, hm⟩, if_pos hsplit]

theorem subproof_right (h : 2 ≤ l.length) (hm : m < l.length) (hsplit : splitPoint l.length < m) :
    subproof node empty m l complete =
      subproof node empty (m - splitPoint l.length) (l.drop (splitPoint l.length)) false ++
        [mth node empty (l.take (splitPoint l.length))] := by
  rw [subproof, dif_pos ⟨h, hm⟩, if_neg (by omega)]

theorem subproof_ne_nil (h : 2 ≤ l.length) (hm : m < l.length) :
    subproof node empty m l complete ≠ [] := by
  rcases Nat.lt_or_ge (splitPoint l.length) m with hside | hside
  · rw [subproof_right h hm hside]
    exact List.concat_ne_nil _ _
  · rw [subproof_left h hm hside]
    exact List.concat_ne_nil _ _

/-- An even number of leaves is a number of nodes one level up, and the proof is the one there. -/
theorem subproof_up (hpos : 0 < m) (hm : 2 * m ≤ l.length) :
    subproof node empty (2 * m) l complete = subproof node empty m (up node l) complete := by
  induction hn : l.length using Nat.strong_induction_on generalizing m l complete with
  | _ n ih =>
      have hup : (up node l).length = (l.length + 1) / 2 := length_up l
      by_cases hwhole : l.length ≤ 2 * m
      · rw [subproof_whole hwhole, subproof_whole (by omega), mth_up]
      · have hpoint := splitPoint_half (n := l.length) (by omega)
        have hlt := splitPoint_lt (n := l.length) (by omega)
        have hsplit := splitPoint_pos ((l.length + 1) / 2)
        by_cases hside : 2 * m ≤ splitPoint l.length
        · rw [subproof_left (by omega) (by omega) hside,
            subproof_left (l := up node l) (by omega) (by omega) (by rw [hup]; omega),
            ih _ (by rw [List.length_take]; omega) hpos (by rw [List.length_take]; omega) rfl,
            hup, take_up (by omega), drop_up (by omega), ← hpoint, mth_up]
        · have hrest : 2 * m - splitPoint l.length = 2 * (m - splitPoint ((l.length + 1) / 2)) := by
            omega
          rw [subproof_right (by omega) (by omega) (by omega),
            subproof_right (l := up node l) (by omega) (by omega) (by rw [hup]; omega), hrest,
            ih _ (by rw [List.length_drop]; omega) (by omega) (by rw [List.length_drop]; omega) rfl,
            hup, take_up (by omega), drop_up (by omega), ← hpoint, mth_up]

/-- The proof for an odd number of leaves is the path of the last of them, after that leaf itself
where the reader cannot know it. -/
theorem subproof_odd (hodd : m % 2 = 1) (hm : m < l.length ∨ (m = 1 ∧ l.length = 1)) :
    subproof node empty m l complete =
      (if complete && m == 1 then [] else l[m - 1]?.toList) ++ path node empty (m - 1) l := by
  induction hn : l.length using Nat.strong_induction_on generalizing m l complete with
  | _ n ih =>
      rcases hm with hm | ⟨rfl, hlen⟩
      · have hlt := splitPoint_lt (n := l.length) (by omega)
        have hpos := splitPoint_pos l.length
        have hle := le_two_mul_splitPoint l.length
        obtain ⟨d, hd⟩ := exists_splitPoint l.length
        -- The point is 1 or even, so an odd number never ends at it.
        have hpoint : splitPoint l.length = 1 ∨ splitPoint l.length % 2 = 0 := by
          cases d with
          | zero => exact Or.inl hd
          | succ d =>
              refine Or.inr ?_
              rw [hd, Nat.pow_succ]
              omega
        by_cases hside : m ≤ splitPoint l.length
        · rw [subproof_left (by omega) hm hside, path_left (by omega) (by omega),
            ih _ (by rw [List.length_take]; omega) hodd (by rw [List.length_take]; omega) rfl,
            List.getElem?_take_of_lt (by omega), List.append_assoc]
        · have hsub : m - 1 - splitPoint l.length = m - splitPoint l.length - 1 := by omega
          have hone : (m == 1) = false := beq_eq_false_iff_ne.2 (by omega)
          have hback : splitPoint l.length + (m - splitPoint l.length - 1) = m - 1 := by omega
          rw [subproof_right (by omega) hm (by omega), path_right (by omega) (by omega),
            ih _ (by rw [List.length_drop]; omega) (by omega) (by rw [List.length_drop]; omega) rfl,
            hone, Bool.and_false, Bool.false_and, List.getElem?_drop, hback, hsub,
            List.append_assoc]
      · obtain ⟨a, rfl⟩ := List.length_eq_one_iff.1 hlen
        rw [subproof_whole (by simp), path_of_length_lt (by simp), mth_single, List.append_nil]
        cases complete <;> rfl

/-! ## Ranges of the leaves -/

/-- The leaves from `lo` up to `hi`. -/
def slice (l : List α) (lo hi : Nat) : List α := (l.take hi).drop lo

theorem length_slice {lo hi : Nat} (hhi : hi ≤ l.length) : (slice l lo hi).length = hi - lo := by
  rw [slice, List.length_drop, List.length_take_of_le hhi]

theorem take_slice {lo hi k : Nat} (hk : lo + k ≤ hi) :
    (slice l lo hi).take k = slice l lo (lo + k) := by
  rw [slice, slice, List.take_drop, List.take_take, min_eq_left hk]

theorem drop_slice {lo hi k : Nat} : (slice l lo hi).drop k = slice l (lo + k) hi := by
  rw [slice, slice, List.drop_drop]

@[simp] theorem slice_zero (hi : Nat) : slice l 0 hi = l.take hi := List.drop_zero

theorem slice_append {lo hi : Nat} (hhi : hi ≤ l.length) (l' : List α) :
    slice (l ++ l') lo hi = slice l lo hi := by
  rw [slice, slice, List.take_append_of_le_length hhi]

theorem slice_succ {i : Nat} {a : α} (ha : l[i]? = some a) : slice l i (i + 1) = [a] := by
  obtain ⟨hi, rfl⟩ := List.getElem?_eq_some_iff.1 ha
  rw [slice, ← List.take_append_getElem hi, List.drop_append_of_le_length (by
    rw [List.length_take_of_le hi.le]), List.drop_of_length_le (by
    rw [List.length_take_of_le hi.le]), List.nil_append]

variable {lo hi : Nat}

theorem mth_slice (h : 2 ≤ hi - lo) (hhi : hi ≤ l.length) :
    mth node empty (slice l lo hi) =
      node (mth node empty (slice l lo (lo + splitPoint (hi - lo))))
        (mth node empty (slice l (lo + splitPoint (hi - lo)) hi)) := by
  have hlen : (slice l lo hi).length = hi - lo := length_slice hhi
  have hlt := splitPoint_lt h
  rw [mth_split (by omega), hlen, take_slice (by omega), drop_slice]

theorem path_slice {i : Nat} (h : 2 ≤ hi - lo) (hhi : hi ≤ l.length) :
    path node empty i (slice l lo hi) =
      if i < splitPoint (hi - lo) then
        path node empty i (slice l lo (lo + splitPoint (hi - lo))) ++
          [mth node empty (slice l (lo + splitPoint (hi - lo)) hi)]
      else
        path node empty (i - splitPoint (hi - lo)) (slice l (lo + splitPoint (hi - lo)) hi) ++
          [mth node empty (slice l lo (lo + splitPoint (hi - lo)))] := by
  have hlen : (slice l lo hi).length = hi - lo := length_slice hhi
  have hlt := splitPoint_lt h
  split_ifs with hside
  · rw [path_left (by omega) (by rw [hlen]; omega), hlen, take_slice (by omega), drop_slice]
  · rw [path_right (by omega) (by rw [hlen]; omega), hlen, take_slice (by omega), drop_slice]

theorem subproof_slice (h : 2 ≤ hi - lo) (hm : m < hi - lo) (hhi : hi ≤ l.length) :
    subproof node empty m (slice l lo hi) complete =
      if m ≤ splitPoint (hi - lo) then
        subproof node empty m (slice l lo (lo + splitPoint (hi - lo))) complete ++
          [mth node empty (slice l (lo + splitPoint (hi - lo)) hi)]
      else
        subproof node empty (m - splitPoint (hi - lo)) (slice l (lo + splitPoint (hi - lo)) hi)
            false ++
          [mth node empty (slice l lo (lo + splitPoint (hi - lo)))] := by
  have hlen : (slice l lo hi).length = hi - lo := length_slice hhi
  have hlt := splitPoint_lt h
  split_ifs with hside
  · rw [subproof_left (by omega) (by omega) (by rw [hlen]; omega), hlen, take_slice (by omega), drop_slice]
  · rw [subproof_right (by omega) (by omega) (by rw [hlen]; omega), hlen, take_slice (by omega), drop_slice]

/-- The hash of the perfect subtree at a level and index. -/
def perfect (node : α → α → α) (empty : α) (l : List α) (level index : Nat) : α :=
  mth node empty (slice l (index * 2 ^ level) ((index + 1) * 2 ^ level))

theorem perfect_zero {index : Nat} {a : α} (ha : l[index]? = some a) :
    perfect node empty l 0 index = a := by
  rw [perfect, Nat.pow_zero, Nat.mul_one, Nat.mul_one, slice_succ ha, mth_single]

theorem perfect_append {level index : Nat} (h : (index + 1) * 2 ^ level ≤ l.length) (l' : List α) :
    perfect node empty (l ++ l') level index = perfect node empty l level index := by
  rw [perfect, perfect, slice_append h]

/-- A perfect subtree is the two perfect subtrees below it. -/
theorem perfect_succ {level index : Nat} (h : (index + 1) * 2 ^ (level + 1) ≤ l.length) :
    perfect node empty l (level + 1) index =
      node (perfect node empty l level (2 * index)) (perfect node empty l level (2 * index + 1)) := by
  have hpos := Nat.two_pow_pos level
  have hlow : index * 2 ^ (level + 1) = 2 * index * 2 ^ level := by ring
  have hmid : 2 * index * 2 ^ level + 2 ^ level = (2 * index + 1) * 2 ^ level := by ring
  have hhigh : (index + 1) * 2 ^ (level + 1) = (2 * index + 1 + 1) * 2 ^ level := by ring
  have hsize : (2 * index + 1 + 1) * 2 ^ level - 2 * index * 2 ^ level = 2 ^ (level + 1) := by
    have hsum : (2 * index + 1 + 1) * 2 ^ level = 2 * index * 2 ^ level + 2 ^ (level + 1) := by ring
    rw [hsum, Nat.add_sub_cancel_left]
  have hdouble : 2 ^ (level + 1) = 2 * 2 ^ level := Nat.pow_succ'
  have hsplit : splitPoint (2 ^ (level + 1)) = 2 ^ level := splitPoint_eq (by omega) le_rfl
  rw [perfect, hhigh, hlow, mth_slice (by omega) (by omega), hsize, hsplit, hmid, perfect, perfect]

end HashTree
end Lib
end VerifiableExchange
