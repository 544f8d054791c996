import Mathlib.Algebra.Order.BigOperators.Group.List
import Mathlib.Order.Defs.LinearOrder
import Mathlib.Order.Basic
import Mathlib.Data.List.Basic
import Mathlib.Data.List.Nodup
import Mathlib.Data.List.Sort
import Mathlib.Data.Finset.Card
import Mathlib.Algebra.BigOperators.Group.List.Basic
import Mathlib.Algebra.Order.Ring.Int
import Mathlib.Tactic.Abel
import Mathlib.Tactic.Linarith

/-!
# SortedMap — finite maps as strictly sorted association lists

A finite map is the list of its entries in strictly increasing key order. The representation is
canonical, so two maps with the same lookups are equal (`SortedMap.ext`), and iteration in key
order is iteration over the list.

We provide:

* lookup, insertion, removal, filtering and the first and last entry;
* `SortedMap.total`, the sum of an integer weight over all entries, with its value after one
  insertion or removal.
-/

namespace VerifiableExchange
namespace Lib

/-! ## Entry lists -/

namespace Entries

variable {K V : Type*}

/-- The sum of a weight over all entries of a list. -/
def total (w : K → V → Int) (l : List (K × V)) : Int :=
  (l.map (fun e => w e.1 e.2)).sum

@[simp] theorem total_nil (w : K → V → Int) : total w [] = 0 := rfl

@[simp] theorem total_cons (w : K → V → Int) (e : K × V) (l : List (K × V)) :
    total w (e :: l) = w e.1 e.2 + total w l := by
  simp [total]

variable [LinearOrder K]

/-- Strictly increasing keys. -/
def Sorted (l : List (K × V)) : Prop :=
  l.Pairwise (fun a b => a.1 < b.1)

def lookup (k : K) : List (K × V) → Option V
  | [] => none
  | (k', v) :: rest => if k = k' then some v else lookup k rest

def insert (k : K) (v : V) : List (K × V) → List (K × V)
  | [] => [(k, v)]
  | (k', v') :: rest =>
      if k < k' then (k, v) :: (k', v') :: rest
      else if k = k' then (k, v) :: rest
      else (k', v') :: insert k v rest

def erase (k : K) (l : List (K × V)) : List (K × V) :=
  l.filter (fun e => e.1 ≠ k)

theorem mem_insert {k : K} {v : V} {e : K × V} :
    ∀ {l : List (K × V)}, e ∈ insert k v l → e = (k, v) ∨ e ∈ l
  | [], h => by simpa [insert] using h
  | (k', v') :: rest, h => by
      unfold insert at h
      split_ifs at h with hlt heq
      · simpa using h
      · rcases List.mem_cons.1 h with h | h
        · exact Or.inl h
        · exact Or.inr (List.mem_cons_of_mem _ h)
      · rcases List.mem_cons.1 h with h | h
        · exact Or.inr (h ▸ List.mem_cons_self)
        · rcases mem_insert h with h | h
          · exact Or.inl h
          · exact Or.inr (List.mem_cons_of_mem _ h)

theorem Sorted.insert {k : K} {v : V} :
    ∀ {l : List (K × V)}, Sorted l → Sorted (Entries.insert k v l)
  | [], _ => List.pairwise_singleton _ _
  | (k', v') :: rest, h => by
      have htail : Sorted rest := (List.pairwise_cons.1 h).2
      have hhead := (List.pairwise_cons.1 h).1
      unfold Entries.insert
      split_ifs with hlt heq
      · refine List.pairwise_cons.2 ⟨?_, h⟩
        intro e he
        rcases List.mem_cons.1 he with rfl | he
        · exact hlt
        · exact lt_trans hlt (hhead e he)
      · subst heq
        exact List.pairwise_cons.2 ⟨hhead, htail⟩
      · refine List.pairwise_cons.2 ⟨?_, htail.insert⟩
        intro e he
        rcases mem_insert he with rfl | he
        · exact lt_of_le_of_ne (not_lt.1 hlt) (Ne.symm heq)
        · exact hhead e he

theorem lookup_eq_none_of_lt {k : K} :
    ∀ {l : List (K × V)}, (∀ e ∈ l, k < e.1) → lookup k l = none
  | [], _ => rfl
  | (k', v') :: rest, h => by
      have hne : k ≠ k' := ne_of_lt (h (k', v') List.mem_cons_self)
      simp only [lookup, if_neg hne]
      exact lookup_eq_none_of_lt (fun e he => h e (List.mem_cons_of_mem _ he))

theorem lookup_insert (k q : K) (v : V) :
    ∀ l : List (K × V), lookup q (insert k v l) = if q = k then some v else lookup q l
  | [] => by simp [insert, lookup]
  | (k', v') :: rest => by
      have ih := lookup_insert k q v rest
      by_cases hlt : k < k'
      · simp [insert, lookup, hlt]
      · by_cases heq : k = k'
        · subst heq
          by_cases hq : q = k <;> simp [insert, lookup, hq]
        · by_cases hq : q = k
          · subst hq
            simp [insert, lookup, hlt, heq, ih]
          · simp [insert, lookup, hlt, heq, ih, hq]

theorem lookup_map_keyed {W : Type*} (f : K → V → W) (k : K) :
    ∀ l : List (K × V), lookup k (l.map (fun e => (e.1, f e.1 e.2))) = (lookup k l).map (f k)
  | [] => rfl
  | (k', v) :: rest => by
      by_cases h : k = k'
      · simp [lookup, h]
      · simp [lookup, h, lookup_map_keyed f k rest]

theorem mem_of_lookup {k : K} {v : V} :
    ∀ {l : List (K × V)}, lookup k l = some v → (k, v) ∈ l
  | (k', v') :: rest, h => by
      unfold lookup at h
      split_ifs at h with heq
      · subst heq
        cases h
        exact List.mem_cons_self
      · exact List.mem_cons_of_mem _ (mem_of_lookup h)

theorem lookup_of_mem {k : K} {v : V} :
    ∀ {l : List (K × V)}, Sorted l → (k, v) ∈ l → lookup k l = some v
  | (k', v') :: rest, hs, hm => by
      have hhead := (List.pairwise_cons.1 hs).1
      rcases List.mem_cons.1 hm with h | h
      · cases h
        simp [lookup]
      · have hne : k ≠ k' := ne_of_gt (hhead _ h)
        simp only [lookup, if_neg hne]
        exact lookup_of_mem (List.pairwise_cons.1 hs).2 h

/-- Sorted entry lists with the same lookups are the same list. -/
theorem ext_of_lookup :
    ∀ {l m : List (K × V)}, Sorted l → Sorted m → (∀ k, lookup k l = lookup k m) → l = m
  | [], [], _, _, _ => rfl
  | [], (k, v) :: m, _, _, h => by simpa [lookup] using h k
  | (k, v) :: l, [], _, _, h => by simpa [lookup] using h k
  | (k, v) :: l, (k', v') :: m, hl, hm, h => by
      have hlh := (List.pairwise_cons.1 hl).1
      have hmh := (List.pairwise_cons.1 hm).1
      -- The head keys agree: the smaller one would be missing from the other list.
      have hk : k = k' := by
        rcases lt_trichotomy k k' with hlt | heq | hgt
        · have hnone : lookup k ((k', v') :: m) = none :=
            lookup_eq_none_of_lt (fun e he => by
              rcases List.mem_cons.1 he with rfl | he
              · exact hlt
              · exact lt_trans hlt (hmh e he))
          have hk := h k
          rw [hnone] at hk
          simp [lookup] at hk
        · exact heq
        · have hnone : lookup k' ((k, v) :: l) = none :=
            lookup_eq_none_of_lt (fun e he => by
              rcases List.mem_cons.1 he with rfl | he
              · exact hgt
              · exact lt_trans hgt (hlh e he))
          have hk := h k'
          rw [hnone] at hk
          simp [lookup] at hk
      subst hk
      have hv : v = v' := by simpa [lookup] using h k
      subst hv
      have htail : ∀ q, lookup q l = lookup q m := by
        intro q
        by_cases hq : q = k
        · subst hq
          rw [lookup_eq_none_of_lt hlh, lookup_eq_none_of_lt hmh]
        · simpa [lookup, hq] using h q
      rw [ext_of_lookup (List.pairwise_cons.1 hl).2 (List.pairwise_cons.1 hm).2 htail]

theorem total_insert (w : K → V → Int) (k : K) (v : V) :
    ∀ {l : List (K × V)}, Sorted l →
      total w (insert k v l) = total w l - ((lookup k l).elim 0 (w k)) + w k v
  | [], _ => by simp [insert, lookup]
  | (k', v') :: rest, hs => by
      have hhead := (List.pairwise_cons.1 hs).1
      have htail : Sorted rest := (List.pairwise_cons.1 hs).2
      unfold insert
      split_ifs with hlt heq
      · -- The key sorts before the head, so it is nowhere in the list.
        have hnone : lookup k ((k', v') :: rest) = none :=
          lookup_eq_none_of_lt (fun e he => by
            rcases List.mem_cons.1 he with rfl | he
            · exact hlt
            · exact lt_trans hlt (hhead e he))
        rw [hnone]
        simp only [total_cons, Option.elim_none]
        abel
      · subst heq
        simp only [total_cons, lookup, if_true, Option.elim_some]
        abel
      · simp only [total_cons, lookup, if_neg heq, total_insert w k v htail]
        abel

theorem total_erase (w : K → V → Int) (k : K) :
    ∀ {l : List (K × V)}, Sorted l →
      total w (erase k l) = total w l - ((lookup k l).elim 0 (w k))
  | [], _ => by simp [erase, lookup]
  | (k', v') :: rest, hs => by
      have hhead := (List.pairwise_cons.1 hs).1
      have htail : Sorted rest := (List.pairwise_cons.1 hs).2
      have ih := total_erase w k htail
      by_cases heq : k = k'
      · subst heq
        have hkeep : erase k rest = rest := by
          refine List.filter_eq_self.2 (fun e he => ?_)
          simpa using ne_of_gt (hhead e he)
        have hdrop : erase k ((k, v') :: rest) = erase k rest := by simp [erase]
        rw [hdrop, hkeep]
        simp [lookup]
      · have hdrop : erase k ((k', v') :: rest) = (k', v') :: erase k rest := by
          simp [erase, Ne.symm heq]
        rw [hdrop]
        simp only [total_cons, lookup, if_neg heq, ih]
        abel

end Entries

/-! ## Maps -/

/-- A finite map, stored as its entries in strictly increasing key order. -/
structure SortedMap (K V : Type*) [LinearOrder K] where
  entries : List (K × V)
  sorted : Entries.Sorted entries

namespace SortedMap

variable {K V : Type*} [LinearOrder K]

instance [DecidableEq V] : DecidableEq (SortedMap K V) := fun a b =>
  decidable_of_iff (a.entries = b.entries) (by
    constructor
    · intro h
      cases a
      cases b
      cases h
      rfl
    · intro h
      rw [h])

def empty : SortedMap K V := ⟨[], List.Pairwise.nil⟩

instance : Inhabited (SortedMap K V) := ⟨empty⟩

def get? (m : SortedMap K V) (k : K) : Option V := Entries.lookup k m.entries

def insert (m : SortedMap K V) (k : K) (v : V) : SortedMap K V :=
  ⟨Entries.insert k v m.entries, m.sorted.insert⟩

def filter (m : SortedMap K V) (p : K → V → Bool) : SortedMap K V :=
  ⟨m.entries.filter (fun e => p e.1 e.2), m.sorted.filter _⟩

/-- The same keys with every value passed through a function. -/
def mapValues {W : Type*} (m : SortedMap K V) (f : V → W) : SortedMap K W :=
  ⟨m.entries.map (fun e => (e.1, f e.2)), by
    simpa [Entries.Sorted, List.pairwise_map] using m.sorted⟩

def erase (m : SortedMap K V) (k : K) : SortedMap K V :=
  ⟨Entries.erase k m.entries, m.sorted.filter _⟩

def contains (m : SortedMap K V) (k : K) : Bool := (m.get? k).isSome

def isEmpty (m : SortedMap K V) : Bool := m.entries.isEmpty

def size (m : SortedMap K V) : Nat := m.entries.length

/-- The entry with the smallest key. -/
def first? (m : SortedMap K V) : Option (K × V) := m.entries.head?

/-- The entry with the largest key. -/
def last? (m : SortedMap K V) : Option (K × V) := m.entries.getLast?

/-- The value at `k`, or `d` where there is none. -/
def getD (m : SortedMap K V) (k : K) (d : V) : V := (m.get? k).getD d

/-- The sum of a weight over all entries. -/
def total (m : SortedMap K V) (w : K → V → Int) : Int := Entries.total w m.entries

/-- The map built by inserting the pairs of a list from left to right. -/
def ofList (l : List (K × V)) : SortedMap K V :=
  l.foldl (fun m e => m.insert e.1 e.2) empty

/-- The sums of the amounts a list names under each key. -/
def accumulate (l : List (K × Int)) : SortedMap K Int :=
  l.foldl (fun m e => m.insert e.1 (m.getD e.1 0 + e.2)) empty

@[ext] theorem ext {a b : SortedMap K V} (h : ∀ k, a.get? k = b.get? k) : a = b := by
  have hentries : a.entries = b.entries := Entries.ext_of_lookup a.sorted b.sorted h
  cases a
  cases b
  cases hentries
  rfl

@[simp] theorem get?_empty (k : K) : (empty : SortedMap K V).get? k = none := rfl

@[simp] theorem entries_empty : (empty : SortedMap K V).entries = [] := rfl

theorem get?_insert (m : SortedMap K V) (k q : K) (v : V) :
    (m.insert k v).get? q = if q = k then some v else m.get? q :=
  Entries.lookup_insert k q v m.entries

@[simp] theorem get?_insert_self (m : SortedMap K V) (k : K) (v : V) :
    (m.insert k v).get? k = some v := by
  simp [get?_insert]

@[simp] theorem get?_insert_of_ne (m : SortedMap K V) {k q : K} (h : q ≠ k) (v : V) :
    (m.insert k v).get? q = m.get? q := by
  simp [get?_insert, h]

theorem getD_insert (m : SortedMap K V) (k q : K) (v d : V) :
    (m.insert k v).getD q d = if q = k then v else m.getD q d := by
  unfold getD
  rw [get?_insert]
  split_ifs <;> rfl

theorem mem_entries {m : SortedMap K V} {k : K} {v : V} :
    (k, v) ∈ m.entries ↔ m.get? k = some v :=
  ⟨Entries.lookup_of_mem m.sorted, Entries.mem_of_lookup⟩

theorem get?_filter_eq_some {m : SortedMap K V} {p : K → V → Bool} {q : K} {v : V} :
    (m.filter p).get? q = some v ↔ m.get? q = some v ∧ p q v = true := by
  rw [← mem_entries, ← mem_entries]
  simp [filter]

theorem get?_filter (m : SortedMap K V) (p : K → V → Bool) (q : K) :
    (m.filter p).get? q = (m.get? q).filter (p q) := by
  ext v
  rw [get?_filter_eq_some, Option.filter_eq_some_iff]

@[simp] theorem get?_mapValues {W : Type*} (m : SortedMap K V) (f : V → W) (k : K) :
    (m.mapValues f).get? k = (m.get? k).map f :=
  Entries.lookup_map_keyed (fun _ => f) k m.entries

theorem mapValues_insert {W : Type*} (m : SortedMap K V) (f : V → W) (k : K) (v : V) :
    (m.insert k v).mapValues f = (m.mapValues f).insert k (f v) := by
  ext1 q
  rw [get?_mapValues, get?_insert, get?_insert, get?_mapValues]
  split_ifs <;> rfl

theorem get?_erase (m : SortedMap K V) (k q : K) :
    (m.erase k).get? q = if q = k then none else m.get? q := by
  have h : m.erase k = m.filter (fun x _ => decide (x ≠ k)) := rfl
  rw [h, get?_filter]
  by_cases hq : q = k
  · simp [hq]
  · cases m.get? q <;> simp [hq]

@[simp] theorem get?_erase_self (m : SortedMap K V) (k : K) : (m.erase k).get? k = none := by
  simp [get?_erase]

@[simp] theorem get?_erase_of_ne (m : SortedMap K V) {k q : K} (h : q ≠ k) :
    (m.erase k).get? q = m.get? q := by
  simp [get?_erase, h]

theorem erase_insert_of_get?_none {m : SortedMap K V} {k : K} (h : m.get? k = none) (v : V) :
    (m.insert k v).erase k = m := by
  ext1 q
  by_cases hq : q = k
  · subst hq
    simp [h]
  · simp [hq]

theorem insert_get?_self {m : SortedMap K V} {k : K} {v : V} (h : m.get? k = some v) :
    m.insert k v = m := by
  ext1 q
  by_cases hq : q = k
  · subst hq
    simp [h]
  · simp [hq]

theorem erase_eq_self {m : SortedMap K V} {k : K} (h : m.get? k = none) : m.erase k = m := by
  ext1 q
  by_cases hq : q = k
  · subst hq
    simp [h]
  · simp [hq]

theorem isEmpty_iff {m : SortedMap K V} : m.isEmpty = true ↔ ∀ k, m.get? k = none := by
  constructor
  · intro h k
    have hnil : m.entries = [] := List.isEmpty_iff.1 h
    simp [get?, hnil, Entries.lookup]
  · intro h
    refine List.isEmpty_iff.2 (List.eq_nil_iff_forall_not_mem.2 ?_)
    rintro ⟨k, v⟩ hmem
    have := mem_entries.1 hmem
    simp [h k] at this

@[simp] theorem isEmpty_empty : (empty : SortedMap K V).isEmpty = true := rfl

theorem contains_iff {m : SortedMap K V} {k : K} :
    m.contains k = true ↔ ∃ v, m.get? k = some v := by
  simp [contains, Option.isSome_iff_exists]

/-! ## The two ends -/

theorem get?_of_first? {m : SortedMap K V} {e : K × V} (h : m.first? = some e) :
    m.get? e.1 = some e.2 :=
  mem_entries.1 (List.mem_of_head? h)

theorem get?_of_last? {m : SortedMap K V} {e : K × V} (h : m.last? = some e) :
    m.get? e.1 = some e.2 :=
  mem_entries.1 (List.mem_of_getLast? h)

theorem first?_le {m : SortedMap K V} {e : K × V} (h : m.first? = some e) {k : K} {v : V}
    (hk : m.get? k = some v) : e.1 ≤ k := by
  have hmem := mem_entries.2 hk
  have hsorted := m.sorted
  obtain ⟨rest, hrest⟩ := List.head?_eq_some_iff.1 h
  rw [hrest] at hmem hsorted
  rcases List.mem_cons.1 hmem with rfl | hmem
  · exact le_rfl
  · exact le_of_lt ((List.pairwise_cons.1 hsorted).1 _ hmem)

theorem le_last? {m : SortedMap K V} {e : K × V} (h : m.last? = some e) {k : K} {v : V}
    (hk : m.get? k = some v) : k ≤ e.1 := by
  have hmem := mem_entries.2 hk
  have hsorted := m.sorted
  obtain ⟨front, hfront⟩ := List.getLast?_eq_some_iff.1 h
  rw [hfront] at hmem hsorted
  rcases List.mem_append.1 hmem with hmem | hmem
  · exact le_of_lt ((List.pairwise_append.1 hsorted).2.2 _ hmem e (by simp))
  · simp only [List.mem_singleton] at hmem
    rw [← hmem]

/-! ## Changing an end -/

theorem entries_insert_of_head {m : SortedMap K V} {k : K} {v v' : V} {rest : List (K × V)}
    (h : m.entries = (k, v) :: rest) : (m.insert k v').entries = (k, v') :: rest := by
  simp [insert, Entries.insert, h]

theorem entries_erase_of_head {m : SortedMap K V} {k : K} {v : V} {rest : List (K × V)}
    (h : m.entries = (k, v) :: rest) : (m.erase k).entries = rest := by
  have hsorted := m.sorted
  rw [h] at hsorted
  have hkeep : rest.filter (fun e => decide (e.1 ≠ k)) = rest :=
    List.filter_eq_self.2 (fun e he => by
      simpa using ne_of_gt ((List.pairwise_cons.1 hsorted).1 e he))
  simpa [erase, Entries.erase, h] using hkeep

theorem entries_insert_of_last {m : SortedMap K V} {k : K} {v v' : V} {front : List (K × V)}
    (h : m.entries = front ++ [(k, v)]) : (m.insert k v').entries = front ++ [(k, v')] := by
  have hsorted := m.sorted
  rw [h] at hsorted
  have hlt : ∀ e ∈ front, e.1 < k := fun e he =>
    (List.pairwise_append.1 hsorted).2.2 e he (k, v) (by simp)
  have hwalk : ∀ l : List (K × V), (∀ e ∈ l, e.1 < k) →
      Entries.insert k v' (l ++ [(k, v)]) = l ++ [(k, v')] := by
    intro l
    induction l with
    | nil => intro _; simp [Entries.insert]
    | cons e l ih =>
        intro hl
        have he : e.1 < k := hl e List.mem_cons_self
        have hrest := ih (fun x hx => hl x (List.mem_cons_of_mem _ hx))
        simp [Entries.insert, not_lt.2 he.le, ne_of_gt he, hrest]
  simpa [insert, h] using hwalk front hlt

theorem entries_erase_of_last {m : SortedMap K V} {k : K} {v : V} {front : List (K × V)}
    (h : m.entries = front ++ [(k, v)]) : (m.erase k).entries = front := by
  have hsorted := m.sorted
  rw [h] at hsorted
  have hkeep : front.filter (fun e => decide (e.1 ≠ k)) = front :=
    List.filter_eq_self.2 (fun e he => by
      simpa using ne_of_lt ((List.pairwise_append.1 hsorted).2.2 e he (k, v) (by simp)))
  simpa [erase, Entries.erase, h] using hkeep

/-! ## Sums over the entries -/

@[simp] theorem total_empty (w : K → V → Int) : (empty : SortedMap K V).total w = 0 := rfl

theorem total_insert (m : SortedMap K V) (w : K → V → Int) (k : K) (v : V) :
    (m.insert k v).total w = m.total w - ((m.get? k).elim 0 (w k)) + w k v :=
  Entries.total_insert w k v m.sorted

theorem total_erase (m : SortedMap K V) (w : K → V → Int) (k : K) :
    (m.erase k).total w = m.total w - ((m.get? k).elim 0 (w k)) :=
  Entries.total_erase w k m.sorted

theorem total_nonneg {m : SortedMap K V} {w : K → V → Int}
    (h : ∀ k v, m.get? k = some v → 0 ≤ w k v) : 0 ≤ m.total w := by
  refine List.sum_nonneg ?_
  intro n hn
  obtain ⟨e, he, rfl⟩ := List.mem_map.1 hn
  exact h e.1 e.2 (mem_entries.1 he)

/-- The sum after setting the values of distinct keys. -/
theorem total_foldl_insert (w : K → V → Int) :
    ∀ (l : List (K × V)) (m : SortedMap K V), (l.map Prod.fst).Nodup →
      (l.foldl (fun m e => m.insert e.1 e.2) m).total w =
        m.total w + (l.map (fun e => w e.1 e.2 - (m.get? e.1).elim 0 (w e.1))).sum
  | [], m, _ => by simp
  | e :: l, m, h => by
      obtain ⟨hnot, hnodup⟩ := List.nodup_cons.1 h
      have hsame : ∀ x ∈ l, w x.1 x.2 - ((m.insert e.1 e.2).get? x.1).elim 0 (w x.1) =
          w x.1 x.2 - (m.get? x.1).elim 0 (w x.1) := by
        intro x hx
        have hne : x.1 ≠ e.1 := fun heq => hnot (heq ▸ List.mem_map_of_mem hx)
        rw [get?_insert_of_ne _ hne]
      rw [List.foldl_cons, total_foldl_insert w l _ hnodup, total_insert,
        List.map_congr_left hsame]
      simp only [List.map_cons, List.sum_cons]
      abel

theorem get?_foldl_insert :
    ∀ (l : List (K × V)) (m : SortedMap K V) (k : K), (l.map Prod.fst).Nodup →
      (l.foldl (fun m e => m.insert e.1 e.2) m).get? k =
        (Entries.lookup k l).or (m.get? k)
  | [], m, k, _ => by simp [Entries.lookup]
  | (k', v) :: l, m, k, h => by
      obtain ⟨hnot, hnodup⟩ := List.nodup_cons.1 h
      rw [List.foldl_cons, get?_foldl_insert l _ k hnodup, get?_insert]
      by_cases hk : k = k'
      · subst hk
        have hnone : Entries.lookup k l = none := by
          cases hlookup : Entries.lookup k l with
          | none => rfl
          | some w => exact absurd (List.mem_map_of_mem (Entries.mem_of_lookup hlookup)) hnot
        simp [Entries.lookup, hnone]
      · simp [Entries.lookup, hk]

/-- Inserting values that the keys decide. -/
theorem get?_foldl_insert_keys (f : K → V) {k : K} :
    ∀ (keys : List K) (m : SortedMap K V),
      (k ∈ keys → (keys.foldl (fun m key => m.insert key (f key)) m).get? k = some (f k)) ∧
        (k ∉ keys → (keys.foldl (fun m key => m.insert key (f key)) m).get? k = m.get? k)
  | [], _ => ⟨fun h => (nomatch h), fun _ => rfl⟩
  | key :: rest, m => by
      obtain ⟨hmem, hnot⟩ := get?_foldl_insert_keys f (k := k) rest (m.insert key (f key))
      constructor
      · intro h
        by_cases hrest : k ∈ rest
        · exact hmem hrest
        · obtain rfl := (List.mem_cons.1 h).resolve_right hrest
          exact (hnot hrest).trans (get?_insert_self m k (f k))
      · intro h
        obtain ⟨hne, hrest⟩ := not_or.1 (mt List.mem_cons.2 h)
        exact (hnot hrest).trans (get?_insert_of_ne m hne (f key))

/-- Accumulating a list adds to each key the amounts the list names under it. -/
theorem getD_foldl_accumulate :
    ∀ (l : List (K × Int)) (m : SortedMap K Int) (k : K),
      (l.foldl (fun m e => m.insert e.1 (m.getD e.1 0 + e.2)) m).getD k 0 =
        m.getD k 0 + (l.map (fun e => if e.1 = k then e.2 else 0)).sum
  | [], m, k => by simp
  | e :: l, m, k => by
      rw [List.foldl_cons, getD_foldl_accumulate l, getD_insert]
      simp only [List.map_cons, List.sum_cons]
      by_cases hk : k = e.1
      · rw [if_pos hk, if_pos hk.symm, hk]
        abel
      · rw [if_neg hk, if_neg (Ne.symm hk)]
        abel

theorem getD_accumulate (l : List (K × Int)) (k : K) :
    (accumulate l).getD k 0 = (l.map (fun e => if e.1 = k then e.2 else 0)).sum := by
  rw [accumulate, getD_foldl_accumulate]
  simp [getD]

/-- Accumulated positive amounts are positive. -/
theorem pos_of_accumulate {l : List (K × Int)} (hl : ∀ e ∈ l, 0 < e.2) {k : K} {v : Int}
    (h : (accumulate l).get? k = some v) : 0 < v := by
  -- Over the fold: a map of positive sums stays one.
  have hinv : ∀ (l : List (K × Int)) (m : SortedMap K Int), (∀ e ∈ l, 0 < e.2) →
      (∀ q v, m.get? q = some v → 0 < v) →
      ∀ q v, (l.foldl (fun m e => m.insert e.1 (m.getD e.1 0 + e.2)) m).get? q = some v → 0 < v := by
    intro l
    induction l with
    | nil => exact fun m _ hm => hm
    | cons e l ih =>
        intro m hl hm
        refine ih _ (fun x hx => hl x (List.mem_cons_of_mem _ hx)) ?_
        intro q v hv
        rw [get?_insert] at hv
        split_ifs at hv
        · cases hv
          have he := hl e List.mem_cons_self
          have hbase : 0 ≤ m.getD e.1 0 := by
            unfold getD
            cases hget : m.get? e.1 with
            | none => simp
            | some w => simpa using (hm _ _ hget).le
          omega
        · exact hm q v hv
  exact hinv l empty hl (by simp) k v h

/-- The nonzero entries of a map are determined by its values, zero where there is none. -/
theorem filter_ne_zero_congr {a b : SortedMap K Int} (h : ∀ k, a.getD k 0 = b.getD k 0) :
    a.filter (fun _ v => v ≠ 0) = b.filter (fun _ v => v ≠ 0) := by
  have hget : ∀ (m : SortedMap K Int) (k : K), (m.filter (fun _ v => v ≠ 0)).get? k =
      if m.getD k 0 = 0 then none else some (m.getD k 0) := by
    intro m k
    rw [get?_filter]
    unfold getD
    cases m.get? k with
    | none => simp
    | some v => by_cases hv : v = 0 <;> simp [hv]
  ext1 k
  rw [hget, hget, h k]

theorem nodup_keys (m : SortedMap K V) : (m.entries.map Prod.fst).Nodup :=
  List.pairwise_map.2 (m.sorted.imp (fun h => ne_of_lt h))

/-- The keys that are present. -/
def keys (m : SortedMap K V) : Finset K := (m.entries.map Prod.fst).toFinset

theorem mem_keys {m : SortedMap K V} {k : K} : k ∈ m.keys ↔ m.contains k = true := by
  simp only [keys, List.mem_toFinset, List.mem_map, Prod.exists, exists_and_right,
    exists_eq_right, contains_iff, mem_entries]

theorem card_keys (m : SortedMap K V) : m.keys.card = m.size :=
  (List.toFinset_card_of_nodup m.nodup_keys).trans (List.length_map _)

/-- A map is no larger than a set that has all its keys. -/
theorem size_le_card {m : SortedMap K V} {G : Finset K} (h : ∀ k, m.contains k = true → k ∈ G) :
    m.size ≤ G.card :=
  m.card_keys ▸ Finset.card_le_card (fun k hk => h k (mem_keys.1 hk))

theorem size_insert_le (m : SortedMap K V) (k : K) (v : V) : (m.insert k v).size ≤ m.size + 1 := by
  calc
    (m.insert k v).size ≤ (Insert.insert k m.keys).card := size_le_card (fun q hq => by
      by_cases hkey : q = k
      · exact Finset.mem_insert.2 (.inl hkey)
      · rw [contains, get?_insert, if_neg hkey] at hq
        exact Finset.mem_insert.2 (.inr (mem_keys.2 hq)))
    _ ≤ m.keys.card + 1 := Finset.card_insert_le _ _
    _ = m.size + 1 := by rw [card_keys]

/-- Without an entry a map is smaller by it. -/
theorem size_erase {m : SortedMap K V} {k : K} {v : V} (h : m.get? k = some v) :
    (m.erase k).size + 1 = m.size := by
  have hkeys : (m.erase k).keys = m.keys.erase k := by
    ext q
    rw [Finset.mem_erase, mem_keys, mem_keys, contains, get?_erase]
    by_cases hkey : q = k
    · simp [hkey]
    · simp [hkey, contains]
  have hmem : k ∈ m.keys := mem_keys.2 (contains_iff.2 ⟨v, h⟩)
  rw [← card_keys, hkeys, Finset.card_erase_add_one hmem, card_keys]

theorem size_filter_le (m : SortedMap K V) (p : K → V → Bool) : (m.filter p).size ≤ m.size :=
  List.length_filter_le _ _

theorem size_erase_le (m : SortedMap K V) (k : K) : (m.erase k).size ≤ m.size :=
  List.length_filter_le _ _

theorem entries_inj {a b : SortedMap K V} (h : a.entries = b.entries) : a = b := by
  cases a
  cases b
  cases h
  rfl

/-- Maps whose entries encode alike hold alike encodings. -/
theorem mapValues_eq_of_entries {W X : Type*} {m m' : SortedMap K V} (key : K → X)
    (hkey : Function.Injective key) {f : V → W}
    (h : m.entries.map (fun e => (key e.1, f e.2)) = m'.entries.map (fun e => (key e.1, f e.2))) :
    m.mapValues f = m'.mapValues f := by
  have hpairs : ∀ l l' : List (K × V),
      l.map (fun e => (key e.1, f e.2)) = l'.map (fun e => (key e.1, f e.2)) →
      l.map (fun e => (e.1, f e.2)) = l'.map (fun e => (e.1, f e.2)) := by
    intro l l' heq
    have hmap := fun l : List (K × V) =>
      (List.map_map (f := fun e : K × V => (e.1, f e.2)) (g := Prod.map key id) (l := l))
    refine List.map_injective_iff.2 (hkey.prodMap Function.injective_id) ?_
    rw [hmap, hmap]
    exact heq
  exact entries_inj (hpairs _ _ h)

/-- Lists made from the entries repeat nothing when each element tells its key. -/
theorem nodup_flatMap {α : Type*} (m : SortedMap K V) {f : K × V → List α} (key : α → K)
    (hkey : ∀ e ∈ m.entries, ∀ a ∈ f e, key a = e.1) (hf : ∀ e ∈ m.entries, (f e).Nodup) :
    (m.entries.flatMap f).Nodup := by
  refine List.nodup_flatMap.2 ⟨hf, (m.sorted.imp_of_mem ?_)⟩
  intro e e' he he' hlt a ha ha'
  exact absurd ((hkey e he a ha).symm.trans (hkey e' he' a ha')) (ne_of_lt hlt)

/-- The values of a map, the largest first. -/
def ranked {V : Type*} [LinearOrder V] (m : SortedMap K V) : List V :=
  (m.entries.map Prod.snd).insertionSort (fun a b => b ≤ a)

/-- As many keys hold a value this large as the rank of the value says. -/
theorem exists_keys_of_ranked {V : Type*} [LinearOrder V] {m : SortedMap K V} {rank : Nat} {v : V}
    (h : m.ranked[rank]? = some v) :
    ∃ keys : Finset K, rank + 1 ≤ keys.card ∧
      ∀ k ∈ keys, ∃ w, m.get? k = some w ∧ v ≤ w := by
  obtain ⟨hrank, hv⟩ := List.getElem?_eq_some_iff.1 h
  have hsorted : m.ranked.Pairwise (fun a b => b ≤ a) :=
    List.pairwise_insertionSort (fun a b : V => b ≤ a) (m.entries.map Prod.snd)
  -- The first `rank + 1` values are at least `v`, and sorting loses none of them.
  have hfront : ∀ w ∈ m.ranked.take (rank + 1), v ≤ w := by
    intro w hw
    obtain ⟨i, hi, rfl⟩ := List.mem_take_iff_getElem.1 hw
    rw [← hv]
    rcases eq_or_lt_of_le (Nat.le_of_lt_succ (lt_of_lt_of_le hi (min_le_left _ _))) with rfl | hlt
    · exact le_rfl
    · exact List.pairwise_iff_getElem.1 hsorted i rank _ hrank hlt
  have hcount : rank + 1 ≤ (m.entries.map Prod.snd).countP (fun w => decide (v ≤ w)) := by
    rw [← (List.perm_insertionSort (fun a b : V => b ≤ a) (m.entries.map Prod.snd)).countP_eq]
    calc
      rank + 1 = (m.ranked.take (rank + 1)).length := by
        rw [List.length_take, min_eq_left (Nat.succ_le_of_lt hrank)]
      _ = (m.ranked.take (rank + 1)).countP (fun w => decide (v ≤ w)) :=
        (List.countP_eq_length.2 (fun w hw => decide_eq_true (hfront w hw))).symm
      _ ≤ m.ranked.countP (fun w => decide (v ≤ w)) :=
        (List.take_sublist _ _).countP_le
  refine ⟨(m.filter (fun _ w => decide (v ≤ w))).keys, ?_, ?_⟩
  · rw [card_keys, size, filter, ← List.countP_eq_length_filter]
    rwa [List.countP_map] at hcount
  · intro k hk
    obtain ⟨w, hw⟩ := contains_iff.1 (mem_keys.1 hk)
    obtain ⟨hget, hle⟩ := get?_filter_eq_some.1 hw
    exact ⟨w, hget, of_decide_eq_true hle⟩

/-! ## Maps with the same entries -/

theorem contains_insert_iff {m : SortedMap K V} {k q : K} {v : V} :
    (m.insert k v).contains q = true ↔ m.contains q = true ∨ q = k := by
  rw [contains, get?_insert]
  split_ifs with hq
  · simp [hq]
  · simp [hq, contains]

/-- A new value under a key the map has makes it no larger. -/
theorem size_insert_of_get? {m : SortedMap K V} {k : K} {old : V} (h : m.get? k = some old)
    (v : V) : (m.insert k v).size = m.size := by
  have hkeys : (m.insert k v).keys = m.keys := by
    ext q
    rw [mem_keys, mem_keys, contains_insert_iff]
    refine ⟨fun hq => hq.elim id (fun heq => ?_), Or.inl⟩
    rw [heq]
    exact contains_iff.2 ⟨old, h⟩
  rw [← card_keys, hkeys, card_keys]

/-- Maps with the same nonzero entries have the same values, zero where there is none. -/
theorem getD_of_filter_ne_zero {a b : SortedMap K Int}
    (h : a.filter (fun _ v => v ≠ 0) = b.filter (fun _ v => v ≠ 0)) (k : K) :
    a.getD k 0 = b.getD k 0 := by
  have hvalue : ∀ m : SortedMap K Int,
      m.getD k 0 = (m.filter (fun _ v => v ≠ 0)).getD k 0 := by
    intro m
    unfold getD
    rw [get?_filter]
    cases m.get? k with
    | none => rfl
    | some v => by_cases hv : v = 0 <;> simp [Option.filter, hv]
  rw [hvalue a, hvalue b, h]

/-! ## Maps made of rows -/

theorem get?_ofList_iff {l : List (K × V)} (hnodup : (l.map Prod.fst).Nodup) {k : K} {v : V} :
    (ofList l).get? k = some v ↔ (k, v) ∈ l := by
  rw [ofList, get?_foldl_insert _ _ _ hnodup, get?_empty, Option.or_none]
  refine ⟨Entries.mem_of_lookup, fun hmem => ?_⟩
  induction l with
  | nil => cases hmem
  | cons e rest ih =>
      obtain ⟨hnot, hrest⟩ := List.nodup_cons.1 hnodup
      rcases List.mem_cons.1 hmem with rfl | hmem
      · simp [Entries.lookup]
      · have hne : k ≠ e.1 := fun heq => hnot (heq ▸ List.mem_map_of_mem (f := Prod.fst) hmem)
        simpa [Entries.lookup, hne] using ih hrest hmem

theorem ofList_entries (m : SortedMap K V) : ofList m.entries = m := by
  refine ext (fun k => Option.ext (fun v => ?_))
  rw [get?_ofList_iff m.nodup_keys, mem_entries]

section Rows

variable {Row : Type*} {key : Row → K} {value : Row → V} {rows : List Row}

/-- Rows of distinct keys that leave an empty map are no rows. -/
theorem eq_nil_of_ofList (hnodup : (rows.map key).Nodup)
    (h : ofList (rows.map (fun row => (key row, value row))) = empty) : rows = [] := by
  refine List.eq_nil_iff_forall_not_mem.2 (fun row hrow => ?_)
  have hkeys : ((rows.map (fun row => (key row, value row))).map Prod.fst).Nodup := by
    simpa [Function.comp_def] using hnodup
  have hget := (get?_ofList_iff hkeys).2 (List.mem_map_of_mem hrow)
  rw [h] at hget
  cases hget

/-- A sum over a map made of rows of distinct keys is the sum over the rows. -/
theorem total_ofList (hnodup : (rows.map key).Nodup) (w : K → V → Int) :
    (ofList (rows.map (fun row => (key row, value row)))).total w =
      (rows.map (fun row => w (key row) (value row))).sum := by
  have hkeys : ((rows.map (fun row => (key row, value row))).map Prod.fst).Nodup := by
    simpa [Function.comp_def] using hnodup
  rw [ofList, total_foldl_insert _ _ _ hkeys]
  simp [Function.comp_def]

end Rows

end SortedMap

end Lib
end VerifiableExchange
