import Mathlib.Data.List.AList

/-!
# Window — the newest part of a growing list, and a map written once per key

A queue that drops its front when it is full holds the newest elements of everything pushed. A map
into which every key is put once holds exactly what was put.
-/

namespace VerifiableExchange
namespace Lib

variable {α K V : Type}

/-! ## The newest elements -/

/-- The last `size` elements, or all of them. -/
def newest (size : Nat) (all : List α) : List α := all.drop (all.length - size)

@[simp] theorem newest_nil (size : Nat) : newest size ([] : List α) = [] :=
  List.drop_nil

@[simp] theorem length_newest (size : Nat) (all : List α) :
    (newest size all).length = min all.length size := by
  rw [newest, List.length_drop]
  omega

/-- A full queue drops its oldest element for the new one. -/
theorem newest_concat {size : Nat} (hsize : 0 < size) (all : List α) (a : α) :
    newest size (all ++ [a]) =
      (if (newest size all).length = size then (newest size all).tail else newest size all) ++
        [a] := by
  have hlength : (all ++ [a]).length = all.length + 1 := by simp
  rw [newest, hlength]
  split_ifs with hfull
  · have hmore : all.length + 1 - size = all.length - size + 1 := by
      rw [length_newest] at hfull
      omega
    rw [newest, List.tail_drop, hmore, List.drop_append_of_le_length (by omega)]
  · have hsame : all.length + 1 - size = 0 := by
      rw [length_newest] at hfull
      omega
    have hall : all.length - size = 0 := by omega
    rw [newest, hsame, hall]
    rfl

theorem getLast?_newest {size : Nat} (hsize : 0 < size) (all : List α) :
    (newest size all).getLast? = all.getLast? := by
  rcases all.eq_nil_or_concat with rfl | ⟨front, a, rfl⟩
  · rw [newest_nil]
  · rw [List.concat_eq_append, newest_concat hsize]
    simp

theorem newest_append_of_le {size : Nat} {more : List α} (h : size ≤ more.length)
    (all : List α) : newest size (all ++ more) = newest size more := by
  have hlength : (all ++ more).length - size = all.length + (more.length - size) := by
    rw [List.length_append]
    omega
  rw [newest, hlength, ← List.drop_drop, List.drop_left]
  rfl

/-- What was dropped before does not come back. -/
theorem newest_append_newest (size : Nat) (all more : List α) :
    newest size (newest size all ++ more) = newest size (all ++ more) := by
  rcases Nat.lt_or_ge size all.length with hlong | hshort
  · have hfull : size ≤ (newest size all ++ more).length := by
      rw [List.length_append, length_newest]
      omega
    have hall : all.take (all.length - size) ++ newest size all = all := List.take_append_drop _ _
    calc
      newest size (newest size all ++ more)
        = newest size (all.take (all.length - size) ++ (newest size all ++ more)) :=
          (newest_append_of_le hfull _).symm
      _ = newest size (all ++ more) := by
          rw [← List.append_assoc, hall]
  · have hall : newest size all = all := by
      rw [newest, Nat.sub_eq_zero_of_le hshort, List.drop_zero]
    rw [hall]

theorem newest_succ_concat (size : Nat) (all : List α) (a : α) :
    newest (size + 1) (all ++ [a]) = newest size all ++ [a] := by
  have hlength : (all ++ [a]).length - (size + 1) = all.length - size := by
    rw [List.length_append, List.length_singleton]
    omega
  rw [newest, hlength, List.drop_append_of_le_length (Nat.sub_le _ _)]
  rfl

theorem newest_newest {size more : Nat} (h : size ≤ more) (all : List α) :
    newest size (newest more all) = newest size all := by
  rw [newest, length_newest, newest, List.drop_drop]
  unfold newest
  congr 1
  omega

theorem getElem?_newest (size : Nat) (all : List α) (index : Nat) :
    (newest size all)[index]? = all[all.length - size + index]? := by
  rw [newest, List.getElem?_drop]

/-! ## A map written once per key -/

/-- The keys of the uses are new, and no two uses have one key. -/
structure Fresh (known : AList fun _ : K => V) (keys : List K) : Prop where
  new : ∀ key ∈ keys, key ∉ known
  nodup : keys.Nodup

@[simp] theorem fresh_nil (known : AList fun _ : K => V) : Fresh known [] :=
  ⟨fun _ h => absurd h List.not_mem_nil, List.nodup_nil⟩

variable [DecidableEq K]

/-- Every use is put in the map. -/
def spend (known : AList fun _ : K => V) (uses : List (K × V)) : AList fun _ : K => V :=
  uses.foldl (fun known use => known.insert use.1 use.2) known

theorem fresh_cons {known : AList fun _ : K => V} {key : K} {keys : List K} (v : V) :
    Fresh known (key :: keys) ↔ key ∉ known ∧ Fresh (known.insert key v) keys := by
  constructor
  · rintro ⟨hnew, hnodup⟩
    obtain ⟨hkey, hnodup⟩ := List.nodup_cons.1 hnodup
    refine ⟨hnew key List.mem_cons_self, fun other hother => ?_, hnodup⟩
    rw [AList.mem_insert, not_or]
    refine ⟨?_, hnew other (List.mem_cons_of_mem _ hother)⟩
    rintro rfl
    exact hkey hother
  · rintro ⟨hkey, hnew, hnodup⟩
    have hrest : ∀ other ∈ keys, other ≠ key ∧ other ∉ known := fun other hother => by
      simpa only [AList.mem_insert, not_or] using hnew other hother
    refine ⟨fun other hother => ?_, List.nodup_cons.2 ⟨fun hmem => (hrest key hmem).1 rfl, hnodup⟩⟩
    rcases List.mem_cons.1 hother with rfl | hother
    · exact hkey
    · exact (hrest other hother).2

theorem spend_cons (known : AList fun _ : K => V) (use : K × V) (uses : List (K × V)) :
    spend known (use :: uses) = spend (known.insert use.1 use.2) uses := rfl

theorem spend_append (known : AList fun _ : K => V) (uses more : List (K × V)) :
    spend known (uses ++ more) = spend (spend known uses) more := List.foldl_append

/-- What is in the map afterwards: what was there, and the uses. -/
theorem lookup_spend {known : AList fun _ : K => V} {uses : List (K × V)}
    (h : Fresh known (uses.map Prod.fst)) (key : K) (v : V) :
    (spend known uses).lookup key = some v ↔ known.lookup key = some v ∨ (key, v) ∈ uses := by
  induction uses generalizing known with
  | nil => simp [spend]
  | cons use rest ih =>
      obtain ⟨hkey, hrest⟩ := (fresh_cons use.2).1 h
      have hnone : known.lookup use.1 = none := AList.lookup_eq_none.2 hkey
      rw [spend_cons, ih hrest, List.mem_cons]
      by_cases hsame : key = use.1
      · subst hsame
        have hlater : (use.1, v) ∉ rest := fun hmem =>
          (List.nodup_cons.1 h.nodup).1 (List.mem_map.2 ⟨_, hmem, rfl⟩)
        have huse : (use.1, v) = use ↔ use.2 = v := by
          rw [Prod.ext_iff]
          simp [eq_comm]
        simp [AList.lookup_insert, hnone, hlater, huse]
      · have hne : (key, v) ≠ use := fun heq => hsame (congrArg Prod.fst heq)
        simp [AList.lookup_insert_ne hsame, hne]

theorem mem_spend (known : AList fun _ : K => V) (uses : List (K × V)) (key : K) :
    key ∈ spend known uses ↔ key ∈ known ∨ key ∈ uses.map Prod.fst := by
  induction uses generalizing known with
  | nil => simp [spend]
  | cons use rest ih =>
      rw [spend_cons, ih, AList.mem_insert, List.map_cons, List.mem_cons]
      tauto

/-- Keys that are new after some uses make one list of new keys with them. -/
theorem Fresh.append {known : AList fun _ : K => V} {uses : List (K × V)} {keys : List K}
    (h : Fresh known (uses.map Prod.fst)) (hmore : Fresh (spend known uses) keys) :
    Fresh known (uses.map Prod.fst ++ keys) := by
  have hapart : ∀ key ∈ keys, key ∉ known ∧ key ∉ uses.map Prod.fst := fun key hkey => by
    have hnew := hmore.new key hkey
    rwa [mem_spend, not_or] at hnew
  refine ⟨fun key hkey => ?_, List.nodup_append'.2 ⟨h.nodup, hmore.nodup, fun key hold hnew => ?_⟩⟩
  · rcases List.mem_append.1 hkey with hold | hnew
    · exact h.new key hold
    · exact (hapart key hnew).1
  · exact (hapart key hnew).2 hold

/-- Every use takes one more place. -/
theorem length_spend {known : AList fun _ : K => V} {uses : List (K × V)}
    (h : Fresh known (uses.map Prod.fst)) :
    (spend known uses).entries.length = known.entries.length + uses.length := by
  induction uses generalizing known with
  | nil => rfl
  | cons use rest ih =>
      obtain ⟨hkey, hrest⟩ := (fresh_cons use.2).1 h
      rw [spend_cons, ih hrest, AList.insert_of_notMem hkey]
      simp only [List.length_cons]
      omega

end Lib
end VerifiableExchange
