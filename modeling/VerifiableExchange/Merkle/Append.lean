import VerifiableExchange.Merkle.Storage
import VerifiableExchange.Merkle.Walks

/-!
# Merkle appends

Which nodes an append makes, and that they are the right ones whatever storage they are made from:
every node in memory, the rows of the database, or the right edge alone.
-/

namespace VerifiableExchange
namespace Merkle

open Lib

/-! ## The numbering -/

/-- A parent stands above the level, over as many nodes as there are. -/
theorem mem_parentsAt {level count l i : Nat} (hpos : 0 < count) :
    (l, i) ∈ parentsAt level count ↔ level < l ∧ (i + 1) * 2 ^ (l - level) = count := by
  induction count using Nat.strong_induction_on generalizing level with
  | _ count ih =>
      rw [parentsAt]
      split_ifs with heven
      · rw [List.mem_cons, ih (count / 2) (by omega) (by omega), Prod.mk.injEq]
        constructor
        · rintro (⟨rfl, rfl⟩ | ⟨hlt, hcount⟩)
          · rw [Nat.add_sub_cancel_left]
            omega
          · have hstep : 2 ^ (l - level) = 2 * 2 ^ (l - (level + 1)) := by
              rw [← Nat.pow_succ']
              congr 1
              omega
            refine ⟨by omega, ?_⟩
            rw [hstep, Nat.mul_left_comm, hcount]
            omega
        · rintro ⟨hlt, hcount⟩
          rcases Nat.eq_or_lt_of_le (Nat.succ_le_of_lt hlt) with rfl | hlt
          · rw [Nat.succ_eq_add_one, Nat.add_sub_cancel_left] at hcount
            exact Or.inl ⟨rfl, by omega⟩
          · have hstep : 2 ^ (l - level) = 2 * 2 ^ (l - (level + 1)) := by
              rw [← Nat.pow_succ']
              congr 1
              omega
            rw [hstep, Nat.mul_left_comm] at hcount
            exact Or.inr ⟨hlt, by omega⟩
      · simp only [List.not_mem_nil, false_iff]
        rintro ⟨hlt, hcount⟩
        have hstep : 2 ^ (l - level) = 2 * 2 ^ (l - (level + 1)) := by
          rw [← Nat.pow_succ']
          congr 1
          omega
        rw [hstep, Nat.mul_left_comm] at hcount
        omega

/-- A leaf makes the nodes it is the last leaf under. -/
theorem mem_appendedAt {leafIndex l i : Nat} :
    (l, i) ∈ appendedAt leafIndex ↔ (i + 1) * 2 ^ l = leafIndex + 1 := by
  rw [appendedAt, List.mem_cons, mem_parentsAt (Nat.succ_pos _), Prod.mk.injEq, Nat.sub_zero]
  constructor
  · rintro (⟨rfl, rfl⟩ | ⟨-, h⟩)
    · rw [Nat.pow_zero, Nat.mul_one]
    · exact h
  · intro h
    rcases Nat.eq_zero_or_pos l with rfl | hpos
    · rw [Nat.pow_zero, Nat.mul_one] at h
      exact Or.inl ⟨rfl, by omega⟩
    · exact Or.inr ⟨hpos, h⟩

theorem pairwise_parentsAt (level count : Nat) :
    ((level, count) :: parentsAt level count).Pairwise (fun a b => a.1 < b.1) := by
  induction count using Nat.strong_induction_on generalizing level with
  | _ count ih =>
      rw [parentsAt]
      split_ifs with heven
      · have hrest := ih (count / 2) (by omega) (level + 1)
        rw [List.pairwise_cons] at hrest
        refine List.Pairwise.cons ?_ (List.Pairwise.cons hrest.1 hrest.2)
        intro b hb
        rcases List.mem_cons.1 hb with rfl | hb
        · exact Nat.lt_succ_self _
        · exact (Nat.lt_succ_self level).trans (hrest.1 b hb)
      · exact List.pairwise_singleton _ _

theorem pairwise_appendedAt (leafIndex : Nat) :
    (appendedAt leafIndex).Pairwise (fun a b => a.1 < b.1) := by
  have h := pairwise_parentsAt 0 (leafIndex + 1)
  rw [List.pairwise_cons] at h
  exact List.Pairwise.cons h.1 h.2

theorem nodup_appendedAt (leafIndex : Nat) : (appendedAt leafIndex).Nodup :=
  (pairwise_appendedAt leafIndex).imp fun hlt heq => by
    rw [heq] at hlt
    exact lt_irrefl _ hlt

/-- Every place of a tree of `n` leaves, in the order the appends make them. -/
def numbering (n : Nat) : List (Nat × Nat) := (List.range n).flatMap appendedAt

theorem numbering_succ (n : Nat) : numbering (n + 1) = numbering n ++ appendedAt n := by
  rw [numbering, List.range_succ, List.flatMap_append]
  simp [numbering]

/-- The places made are the full ones. -/
theorem mem_numbering {n l i : Nat} : (l, i) ∈ numbering n ↔ Full n l i := by
  rw [numbering, List.mem_flatMap, Full]
  constructor
  · rintro ⟨leaf, hleaf, hmem⟩
    rw [mem_appendedAt.1 hmem]
    exact List.mem_range.1 hleaf
  · intro h
    have hpos : 0 < (i + 1) * 2 ^ l := Nat.mul_pos (Nat.succ_pos i) (Nat.two_pow_pos l)
    refine ⟨(i + 1) * 2 ^ l - 1, List.mem_range.2 (by omega), mem_appendedAt.2 (by omega)⟩

/-- No place is made twice. -/
theorem nodup_numbering (n : Nat) : (numbering n).Nodup := by
  induction n with
  | zero => exact List.nodup_nil
  | succ n ih =>
      rw [numbering_succ]
      refine ih.append (nodup_appendedAt n) ?_
      rintro ⟨l, i⟩ hold hnew
      have hfull : Full n l i := mem_numbering.1 hold
      have hplace := mem_appendedAt.1 hnew
      rw [Full] at hfull
      omega

theorem length_parentsAt (level level' count : Nat) :
    (parentsAt level count).length = (parentsAt level' count).length := by
  induction count using Nat.strong_induction_on generalizing level level' with
  | _ count ih =>
      rw [parentsAt.eq_def level count, parentsAt.eq_def level' count]
      split_ifs with heven
      · rw [List.length_cons, List.length_cons, ih (count / 2) (by omega) (level + 1) (level' + 1)]
      · rfl

/-- Counting up by one makes one node for each 1 bit it clears, and the leaf. -/
theorem countOnes_succ (n : Nat) :
    countOnes (n + 1) + (parentsAt 0 (n + 1)).length = countOnes n + 1 := by
  induction n using Nat.strong_induction_on with
  | _ n ih =>
      rcases Nat.mod_two_eq_zero_or_one n with heven | hodd
      · have hhalf : (n + 1) / 2 = n / 2 := by omega
        rw [parentsAt, dif_neg (by omega), countOnes, if_neg (by omega), hhalf]
        by_cases hzero : n = 0
        · subst hzero
          simp [countOnes]
        · conv => rhs; rw [countOnes]
          rw [if_neg hzero, List.length_nil]
          omega
      · have hhalf : (n + 1) / 2 = n / 2 + 1 := by omega
        have hrec := ih (n / 2) (by omega)
        rw [parentsAt, dif_pos (by omega), List.length_cons, length_parentsAt _ 0, countOnes,
          if_neg (by omega), hhalf]
        conv => rhs; rw [countOnes]
        rw [if_neg (by omega)]
        omega

/-- How many nodes a tree of `n` leaves holds. -/
theorem length_numbering (n : Nat) : (numbering n).length + countOnes n = 2 * n := by
  induction n with
  | zero => simp [numbering, countOnes]
  | succ n ih =>
      have hones := countOnes_succ n
      rw [numbering_succ, List.length_append, appendedAt, List.length_cons]
      omega

/-- What a reader counts with is the number of nodes, while it fits 64 bits. -/
theorem nodesIn_eq {n : Nat} (hn : 2 * n < 2 ^ 64) : nodesIn n = (numbering n).length := by
  have hlength := length_numbering n
  rw [nodesIn, Nat.mod_eq_of_lt (by omega)]
  omega

/-- The number of nodes at a level, before and after the leaf that fills the last of them. -/
theorem div_of_count {n level count : Nat} (hcount : count * 2 ^ level = n + 1) :
    n / 2 ^ level = count - 1 ∧ (n + 1) / 2 ^ level = count := by
  have htwo := Nat.two_pow_pos level
  have hpos : 0 < count := by
    rcases Nat.eq_zero_or_pos count with rfl | hpos
    · rw [Nat.zero_mul] at hcount
      omega
    · exact hpos
  have hsum : (count - 1) * 2 ^ level + 2 ^ level = count * 2 ^ level := by
    rw [← Nat.succ_mul, Nat.succ_eq_add_one, Nat.sub_add_cancel hpos]
  have hlen : n = (2 ^ level - 1) + (count - 1) * 2 ^ level := by omega
  refine ⟨?_, ?_⟩
  · rw [hlen, Nat.add_mul_div_right _ _ htwo, Nat.div_eq_of_lt (by omega), Nat.zero_add]
  · rw [← hcount, Nat.mul_div_cancel _ htwo]

/-- Above the level where the count is odd, the leaf fills nothing. -/
theorem div_above {n level count l : Nat} (hcount : count * 2 ^ level = n + 1)
    (hodd : count % 2 = 1) (hl : level < l) : (n + 1) / 2 ^ l = n / 2 ^ l := by
  obtain ⟨hbefore, hafter⟩ := div_of_count hcount
  obtain ⟨k, rfl⟩ := Nat.exists_eq_add_of_lt hl
  have hpow : 2 ^ (level + k + 1) = 2 ^ level * (2 * 2 ^ k) := by ring
  have hhalf : count / 2 = (count - 1) / 2 := by omega
  calc
    (n + 1) / 2 ^ (level + k + 1)
      = (n + 1) / 2 ^ level / 2 / 2 ^ k := by
        rw [hpow, Nat.div_div_eq_div_mul, Nat.div_div_eq_div_mul]
    _ = n / 2 ^ level / 2 / 2 ^ k := by rw [hafter, hbefore, hhalf]
    _ = n / 2 ^ (level + k + 1) := by
        rw [hpow, Nat.div_div_eq_div_mul, Nat.div_div_eq_div_mul]

/-- The last node an append makes is the only one it leaves on the edge. -/
theorem getLast?_appendedAt (n : Nat) : ∃ level count, count * 2 ^ level = n + 1 ∧ count % 2 = 1 ∧
    (appendedAt n).getLast? = some (level, count - 1) := by
  have hlast : ∀ count level : Nat, count * 2 ^ level = n + 1 →
      ∃ top c, c * 2 ^ top = n + 1 ∧ c % 2 = 1 ∧
        ((level, count - 1) :: parentsAt level count).getLast? = some (top, c - 1) := by
    intro count
    induction count using Nat.strong_induction_on with
    | _ count ih =>
        intro level hcount
        by_cases heven : count % 2 = 0 ∧ 0 < count
        · have hback : count / 2 * 2 = count := by omega
          have hhalf : count / 2 * 2 ^ (level + 1) = n + 1 := by
            rw [Nat.pow_succ', ← Nat.mul_assoc, hback, hcount]
          obtain ⟨top, c, htop, hodd, hget⟩ := ih (count / 2) (by omega) (level + 1) hhalf
          refine ⟨top, c, htop, hodd, ?_⟩
          rw [parentsAt, dif_pos heven, List.getLast?_cons_cons, hget]
        · have hpos : 0 < count := by
            rcases Nat.eq_zero_or_pos count with rfl | hpos
            · rw [Nat.zero_mul] at hcount
              omega
            · exact hpos
          refine ⟨level, count, hcount, by omega, ?_⟩
          rw [parentsAt, dif_neg heven]
          rfl
  obtain ⟨top, c, htop, hodd, hget⟩ := hlast (n + 1) 0 (by rw [Nat.pow_zero, Nat.mul_one])
  exact ⟨top, c, htop, hodd, hget⟩

/-- The edge after an append: what stood above the node it ends with, and that node. -/
theorem onEdge_succ {n level count l i : Nat} (hcount : count * 2 ^ level = n + 1)
    (hodd : count % 2 = 1) :
    OnEdge (n + 1) l i ↔ (l = level ∧ i = count - 1) ∨ (level < l ∧ OnEdge n l i) := by
  obtain ⟨-, hafter⟩ := div_of_count hcount
  rcases Nat.lt_trichotomy l level with hl | rfl | hl
  · -- Below, the number of nodes is even.
    have heven : (n + 1) / 2 ^ l % 2 = 0 := by
      obtain ⟨k, rfl⟩ := Nat.exists_eq_add_of_lt hl
      have hpow : count * 2 ^ (l + k + 1) = 2 * (count * 2 ^ k) * 2 ^ l := by ring
      rw [← hcount, hpow, Nat.mul_div_cancel _ (Nat.two_pow_pos l), Nat.mul_mod_right]
    rw [OnEdge, heven]
    omega
  · rw [OnEdge, hafter]
    omega
  · rw [OnEdge, OnEdge, div_above hcount hodd hl]
    omega

/-! ## What one append makes -/

section Append

variable {ε : Type} {sha256 : Bytes → Hash} {entries : List Bytes} {nodes : NodeSource ε}

theorem leafHashes_append (entries' : List Bytes) :
    leafHashes sha256 (entries ++ entries') =
      leafHashes sha256 entries ++ leafHashes sha256 entries' := List.map_append

/-- A full subtree keeps its hash. -/
theorem perfectHash_append {level index : Nat} (h : Full entries.length level index)
    (entries' : List Bytes) :
    perfectHash sha256 (entries ++ entries') level index = perfectHash sha256 entries level index := by
  rw [perfectHash, leafHashes_append, HashTree.perfect_append (by rw [length_leafHashes]; exact h)]
  rfl

theorem perfectHash_leaf (entry : Bytes) :
    perfectHash sha256 (entries ++ [entry]) 0 entries.length = leafHash sha256 entry := by
  refine HashTree.perfect_zero ?_
  rw [leafHashes_append, List.getElem?_append_right (by rw [length_leafHashes]), length_leafHashes,
    Nat.sub_self]
  rfl

/-- The nodes above the leaf: at each level the right child has just been made, and the left child
stood on the edge. -/
theorem appendParents_eq (entry : Bytes) (hnodes : HoldsEdge sha256 entries nodes)
    (level count : Nat) (hcount : count * 2 ^ level = entries.length + 1)
    (made : List (Nat × Nat × Hash)) (hbelow : ∀ n ∈ made, n.1 < level) :
    appendParents sha256 nodes (parentsAt level count) count
        (made ++ [(level, count - 1, perfectHash sha256 (entries ++ [entry]) level (count - 1))]) =
      .ok (made ++ ((level, count - 1) :: parentsAt level count).map
        (fun p => (p.1, p.2, perfectHash sha256 (entries ++ [entry]) p.1 p.2))) := by
  induction count using Nat.strong_induction_on generalizing level made with
  | _ count ih =>
      have hpos : 0 < count := by
        rcases Nat.eq_zero_or_pos count with rfl | hpos
        · rw [Nat.zero_mul] at hcount
          omega
        · exact hpos
      rw [parentsAt]
      split_ifs with heven
      · -- The left sibling was stored before; nothing at this level was made above it.
        have hleft : madeOrStored nodes
            (made ++ [(level, count - 1, perfectHash sha256 (entries ++ [entry]) level (count - 1))])
            level (count - 2) = .ok (perfectHash sha256 (entries ++ [entry]) level (count - 2)) := by
          have hdiv := (div_of_count hcount).1
          have hedge : OnEdge entries.length level (count - 2) :=
            ⟨by rw [hdiv]; omega, by rw [hdiv]; omega⟩
          have hold : made.reverse.find?
              (fun n => decide (n.1 = level ∧ n.2.1 = count - 2)) = none := by
            rw [List.find?_eq_none]
            intro n hn
            have hlt := hbelow n (List.mem_reverse.1 hn)
            simp only [decide_eq_true_eq]
            omega
          rw [madeOrStored, List.reverse_append, List.reverse_singleton, List.singleton_append,
            List.find?_cons_of_neg (by simp only [decide_eq_true_eq]; omega), hold,
            perfectHash_append hedge.full]
          exact hnodes.node hedge
        -- The right sibling is the node made last.
        have hright : madeOrStored nodes
            (made ++ [(level, count - 1, perfectHash sha256 (entries ++ [entry]) level (count - 1))])
            level (count - 1) = .ok (perfectHash sha256 (entries ++ [entry]) level (count - 1)) := by
          rw [madeOrStored, List.reverse_append, List.reverse_singleton, List.singleton_append,
            List.find?_cons_of_pos (by simp)]
        have hjoin : nodeHash sha256 (perfectHash sha256 (entries ++ [entry]) level (count - 2))
            (perfectHash sha256 (entries ++ [entry]) level (count - 1)) =
              perfectHash sha256 (entries ++ [entry]) (level + 1) (count / 2 - 1) := by
          have hfull : (count / 2 - 1 + 1) * 2 ^ (level + 1) ≤
              (leafHashes sha256 (entries ++ [entry])).length := by
            have hdouble : (count / 2 - 1 + 1) * 2 ^ (level + 1) = count / 2 * 2 * 2 ^ level := by
              rw [Nat.sub_add_cancel (by omega), Nat.pow_succ']
              ring
            have hback : count / 2 * 2 = count := by omega
            rw [hdouble, hback, length_leafHashes, hcount, List.length_append]
            rfl
          have hlow : 2 * (count / 2 - 1) = count - 2 := by omega
          have hhigh : count - 2 + 1 = count - 1 := by omega
          rw [perfectHash, perfectHash, perfectHash, HashTree.perfect_succ hfull, hlow, hhigh]
        -- Half the nodes one level up, over the same leaves.
        have hhalf : count / 2 * 2 ^ (level + 1) = entries.length + 1 := by
          have hback : count / 2 * 2 = count := by omega
          rw [Nat.pow_succ', ← Nat.mul_assoc, hback, hcount]
        have hbelow' : ∀ n ∈ made ++ [(level, count - 1,
            perfectHash sha256 (entries ++ [entry]) level (count - 1))], n.1 < level + 1 := by
          intro n hn
          rcases List.mem_append.1 hn with hn | hn
          · exact (hbelow n hn).trans (Nat.lt_succ_self level)
          · rw [List.mem_singleton.1 hn]
            exact Nat.lt_succ_self level
        rw [appendParents, Nat.add_sub_cancel, hleft, hright]
        change appendParents sha256 nodes (parentsAt (level + 1) (count / 2)) (count / 2) _ = _
        rw [hjoin, ih (count / 2) (by omega) (level + 1) hhalf _ hbelow', List.append_assoc]
        rfl
      · rfl

/-- An append over the right edge makes the hash of every subtree its leaf fills. -/
theorem appendNodes_eq (hnodes : HoldsEdge sha256 entries nodes) (entry : Bytes) :
    appendNodes sha256 nodes (leafHash sha256 entry) =
      .ok ((appendedAt entries.length).map
        (fun p => (p.1, p.2, perfectHash sha256 (entries ++ [entry]) p.1 p.2))) := by
  have h := appendParents_eq entry hnodes 0 (entries.length + 1)
    (by rw [Nat.pow_zero, Nat.mul_one]) [] (fun n hn => nomatch hn)
  rw [Nat.add_sub_cancel, perfectHash_leaf, List.nil_append, List.nil_append] at h
  rw [appendNodes, hnodes.size]
  exact h

end Append

end Merkle
end VerifiableExchange
