import VerifiableExchange.Merkle.Verify

/-!
# Merkle walks

A walk over storage that holds the right perfect subtrees gives what the tree library gives for the
leaves. A root at the current size reads nothing but the right edge.
-/

namespace VerifiableExchange
namespace Merkle

open Lib

/-! ## Places -/

/-- The subtree at this place is full in a tree of `n` leaves. -/
def Full (n level index : Nat) : Prop := (index + 1) * 2 ^ level ≤ n

instance (n level index : Nat) : Decidable (Full n level index) := inferInstanceAs (Decidable (_ ≤ _))

/-- The subtree at this place is full and has no full neighbour: one place for each 1 bit of `n`. -/
def OnEdge (n level index : Nat) : Prop := index + 1 = n / 2 ^ level ∧ n / 2 ^ level % 2 = 1

theorem full_iff {n level index : Nat} : Full n level index ↔ index < n / 2 ^ level := by
  rw [Full, Nat.lt_iff_add_one_le, Nat.le_div_iff_mul_le (Nat.two_pow_pos level)]

theorem OnEdge.full {n level index : Nat} (h : OnEdge n level index) : Full n level index :=
  full_iff.2 (by rw [← h.1]; omega)

/-- The places a subtree hash reads. -/
def places (lo hi : Nat) : List (Nat × Nat) :=
  if (hi - lo).isPowerOfTwo ∧ lo % (hi - lo) = 0 then [((hi - lo).log2, lo >>> (hi - lo).log2)]
  else if _ : 2 ≤ hi - lo then
    places lo (lo + splitPoint (hi - lo)) ++ places (lo + splitPoint (hi - lo)) hi
  else []
termination_by hi - lo
decreasing_by
  · have hlt := HashTree.splitPoint_lt ‹2 ≤ hi - lo›
    simp only [splitPoint]
    omega
  · have hpos := HashTree.splitPoint_pos (hi - lo)
    simp only [splitPoint]
    omega

/-- A perfect aligned range is one place. -/
theorem aligned_place {lo hi d : Nat} (hd : hi - lo = 2 ^ d) (hlo : lo % 2 ^ d = 0) :
    (hi - lo).log2 = d ∧ lo >>> d * 2 ^ d = lo ∧ (lo >>> d + 1) * 2 ^ d = hi := by
  have hpos := Nat.two_pow_pos d
  have hback : lo / 2 ^ d * 2 ^ d = lo := Nat.div_mul_cancel (Nat.dvd_of_mod_eq_zero hlo)
  refine ⟨by rw [hd, Nat.log2_two_pow], ?_, ?_⟩
  · rw [Nat.shiftRight_eq_div_pow, hback]
  · rw [Nat.shiftRight_eq_div_pow, Nat.add_mul, hback]
    omega

/-- Only full subtrees are read. -/
theorem full_of_mem_places {n lo hi level index : Nat} (hhi : hi ≤ n)
    (h : (level, index) ∈ places lo hi) : Full n level index := by
  induction hn : hi - lo using Nat.strong_induction_on generalizing lo hi with
  | _ size ih =>
      rw [places] at h
      split_ifs at h with hpow hsize
      · obtain ⟨⟨d, hd⟩, hlo⟩ := hpow
        obtain ⟨hlog, -, hend⟩ := aligned_place hd (by rw [← hd]; exact hlo)
        rw [List.mem_singleton, hlog] at h
        cases h
        rw [Full, hend]
        exact hhi
      · have hlt := HashTree.splitPoint_lt hsize
        have hpos := HashTree.splitPoint_pos (hi - lo)
        simp only [splitPoint] at h
        rcases List.mem_append.1 h with h | h
        · exact ih _ (by omega) (by omega) h rfl
        · exact ih _ (by omega) hhi h rfl
      · cases h

/-- The walk for the whole tree reads the right edge: it starts at a multiple of a power of two that
is larger than what is left. -/
theorem onEdge_of_mem_places {n d lo level index : Nat} (hlo : 2 ^ d ∣ lo) (hlt : lo < n)
    (hleft : n - lo < 2 ^ d) (h : (level, index) ∈ places lo n) : OnEdge n level index := by
  induction hn : n - lo using Nat.strong_induction_on generalizing d lo with
  | _ size ih =>
      -- A perfect range at the start of what is left stands on the edge.
      have hedge : ∀ e rest : Nat, 2 ^ e + rest = n - lo → rest < 2 ^ e →
          OnEdge n e (lo >>> e) := by
        intro e rest hsum hrest
        have hed : e < d := (Nat.pow_lt_pow_iff_right (by decide)).1 (by omega : 2 ^ e < 2 ^ d)
        obtain ⟨c, hc⟩ := (Nat.pow_dvd_pow 2 (by omega : e + 1 ≤ d)).trans hlo
        have hpow : 2 ^ (e + 1) = 2 * 2 ^ e := Nat.pow_succ'
        have hlow : lo = 2 * c * 2 ^ e := by rw [hc, hpow]; ring
        have hnum : n = rest + (2 * c + 1) * 2 ^ e := by
          have hexp : (2 * c + 1) * 2 ^ e = 2 * c * 2 ^ e + 2 ^ e := by ring
          omega
        have hdiv : n / 2 ^ e = 2 * c + 1 := by
          rw [hnum, Nat.add_mul_div_right _ _ (Nat.two_pow_pos e), Nat.div_eq_of_lt hrest]
          omega
        have hshift : lo >>> e = 2 * c := by
          rw [Nat.shiftRight_eq_div_pow, hlow, Nat.mul_div_cancel _ (Nat.two_pow_pos e)]
        exact ⟨by rw [hshift, hdiv], by rw [hdiv]; omega⟩
      rw [places] at h
      split_ifs at h with hpow hsize
      · obtain ⟨⟨e, he⟩, hmod⟩ := hpow
        obtain ⟨hlog, -, -⟩ := aligned_place he (by rw [← he]; exact hmod)
        rw [List.mem_singleton, hlog] at h
        cases h
        exact hedge _ 0 (by omega) (Nat.two_pow_pos _)
      · obtain ⟨e, he⟩ := HashTree.exists_splitPoint (n - lo)
        have hsplit := HashTree.splitPoint_lt hsize
        have hle := HashTree.le_two_mul_splitPoint (n - lo)
        simp only [splitPoint, he] at h
        rw [he] at hsplit hle
        have hed : e < d := (Nat.pow_lt_pow_iff_right (by decide)).1 (by omega : 2 ^ e < 2 ^ d)
        have hdvd : 2 ^ e ∣ lo := (Nat.pow_dvd_pow 2 hed.le).trans hlo
        have hnext : n - (lo + 2 ^ e) < 2 ^ e := by
          by_contra hnot
          have hdouble : n - lo = 2 ^ (e + 1) := by
            rw [Nat.pow_succ']
            omega
          refine hpow ⟨⟨e + 1, hdouble⟩, ?_⟩
          rw [hdouble]
          exact Nat.mod_eq_zero_of_dvd ((Nat.pow_dvd_pow 2 (by omega)).trans hlo)
        rcases List.mem_append.1 h with h | h
        · have hleft : lo + 2 ^ e - lo = 2 ^ e := by omega
          have hmod : lo % 2 ^ e = 0 := Nat.mod_eq_zero_of_dvd hdvd
          rw [places, if_pos ⟨⟨e, hleft⟩, by rw [hleft, hmod]⟩, hleft, Nat.log2_two_pow,
            List.mem_singleton] at h
          cases h
          exact hedge _ _ (by omega) hnext
        · exact ih _ (by omega) (hdvd.add (Nat.dvd_refl _)) (by omega) hnext h rfl
      · cases h

/-! ## Walks -/

section Walks

variable {ε : Type} {sha256 : Bytes → Hash} {entries : List Bytes} {nodes : NodeSource ε}

/-- The hash of the full subtree at a place of the tree over the entries. -/
def perfectHash (sha256 : Bytes → Hash) (entries : List Bytes) (level index : Nat) : Hash :=
  HashTree.perfect (nodeHash sha256) (emptyRoot sha256) (leafHashes sha256 entries) level index

/-- Storage of a tree over the entries: it answers every place with the hash of the subtree there. -/
structure Holds (sha256 : Bytes → Hash) (entries : List Bytes) (nodes : NodeSource ε) : Prop where
  size : nodes.treeSize = entries.length
  node : ∀ {level index : Nat}, Full entries.length level index →
    nodes.node level index = .ok (perfectHash sha256 entries level index)

/-- Storage that may have let go of everything but the right edge. -/
structure HoldsEdge (sha256 : Bytes → Hash) (entries : List Bytes) (nodes : NodeSource ε) : Prop where
  size : nodes.treeSize = entries.length
  node : ∀ {level index : Nat}, OnEdge entries.length level index →
    nodes.node level index = .ok (perfectHash sha256 entries level index)

theorem Holds.holdsEdge (h : Holds sha256 entries nodes) : HoldsEdge sha256 entries nodes :=
  ⟨h.size, fun hedge => h.node hedge.full⟩

/-- A range read from storage is the hash of the leaves in it. -/
theorem subtreeHash_eq {lo hi : Nat} (hlt : lo < hi) (hhi : hi ≤ entries.length)
    (hread : ∀ level index, (level, index) ∈ places lo hi →
      nodes.node level index = .ok (perfectHash sha256 entries level index)) :
    subtreeHash sha256 nodes lo hi =
      .ok (HashTree.mth (nodeHash sha256) (emptyRoot sha256)
        (HashTree.slice (leafHashes sha256 entries) lo hi)) := by
  induction hn : hi - lo using Nat.strong_induction_on generalizing lo hi with
  | _ size ih =>
      rw [places] at hread
      rw [subtreeHash]
      split_ifs at hread ⊢ with haligned hsize
      · -- An aligned power of two is one stored node.
        obtain ⟨⟨d, hd⟩, hlo⟩ := haligned
        obtain ⟨hlog, hstart, hend⟩ := aligned_place hd (by rw [← hd]; exact hlo)
        rw [hread _ _ (List.mem_singleton_self _), hlog, perfectHash, HashTree.perfect, hstart, hend]
      · have hsplit := HashTree.splitPoint_lt hsize
        have hpos := HashTree.splitPoint_pos (hi - lo)
        simp only [splitPoint] at hread ⊢
        rw [ih _ (by omega) (by omega) (by omega)
            (fun level index h => hread _ _ (List.mem_append_left _ h)) rfl,
          ih _ (by omega) (by omega) hhi
            (fun level index h => hread _ _ (List.mem_append_right _ h)) rfl,
          HashTree.mth_slice hsize (by rw [length_leafHashes]; exact hhi)]
        rfl
      · -- A single leaf is always aligned.
        obtain rfl : hi = lo + 1 := by omega
        refine absurd ⟨⟨0, ?_⟩, ?_⟩ haligned
        · omega
        · rw [Nat.add_sub_cancel_left, Nat.mod_one]

theorem Holds.subtreeHash_eq (h : Holds sha256 entries nodes) {lo hi : Nat} (hlt : lo < hi)
    (hhi : hi ≤ entries.length) :
    subtreeHash sha256 nodes lo hi =
      .ok (HashTree.mth (nodeHash sha256) (emptyRoot sha256)
        (HashTree.slice (leafHashes sha256 entries) lo hi)) :=
  Merkle.subtreeHash_eq hlt hhi fun _ _ hmem => h.node (full_of_mem_places hhi hmem)

/-- The root of a size the tree has reached. -/
theorem Holds.mth_eq (h : Holds sha256 entries nodes) {treeSize : Nat}
    (hsize : treeSize ≤ entries.length) :
    mth sha256 nodes treeSize = .ok (treeHash sha256 (entries.take treeSize)) := by
  have hchecked : checkedSize nodes treeSize = .ok treeSize := by
    rw [checkedSize, h.size, if_neg (by omega)]
  rw [mth, hchecked, treeHash_take]
  change (if treeSize = 0 then _ else _) = _
  split_ifs with hzero
  · rw [hzero, List.take_zero, HashTree.mth_nil]
    rfl
  · rw [h.subtreeHash_eq (by omega) hsize, HashTree.slice_zero]
    rfl

/-- The root of the whole tree, from the right edge alone. -/
theorem HoldsEdge.mth_eq (h : HoldsEdge sha256 entries nodes) :
    mth sha256 nodes entries.length = .ok (treeHash sha256 entries) := by
  have hchecked : checkedSize nodes entries.length = .ok entries.length := by
    rw [checkedSize, h.size, if_neg (by omega)]
  rw [mth, hchecked]
  change (if entries.length = 0 then _ else _) = _
  split_ifs with hzero
  · rw [List.length_eq_zero_iff.1 hzero, treeHash_eq]
    change _ = Except.ok (HashTree.mth _ _ [])
    rw [HashTree.mth_nil]
    rfl
  · rw [Merkle.subtreeHash_eq (by omega) le_rfl fun _ _ hmem => h.node
      (onEdge_of_mem_places (Nat.dvd_zero _) (by omega) (by rw [Nat.sub_zero]; exact Nat.lt_two_pow_self)
        hmem), HashTree.slice_zero, ← length_leafHashes sha256 entries, List.take_length]
    rfl

theorem Holds.walkPath_eq (h : Holds sha256 entries nodes) {m lo hi : Nat} (hlt : lo < hi)
    (hhi : hi ≤ entries.length) :
    walkPath sha256 nodes m lo hi =
      .ok (HashTree.path (nodeHash sha256) (emptyRoot sha256) m
        (HashTree.slice (leafHashes sha256 entries) lo hi)) := by
  have hlen := length_leafHashes sha256 entries
  induction hn : hi - lo using Nat.strong_induction_on generalizing m lo hi with
  | _ size ih =>
      -- The leaf is on one side of the split, and the other side is one hash.
      rw [walkPath]
      split_ifs with hone hsize hside
      · rw [HashTree.path_of_length_lt (by rw [HashTree.length_slice (by omega)]; omega)]
      · have hsplit := HashTree.splitPoint_lt hsize
        have hpos := HashTree.splitPoint_pos (hi - lo)
        simp only [splitPoint] at hside ⊢
        rw [ih _ (by omega) (by omega) (by omega) rfl, h.subtreeHash_eq (by omega) hhi,
          HashTree.path_slice hsize (by omega), if_pos hside]
        rfl
      · have hsplit := HashTree.splitPoint_lt hsize
        have hpos := HashTree.splitPoint_pos (hi - lo)
        simp only [splitPoint] at hside ⊢
        rw [ih _ (by omega) (by omega) (by omega) rfl, h.subtreeHash_eq (by omega) (by omega),
          HashTree.path_slice hsize (by omega), if_neg hside]
        rfl
      · omega

/-- The inclusion path of a leaf, read from storage. -/
theorem Holds.path_eq (h : Holds sha256 entries nodes) {leafIndex treeSize : Nat}
    (hleaf : leafIndex < treeSize) (hsize : treeSize ≤ entries.length) :
    path sha256 nodes leafIndex treeSize =
      .ok (HashTree.path (nodeHash sha256) (emptyRoot sha256) leafIndex
        (leafHashes sha256 (entries.take treeSize))) := by
  have hchecked : checkedSize nodes treeSize = .ok treeSize := by
    rw [checkedSize, h.size, if_neg (by omega)]
  rw [path, hchecked, leafHashes, List.map_take]
  change (if treeSize ≤ leafIndex then _ else _) = _
  rw [if_neg (by omega), h.walkPath_eq (by omega) hsize, HashTree.slice_zero]
  rfl

theorem Holds.walkProof_eq (h : Holds sha256 entries nodes) {m lo hi : Nat} {complete : Bool}
    (hpos : 0 < m) (hm : m ≤ hi - lo) (hhi : hi ≤ entries.length) :
    walkProof sha256 nodes m lo hi complete =
      .ok (HashTree.subproof (nodeHash sha256) (emptyRoot sha256) m
        (HashTree.slice (leafHashes sha256 entries) lo hi) complete) := by
  have hlen := length_leafHashes sha256 entries
  induction hn : hi - lo using Nat.strong_induction_on generalizing m lo hi complete with
  | _ size ih =>
      -- The reader has the root of a complete subtree, and every other one is sent.
      rw [walkProof]
      split_ifs with hwhole hcomplete hsize hside
      · rw [HashTree.subproof_whole (by rw [HashTree.length_slice (by omega)]; omega), hcomplete]
        rfl
      · rw [h.subtreeHash_eq (by omega) hhi,
          HashTree.subproof_whole (by rw [HashTree.length_slice (by omega)]; omega),
          if_neg hcomplete]
        rfl
      · have hsplit := HashTree.splitPoint_lt hsize
        have hpoint := HashTree.splitPoint_pos (hi - lo)
        simp only [splitPoint] at hside ⊢
        rw [ih _ (by omega) hpos (by omega) (by omega) rfl, h.subtreeHash_eq (by omega) hhi,
          HashTree.subproof_slice hsize (by omega) (by omega), if_pos hside]
        rfl
      · have hsplit := HashTree.splitPoint_lt hsize
        have hpoint := HashTree.splitPoint_pos (hi - lo)
        simp only [splitPoint] at hside ⊢
        rw [ih _ (by omega) (by omega) (by omega) hhi rfl, h.subtreeHash_eq (by omega) (by omega),
          HashTree.subproof_slice hsize (by omega) (by omega), if_neg hside]
        rfl
      · omega

/-- The consistency proof between two sizes, read from storage. -/
theorem Holds.proof_eq (h : Holds sha256 entries nodes) {first second : Nat} (hpos : 0 < first)
    (hle : first ≤ second) (hsize : second ≤ entries.length) :
    proof sha256 nodes first second =
      .ok (HashTree.subproof (nodeHash sha256) (emptyRoot sha256) first
        (leafHashes sha256 (entries.take second)) true) := by
  have hchecked : checkedSize nodes second = .ok second := by
    rw [checkedSize, h.size, if_neg (by omega)]
  have hlen : (leafHashes sha256 (entries.take second)).length = second := by
    rw [length_leafHashes, List.length_take_of_le hsize]
  rw [proof, hchecked]
  change (if second < first then _ else _) = _
  rw [if_neg (by omega)]
  split_ifs with hsame
  · rw [HashTree.subproof_whole (by omega)]
    rfl
  · rw [h.walkProof_eq hpos (by omega) hsize, HashTree.slice_zero, leafHashes, leafHashes,
      List.map_take]
    rfl

end Walks

end Merkle
end VerifiableExchange
