import Mathlib.Data.UInt
import VerifiableExchange.Merkle.Stored

/-!
# Merkle agreement

The three stores, the generators and the verifiers tell one tree: the stores hold the subtrees of
the tree over the entries, the proofs read from them verify, and nothing else does short of a
collision.
-/

namespace VerifiableExchange
namespace Merkle

open Lib

variable {sha256 : Bytes → Hash} {entries : List Bytes}

/-! ## The incremental tree -/

/-- What three stores of the same entries have in common: the rows, the vectors, and a fold with the
nodes it made along the way. -/
structure Incremental (sha256 : Bytes → Hash) (entries : List Bytes) (sizes : List Nat)
    (rows : List NodeRow) (tree : MerkleTree) (made : List (Nat × Nat × Hash)) (fold : RootFold) :
    Prop where
  /-- A node is the tree hash of the entries under it. -/
  row_hash : ∀ level index, selectHash rows level index =
    if (index + 1) * 2 ^ level ≤ entries.length then
      some (treeHash sha256
        (HashTree.slice entries (index * 2 ^ level) ((index + 1) * 2 ^ level))).toList
    else none
  level_hash : ∀ level index, (tree.levels[level]?.bind fun hashes => hashes[index]?) =
    if (index + 1) * 2 ^ level ≤ entries.length then
      some (treeHash sha256
        (HashTree.slice entries (index * 2 ^ level) ((index + 1) * 2 ^ level)))
    else none
  made_hash : ∀ n ∈ made, n.2.2 = treeHash sha256
    (HashTree.slice entries (n.2.1 * 2 ^ n.1) ((n.2.1 + 1) * 2 ^ n.1))
  /-- Every full place is made exactly once. -/
  row_once : ∀ level index, (rows.map fun row => (row.level, row.idx)).count (level, index) =
    if (index + 1) * 2 ^ level ≤ entries.length then 1 else 0
  made_once : ∀ level index, (made.map fun n => (n.1, n.2.1)).count (level, index) =
    if (index + 1) * 2 ^ level ≤ entries.length then 1 else 0
  row_count : rows.length = 2 * entries.length - countOnes entries.length
  level_count : (tree.levels.map List.length).sum = 2 * entries.length - countOnes entries.length
  made_count : made.length = 2 * entries.length - countOnes entries.length
  /-- The root read back from the stored nodes, at every size the tree has had. -/
  row_root : ∀ size ≤ entries.length,
    mth sha256 (Nodes.disk rows entries.length).source size =
      .ok (treeHash sha256 (entries.take size))
  level_root : ∀ size ≤ entries.length,
    tree.rootAt sha256 size = .ok (treeHash sha256 (entries.take size))
  fold_root : ∀ size, fold.rootAt size =
    if size ∈ sizes ∧ size ≤ entries.length then some (treeHash sha256 (entries.take size)) else none

theorem perfectHash_eq (level index : Nat) :
    perfectHash sha256 entries level index = treeHash sha256
      (HashTree.slice entries (index * 2 ^ level) ((index + 1) * 2 ^ level)) := by
  rw [perfectHash, HashTree.perfect, treeHash_eq, leafHashes, leafHashes, HashTree.slice,
    HashTree.slice, List.map_drop, List.map_take]

theorem count_numbering (n level index : Nat) :
    (numbering n).count (level, index) = if (index + 1) * 2 ^ level ≤ n then 1 else 0 := by
  rw [(nodup_numbering n).count]
  simp only [mem_numbering, Full]

/-- A lookup in the vectors. -/
theorem getElem?_storedLevels (level index : Nat) :
    ((storedLevels sha256 entries)[level]?.bind fun hashes => hashes[index]?) =
      if (index + 1) * 2 ^ level ≤ entries.length then
        some (perfectHash sha256 entries level index)
      else none := by
  rw [storedLevels, getElem?_treeLevels]
  split_ifs with hlevel hfull hfull
  · have hindex := full_iff.1 hfull
    simp [List.getElem?_range hindex]
  · have hindex := mt full_iff.2 hfull
    simp [Nat.le_of_not_lt hindex]
  · -- A full place stands below the height of the tree.
    have hone : 1 * 2 ^ level ≤ (index + 1) * 2 ^ level :=
      Nat.mul_le_mul_right _ (Nat.succ_pos index)
    rw [Nat.lt_size] at hlevel
    omega
  · rfl

theorem storedRows_keys : (storedRows sha256 entries).map (fun row => (row.level, row.idx)) =
    numbering entries.length := by
  rw [storedRows, List.map_map]
  exact List.map_id _

theorem range'_flatMap (n : Nat) : (List.range' 0 n).flatMap appendedAt = numbering n := by
  rw [numbering, List.range_eq_range']

/-- Appending batch after batch to the rows, entry after entry to the vectors, and the whole history
to the fold never fails, and leaves the three with one tree. -/
theorem incremental_eq_recursive (sha256 : Bytes → Hash) (batches : List (List Bytes))
    (sizes : List Nat) :
    ∃ rows tree made fold,
      appendBatches sha256 [] 0 batches = .ok rows ∧
      MerkleTree.fromEntries sha256 batches.flatten = .ok tree ∧
      (RootFold.new sha256 sizes).pushEntries sha256 batches.flatten = .ok (made, fold) ∧
      Incremental sha256 batches.flatten sizes rows tree made fold := by
  have hrows := appendBatches_eq sha256 [] batches
  obtain ⟨fold, hfold, hwanted, hholds⟩ := (foldHolds_new sha256 sizes).pushEntries batches.flatten
  rw [List.nil_append] at hrows hfold hholds
  rw [List.length_nil, range'_flatMap] at hfold
  have hcount := length_numbering batches.flatten.length
  refine ⟨_, _, _, fold, hrows, fromEntries_eq sha256 batches.flatten, hfold, ?_⟩
  exact {
    row_hash := fun level index => by
      rw [selectHash_storedRows, perfectHash_eq]
      rfl
    level_hash := fun level index => by
      rw [getElem?_storedLevels, perfectHash_eq]
    made_hash := fun n hn => by
      obtain ⟨p, -, rfl⟩ := List.mem_map.1 hn
      exact perfectHash_eq p.1 p.2
    row_once := fun level index => by
      rw [storedRows_keys, count_numbering]
    made_once := fun level index => by
      rw [List.map_map, ← count_numbering]
      exact congrArg (List.count _) (List.map_id _)
    row_count := by
      rw [storedRows, List.length_map]
      omega
    level_count := by
      have hsum := sum_length_storedLevels sha256 batches.flatten
      change ((storedLevels sha256 batches.flatten).map List.length).sum = _
      omega
    made_count := by
      rw [List.length_map]
      omega
    row_root := fun size hsize => (holds_disk sha256 batches.flatten).mth_eq hsize
    level_root := fun size hsize => (holds_memory sha256 batches.flatten).mth_eq hsize
    fold_root := fun size => by
      rw [hholds.rootAt]
      simp only [hwanted, mem_wanted_new] }

/-! ## What is served verifies -/

theorem holds_nodes_memory (sha256 : Bytes → Hash) (entries : List Bytes) :
    Holds sha256 entries (Nodes.memory ⟨storedLevels sha256 entries⟩).source where
  size := (holds_memory sha256 entries).size
  node {level index} hfull := by
    have hnode := (holds_memory sha256 entries).node hfull
    change (Nodes.memory ⟨storedLevels sha256 entries⟩).node level index = _
    rw [Nodes.node, hnode]

/-- The proofs a store of the tree serves, and that both verifiers accept them. -/
structure Serves (sha256 : Bytes → Hash) (entries : List Bytes) (nodes : NodeSource Unreadable) :
    Prop where
  inclusion : ∀ leafIndex treeSize, leafIndex < treeSize → treeSize ≤ entries.length →
    ∃ entry p, entries[leafIndex]? = some entry ∧
      path sha256 nodes leafIndex treeSize = .ok p ∧
      verifyEntryInclusion sha256 leafIndex treeSize entry p
        (treeHash sha256 (entries.take treeSize)) = true
  consistency : ∀ first second, 0 < first → first ≤ second → second ≤ entries.length →
    ∃ p, proof sha256 nodes first second = .ok p ∧
      verifyConsistency sha256 first second (treeHash sha256 (entries.take first))
        (treeHash sha256 (entries.take second)) p = true ∧
      Anchor.verifyConsistency sha256 first second (treeHash sha256 (entries.take first))
        (treeHash sha256 (entries.take second)) p = true

theorem Holds.serves {nodes : NodeSource Unreadable} (h : Holds sha256 entries nodes) :
    Serves sha256 entries nodes where
  inclusion leafIndex treeSize hleaf hsize := by
    have hlen : (entries.take treeSize).length = treeSize := List.length_take_of_le hsize
    have hentry : entries[leafIndex]? = some entries[leafIndex] := List.getElem?_eq_getElem (by omega)
    have hverify := verifyInclusion_path sha256 (entries.take treeSize) leafIndex
      (by rw [List.getElem?_take_of_lt hleaf, hentry])
    rw [hlen] at hverify
    exact ⟨_, _, hentry, h.path_eq hleaf hsize, hverify⟩
  consistency first second hpos hle hsize := by
    have hlen : (entries.take second).length = second := List.length_take_of_le hsize
    have hverify := verifyConsistency_proof sha256 (entries.take second) hpos (by omega)
    rw [hlen, List.take_take, min_eq_left hle] at hverify
    exact ⟨_, h.proof_eq hpos hle hsize, hverify, Anchor.verifyConsistency_eq.trans hverify⟩

/-- Completeness: in the rows, however they were batched, and in the vectors, every inclusion path
and every consistency proof is found and verifies. -/
theorem served_proofs_verify (sha256 : Bytes → Hash) (batches : List (List Bytes)) :
    ∃ rows tree, appendBatches sha256 [] 0 batches = .ok rows ∧
      MerkleTree.fromEntries sha256 batches.flatten = .ok tree ∧
      Serves sha256 batches.flatten (Nodes.disk rows batches.flatten.length).source ∧
      Serves sha256 batches.flatten (Nodes.memory tree).source := by
  have hrows := appendBatches_eq sha256 [] batches
  rw [List.nil_append] at hrows
  exact ⟨_, _, hrows, fromEntries_eq sha256 batches.flatten,
    (holds_disk sha256 batches.flatten).serves, (holds_nodes_memory sha256 batches.flatten).serves⟩

/-! ## What verifies is in the tree -/

/-- Soundness: against the root of real entries a verifier accepts nothing but the leaf that is
there, or the root of the real prefix, unless its own hashing and the hashing of the tree hold two
different inputs with one hash. -/
theorem accepted_proofs_sound (sha256 : Bytes → Hash) (entries : List Bytes) :
    (∀ (leafIndex : Nat) (leaf : Hash) (p : List Hash),
      verifyInclusion sha256 leafIndex entries.length leaf p (treeHash sha256 entries) = true →
      (∃ entry, entries[leafIndex]? = some entry ∧ leaf = leafHash sha256 entry) ∨
        Collision sha256 (treeInputs sha256 entries)
          (inclusionInputs sha256 leafIndex (entries.length - 1) leaf p)) ∧
    (∀ (first : Nat) (firstHash : Hash) (p : List Hash), 0 < first → first ≤ entries.length →
      (verifyConsistency sha256 first entries.length firstHash (treeHash sha256 entries) p = true ∨
        Anchor.verifyConsistency sha256 first entries.length firstHash (treeHash sha256 entries) p =
          true) →
      firstHash = treeHash sha256 (entries.take first) ∨
        Collision sha256 (treeInputs sha256 entries)
          (consistencyHashed sha256 first entries.length firstHash p)) := by
  refine ⟨fun leafIndex leaf p h => verifyInclusion_sound h, fun first firstHash p hpos hle h => ?_⟩
  rw [Anchor.verifyConsistency_eq, or_self] at h
  exact verifyConsistency_sound hpos hle h

/-- A hash that adds up the bytes. -/
def byteSum (bytes : Bytes) : Hash := Vector.replicate 32 bytes.sum

def threeEntries : List Bytes := [[1], [2], [3]]

theorem accepted_proofs_sound_sample :
    ((∃ entry, threeEntries[2]? = some entry ∧ leafHash byteSum [3] = leafHash byteSum entry) ∨
      Collision byteSum (treeInputs byteSum threeEntries)
        (inclusionInputs byteSum 2 2 (leafHash byteSum [3])
          (HashTree.path (nodeHash byteSum) (emptyRoot byteSum) 2
            (leafHashes byteSum threeEntries)))) ∧
    (treeHash byteSum [[1], [2]] = treeHash byteSum (threeEntries.take 2) ∨
      Collision byteSum (treeInputs byteSum threeEntries)
        (consistencyHashed byteSum 2 3 (treeHash byteSum [[1], [2]])
          (HashTree.subproof (nodeHash byteSum) (emptyRoot byteSum) 2
            (leafHashes byteSum threeEntries) true))) :=
  ⟨(accepted_proofs_sound byteSum threeEntries).1 2 _ _
      (verifyInclusion_path byteSum threeEntries 2 rfl),
    (accepted_proofs_sound byteSum threeEntries).2 2 _ _ (by decide) (by decide)
      (Or.inl (verifyConsistency_proof byteSum threeEntries (by decide) (by decide)))⟩

end Merkle
end VerifiableExchange
