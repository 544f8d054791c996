import VerifiableExchange.Merkle.Source

/-!
# Merkle verifiers

The two verifiers of the exchange, and the consistency verifier of the anchor sender, which is a
second transcription of the same steps. Each loop is shown to be the climb of the tree library.
-/

namespace VerifiableExchange
namespace Merkle

open Lib

variable (sha256 : Bytes → Hash)

/-! ## The loops -/

/-- Step 4(b)(ii): out of the right edge, where the subtree is not full. -/
def climbEdge (fnode snode : Nat) : Nat × Nat :=
  if _ : fnode % 2 = 0 ∧ fnode ≠ 0 then climbEdge (fnode / 2) (snode / 2) else (fnode, snode)
termination_by fnode

/-- Step 4 of the consistency check: out of the first tree's own right edge. -/
def climbFirst (fnode snode : Nat) : Nat × Nat :=
  if _ : fnode % 2 = 1 then climbFirst (fnode / 2) (snode / 2) else (fnode, snode)
termination_by fnode

def inclusionLoop (rootHash : Hash) : Nat → Nat → Hash → List Hash → Bool
  | _, snode, r, [] => snode == 0 && r == rootHash
  | fnode, snode, r, p :: rest =>
      if snode = 0 then false
      else if fnode % 2 = 1 ∨ fnode = snode then
        let (fnode, snode) := climbEdge fnode snode
        inclusionLoop rootHash (fnode / 2) (snode / 2) (nodeHash sha256 p r) rest
      else inclusionLoop rootHash (fnode / 2) (snode / 2) (nodeHash sha256 r p) rest

/-- What the inclusion loop hashes. -/
def inclusionInputs : Nat → Nat → Hash → List Hash → List Bytes
  | _, _, _, [] => []
  | fnode, snode, r, p :: rest =>
      if snode = 0 then []
      else if fnode % 2 = 1 ∨ fnode = snode then
        let (fnode, snode) := climbEdge fnode snode
        nodeInput p r :: inclusionInputs (fnode / 2) (snode / 2) (nodeHash sha256 p r) rest
      else nodeInput r p :: inclusionInputs (fnode / 2) (snode / 2) (nodeHash sha256 r p) rest

/-- `verify_inclusion`. -/
def verifyInclusion (leafIndex treeSize : Nat) (leafHash : Hash) (inclusionPath : List Hash)
    (rootHash : Hash) : Bool :=
  if treeSize ≤ leafIndex then false
  else inclusionLoop sha256 rootHash leafIndex (treeSize - 1) leafHash inclusionPath

/-- `verify_entry_inclusion`. -/
def verifyEntryInclusion (leafIndex treeSize : Nat) (entry : Bytes) (inclusionPath : List Hash)
    (rootHash : Hash) : Bool :=
  verifyInclusion sha256 leafIndex treeSize (leafHash sha256 entry) inclusionPath rootHash

def consistencyLoop (firstHash secondHash : Hash) : Nat → Nat → Hash → Hash → List Hash → Bool
  | _, snode, fr, sr, [] => snode == 0 && fr == firstHash && sr == secondHash
  | fnode, snode, fr, sr, c :: rest =>
      if snode = 0 then false
      else if fnode % 2 = 1 ∨ fnode = snode then
        let (fnode, snode) := climbEdge fnode snode
        consistencyLoop firstHash secondHash (fnode / 2) (snode / 2) (nodeHash sha256 c fr)
          (nodeHash sha256 c sr) rest
      else
        consistencyLoop firstHash secondHash (fnode / 2) (snode / 2) fr (nodeHash sha256 sr c) rest

/-- What the consistency loop hashes. -/
def consistencyInputs : Nat → Nat → Hash → Hash → List Hash → List Bytes
  | _, _, _, _, [] => []
  | fnode, snode, fr, sr, c :: rest =>
      if snode = 0 then []
      else if fnode % 2 = 1 ∨ fnode = snode then
        let (fnode, snode) := climbEdge fnode snode
        nodeInput c fr :: nodeInput c sr ::
          consistencyInputs (fnode / 2) (snode / 2) (nodeHash sha256 c fr) (nodeHash sha256 c sr) rest
      else
        nodeInput sr c :: consistencyInputs (fnode / 2) (snode / 2) fr (nodeHash sha256 sr c) rest

/-- The path with the first root before it, where the first tree is a whole subtree. -/
def fullPath (first : Nat) (firstHash : Hash) (consistencyPath : List Hash) : List Hash :=
  (if first.isPowerOfTwo then [firstHash] else []) ++ consistencyPath

/-- `verify_consistency`. -/
def verifyConsistency (first second : Nat) (firstHash secondHash : Hash)
    (consistencyPath : List Hash) : Bool :=
  if second < first then false
  else if first = 0 then consistencyPath.isEmpty && firstHash == emptyRoot sha256
  else if first = second then consistencyPath.isEmpty && firstHash == secondHash
  else if consistencyPath.isEmpty then false
  else
    match fullPath first firstHash consistencyPath with
    | [] => false
    | seed :: rest =>
        let (fnode, snode) := climbFirst (first - 1) (second - 1)
        consistencyLoop sha256 firstHash secondHash fnode snode seed seed rest

/-- What `verify_consistency` hashes. -/
def consistencyHashed (first second : Nat) (firstHash : Hash) (consistencyPath : List Hash) :
    List Bytes :=
  match fullPath first firstHash consistencyPath with
  | [] => []
  | seed :: rest =>
      let (fnode, snode) := climbFirst (first - 1) (second - 1)
      consistencyInputs sha256 fnode snode seed seed rest

namespace Anchor

/-- The sender's inner loop over both climbs. -/
def rebuild (firstHash secondHash : Hash) : List Hash → Nat → Nat → Hash → Hash → Bool
  | [], _, snode, fr, sr => snode == 0 && fr == firstHash && sr == secondHash
  | c :: rest, fnode, snode, fr, sr =>
      if snode = 0 then false
      else if fnode &&& 1 = 1 ∨ fnode = snode then
        let (fnode, snode) := climbEdge fnode snode
        rebuild firstHash secondHash rest (fnode >>> 1) (snode >>> 1) (nodeHash sha256 c fr)
          (nodeHash sha256 c sr)
      else rebuild firstHash secondHash rest (fnode >>> 1) (snode >>> 1) fr (nodeHash sha256 sr c)

/-- The sender's `verifyConsistency`: a power of two has no bit in common with its predecessor. -/
def verifyConsistency (first second : Nat) (firstHash secondHash : Hash) (path : List Hash) : Bool :=
  if first > second then false
  else if first = 0 then path.length == 0 && firstHash == emptyRoot sha256
  else if first = second then path.length == 0 && firstHash == secondHash
  else if path.length = 0 then false
  else
    match (if first &&& (first - 1) = 0 then firstHash :: path else path) with
    | [] => false
    | seed :: rest =>
        let (fnode, snode) := climbFirst (first - 1) (second - 1)
        rebuild sha256 firstHash secondHash rest fnode snode seed seed

end Anchor

/-! ## The loops are climbs -/

theorem climbEdge_half {fnode snode : Nat} (heven : fnode % 2 = 0) (hne : fnode ≠ 0) :
    climbEdge fnode snode = climbEdge (fnode / 2) (snode / 2) := by
  conv => lhs; rw [climbEdge]
  rw [dif_pos ⟨heven, hne⟩]

theorem climbEdge_odd {fnode snode : Nat} (hodd : fnode % 2 = 1) :
    climbEdge fnode snode = (fnode, snode) := by
  rw [climbEdge, dif_neg (by omega)]

section Loops

variable {sha256 : Bytes → Hash}

/-- On the right edge the loop does what it does one level up. -/
theorem inclusionLoop_edge {rootHash r : Hash} {node : Nat} {p : List Hash} (heven : node % 2 = 0)
    (hne : node ≠ 0) :
    inclusionLoop sha256 rootHash node node r p =
      inclusionLoop sha256 rootHash (node / 2) (node / 2) r p := by
  cases p with
  | nil =>
      have hhalf : (node / 2 == 0) = (node == 0) := by
        rw [Bool.eq_iff_iff, beq_iff_eq, beq_iff_eq]
        omega
      simp only [inclusionLoop, hhalf]
  | cons c rest =>
      simp only [inclusionLoop]
      rw [if_neg hne, if_neg (by omega : node / 2 ≠ 0), if_pos (Or.inr trivial),
        if_pos (Or.inr trivial), climbEdge_half heven hne]

theorem inclusionLoop_eq_climb {rootHash r : Hash} {fnode snode : Nat} {p : List Hash}
    (hle : fnode ≤ snode) :
    inclusionLoop sha256 rootHash fnode snode r p =
      (HashTree.climb (nodeHash sha256) (nodeHash sha256) fnode snode r p == some rootHash) := by
  induction snode using Nat.strong_induction_on generalizing fnode r p with
  | _ snode ih =>
      by_cases hzero : snode = 0
      · subst hzero
        cases p with
        | nil => simp [inclusionLoop]
        | cons c rest => simp [inclusionLoop]
      -- A right node takes the next hash on its left; a left one on its right, or none at the edge.
      by_cases hodd : fnode % 2 = 1
      · cases p with
        | nil =>
            rw [HashTree.climb_nil hzero (Or.inl hodd)]
            simp [inclusionLoop, hzero]
        | cons c rest =>
            rw [HashTree.climb_odd hzero hodd, ← ih (snode / 2) (by omega) (by omega), inclusionLoop,
              if_neg hzero, if_pos (Or.inl hodd), climbEdge_odd hodd]
      · have heven : fnode % 2 = 0 := by omega
        rcases Nat.lt_or_ge fnode snode with hlt | hge
        · cases p with
          | nil =>
              rw [HashTree.climb_nil hzero (Or.inr hlt)]
              simp [inclusionLoop, hzero]
          | cons c rest =>
              rw [HashTree.climb_even heven hlt, ← ih (snode / 2) (by omega) (by omega),
                inclusionLoop, if_neg hzero, if_neg (by omega)]
        · obtain rfl : fnode = snode := by omega
          rw [HashTree.climb_last hzero heven hge, inclusionLoop_edge heven hzero,
            ih (fnode / 2) (by omega) le_rfl]

theorem consistencyLoop_edge {firstHash secondHash fr sr : Hash} {node : Nat} {p : List Hash}
    (heven : node % 2 = 0) (hne : node ≠ 0) :
    consistencyLoop sha256 firstHash secondHash node node fr sr p =
      consistencyLoop sha256 firstHash secondHash (node / 2) (node / 2) fr sr p := by
  cases p with
  | nil =>
      have hhalf : (node / 2 == 0) = (node == 0) := by
        rw [Bool.eq_iff_iff, beq_iff_eq, beq_iff_eq]
        omega
      simp only [consistencyLoop, hhalf]
  | cons c rest =>
      simp only [consistencyLoop]
      rw [if_neg hne, if_neg (by omega : node / 2 ≠ 0), if_pos (Or.inr trivial),
        if_pos (Or.inr trivial), climbEdge_half heven hne]

/-- One loop, two climbs: the old root takes what stands on the left, the new root takes both. -/
theorem consistencyLoop_eq_climb {firstHash secondHash fr sr : Hash} {fnode snode : Nat}
    {p : List Hash} (hle : fnode ≤ snode) :
    consistencyLoop sha256 firstHash secondHash fnode snode fr sr p =
      (HashTree.climb (nodeHash sha256) (fun r _ => r) fnode snode fr p == some firstHash &&
        HashTree.climb (nodeHash sha256) (nodeHash sha256) fnode snode sr p == some secondHash) := by
  induction snode using Nat.strong_induction_on generalizing fnode fr sr p with
  | _ snode ih =>
      by_cases hzero : snode = 0
      · subst hzero
        cases p with
        | nil => simp [consistencyLoop]
        | cons c rest => simp [consistencyLoop]
      -- Both roots are climbed at once, and the smaller tree ignores what stands on its right.
      by_cases hodd : fnode % 2 = 1
      · cases p with
        | nil =>
            rw [HashTree.climb_nil hzero (Or.inl hodd)]
            simp [consistencyLoop, hzero]
        | cons c rest =>
            rw [HashTree.climb_odd hzero hodd, HashTree.climb_odd hzero hodd,
              ← ih (snode / 2) (by omega) (by omega), consistencyLoop,
              if_neg hzero, if_pos (Or.inl hodd), climbEdge_odd hodd]
      · have heven : fnode % 2 = 0 := by omega
        rcases Nat.lt_or_ge fnode snode with hlt | hge
        · cases p with
          | nil =>
              rw [HashTree.climb_nil hzero (Or.inr hlt)]
              simp [consistencyLoop, hzero]
          | cons c rest =>
              rw [HashTree.climb_even heven hlt, HashTree.climb_even heven hlt,
                ← ih (snode / 2) (by omega) (by omega), consistencyLoop, if_neg hzero,
                if_neg (by omega)]
        · obtain rfl : fnode = snode := by omega
          rw [HashTree.climb_last hzero heven hge, HashTree.climb_last hzero heven hge,
            consistencyLoop_edge heven hzero, ih (fnode / 2) (by omega) le_rfl]

theorem rebuild_eq {firstHash secondHash : Hash} :
    ∀ (p : List Hash) {fnode snode : Nat} {fr sr : Hash},
      Anchor.rebuild sha256 firstHash secondHash p fnode snode fr sr =
        consistencyLoop sha256 firstHash secondHash fnode snode fr sr p
  | [], _, _, _, _ => rfl
  | c :: rest, fnode, snode, fr, sr => by
      simp only [Anchor.rebuild, consistencyLoop, Nat.and_one_is_mod, Nat.shiftRight_one,
        rebuild_eq rest]

/-- The sender decides as the exchange does. -/
theorem Anchor.verifyConsistency_eq {first second : Nat} {firstHash secondHash : Hash}
    {path : List Hash} :
    Anchor.verifyConsistency sha256 first second firstHash secondHash path =
      Merkle.verifyConsistency sha256 first second firstHash secondHash path := by
  have hempty : (path.length == 0) = path.isEmpty := by
    cases path <;> rfl
  have hnil : path.length = 0 ↔ path.isEmpty = true := by
    cases path <;> simp
  unfold Anchor.verifyConsistency Merkle.verifyConsistency fullPath
  simp only [hempty, hnil, gt_iff_lt, rebuild_eq]
  by_cases hzero : first = 0
  · simp only [hzero, if_true]
  · by_cases hpow : first.isPowerOfTwo
    · have hand := (Nat.and_sub_one_eq_zero_iff_isPowerOfTwo hzero).2 hpow
      simp only [hand, hpow, if_true, List.singleton_append]
    · have hand := mt (Nat.and_sub_one_eq_zero_iff_isPowerOfTwo hzero).1 hpow
      simp only [hand, hpow, if_false, List.nil_append]

theorem climbed_nil {fnode snode : Nat} {r : Hash} :
    HashTree.climbed (nodeHash sha256) fnode snode r [] = [] := by
  induction snode using Nat.strong_induction_on generalizing fnode with
  | _ snode ih =>
      rw [HashTree.climbed.eq_def]
      split_ifs with hzero hodd hlt
      · rfl
      · rfl
      · rfl
      · exact ih (snode / 2) (by omega)

theorem inclusionInputs_edge {r : Hash} {node : Nat} {p : List Hash} (heven : node % 2 = 0)
    (hne : node ≠ 0) :
    inclusionInputs sha256 node node r p = inclusionInputs sha256 (node / 2) (node / 2) r p := by
  cases p with
  | nil => rfl
  | cons c rest =>
      simp only [inclusionInputs]
      rw [if_neg hne, if_neg (by omega : node / 2 ≠ 0), if_pos (Or.inr trivial),
        if_pos (Or.inr trivial), climbEdge_half heven hne]

/-- The inclusion loop hashes the pairs its climb joins. -/
theorem inclusionInputs_eq_climbed {r : Hash} {fnode snode : Nat} {p : List Hash}
    (hle : fnode ≤ snode) :
    inclusionInputs sha256 fnode snode r p =
      (HashTree.climbed (nodeHash sha256) fnode snode r p).map
        (fun pair => nodeInput pair.1 pair.2) := by
  induction snode using Nat.strong_induction_on generalizing fnode r p with
  | _ snode ih =>
      cases p with
      | nil =>
          rw [climbed_nil]
          rfl
      | cons c rest =>
          by_cases hzero : snode = 0
          · subst hzero
            rw [HashTree.climbed_zero]
            simp [inclusionInputs]
          -- The same cases as the loop, whose hashes these are.
          by_cases hodd : fnode % 2 = 1
          · rw [HashTree.climbed_odd hzero hodd, List.map_cons, ← ih (snode / 2) (by omega) (by omega),
              inclusionInputs, if_neg hzero, if_pos (Or.inl hodd), climbEdge_odd hodd]
          · have heven : fnode % 2 = 0 := by omega
            rcases Nat.lt_or_ge fnode snode with hlt | hge
            · rw [HashTree.climbed_even heven hlt, List.map_cons,
                ← ih (snode / 2) (by omega) (by omega), inclusionInputs, if_neg hzero,
                if_neg (by omega)]
            · obtain rfl : fnode = snode := by omega
              rw [HashTree.climbed_last hzero heven hge, inclusionInputs_edge heven hzero,
                ih (fnode / 2) (by omega) le_rfl]

theorem consistencyInputs_edge {fr sr : Hash} {node : Nat} {p : List Hash} (heven : node % 2 = 0)
    (hne : node ≠ 0) :
    consistencyInputs sha256 node node fr sr p =
      consistencyInputs sha256 (node / 2) (node / 2) fr sr p := by
  cases p with
  | nil => rfl
  | cons c rest =>
      simp only [consistencyInputs]
      rw [if_neg hne, if_neg (by omega : node / 2 ≠ 0), if_pos (Or.inr trivial),
        if_pos (Or.inr trivial), climbEdge_half heven hne]

/-- What the climb to the new root joins, the consistency loop hashes. -/
theorem mem_consistencyInputs {fr sr : Hash} {fnode snode : Nat} {p : List Hash}
    (hle : fnode ≤ snode) {pair : Hash × Hash}
    (h : pair ∈ HashTree.climbed (nodeHash sha256) fnode snode sr p) :
    nodeInput pair.1 pair.2 ∈ consistencyInputs sha256 fnode snode fr sr p := by
  induction snode using Nat.strong_induction_on generalizing fnode fr sr p with
  | _ snode ih =>
      cases p with
      | nil =>
          rw [climbed_nil] at h
          cases h
      | cons c rest =>
          by_cases hzero : snode = 0
          · rw [hzero, HashTree.climbed_zero] at h
            cases h
          by_cases hodd : fnode % 2 = 1
          · rw [HashTree.climbed_odd hzero hodd] at h
            rw [consistencyInputs, if_neg hzero, if_pos (Or.inl hodd), climbEdge_odd hodd]
            rcases List.mem_cons.1 h with rfl | h
            · exact List.mem_cons_of_mem _ List.mem_cons_self
            · exact List.mem_cons_of_mem _ (List.mem_cons_of_mem _
                (ih (snode / 2) (by omega) (by omega) h))
          · have heven : fnode % 2 = 0 := by omega
            rcases Nat.lt_or_ge fnode snode with hlt | hge
            · rw [HashTree.climbed_even heven hlt] at h
              rw [consistencyInputs, if_neg hzero, if_neg (by omega)]
              rcases List.mem_cons.1 h with rfl | h
              · exact List.mem_cons_self
              · exact List.mem_cons_of_mem _ (ih (snode / 2) (by omega) (by omega) h)
            · obtain rfl : fnode = snode := by omega
              rw [HashTree.climbed_last hzero heven hge] at h
              rw [consistencyInputs_edge heven hzero]
              exact ih (fnode / 2) (by omega) le_rfl h

end Loops

/-! ## The first tree inside the second -/

section Sizes

variable {α : Type*} (node : α → α → α) (empty : α)

/-- After the climb out of the first tree's edge, both trees are read at a level where the first one
has an odd number of nodes, and it is one node there exactly if it is a whole subtree. -/
theorem climbFirst_level {first second : Nat} (hpos : 0 < first) (hlt : first < second)
    {leaves : List α} (hlen : leaves.length = second) :
    ∃ (level : List α) (fnode snode : Nat), climbFirst (first - 1) (second - 1) = (fnode, snode) ∧
      level.length = snode + 1 ∧ fnode < snode ∧ fnode % 2 = 0 ∧
      (first.isPowerOfTwo ↔ fnode = 0) ∧
      HashTree.mth node empty level = HashTree.mth node empty leaves ∧
      HashTree.joins node empty level ⊆ HashTree.joins node empty leaves ∧
      HashTree.mth node empty (level.take (fnode + 1)) =
        HashTree.mth node empty (leaves.take first) ∧
      HashTree.subproof node empty (fnode + 1) level true =
        HashTree.subproof node empty first leaves true := by
  induction first using Nat.strong_induction_on generalizing second leaves with
  | _ first ih =>
      rcases Nat.mod_two_eq_zero_or_one first with heven | hodd
      · -- An even number of leaves: the same trees one level up, with half of them.
        have hup : (HashTree.up node leaves).length = (second + 1) / 2 := by
          rw [HashTree.length_up, hlen]
        obtain ⟨level, fnode, snode, hclimb, hlevel, hlt', heven', hpow, hmth, hjoins, htake,
          hproof⟩ := ih (first / 2) (by omega) (by omega) (by omega) hup
        have hdouble : 2 * (first / 2) = first := by omega
        have hfirst : (first - 1) / 2 = first / 2 - 1 := by omega
        have hsecond : (second - 1) / 2 = (second + 1) / 2 - 1 := by omega
        refine ⟨level, fnode, snode, ?_, hlevel, hlt', heven', ?_, ?_, ?_, ?_, ?_⟩
        · rw [climbFirst, dif_pos (by omega), hfirst, hsecond, hclimb]
        · rw [← hpow]
          constructor
          · rintro ⟨k, hk⟩
            cases k with
            | zero => omega
            | succ k => exact ⟨k, by rw [hk, Nat.pow_succ]; omega⟩
          · rintro ⟨k, hk⟩
            exact ⟨k + 1, by rw [Nat.pow_succ]; omega⟩
        · rw [hmth, HashTree.mth_up]
        · exact List.Subset.trans hjoins (HashTree.joins_up_subset leaves)
        · rw [htake, HashTree.take_up (by omega), HashTree.mth_up, hdouble]
        · rw [hproof, ← HashTree.subproof_up (by omega) (by omega), hdouble]
      · -- An odd number of leaves: the climb starts here, and only one leaf is a power of two.
        refine ⟨leaves, first - 1, second - 1, ?_, by omega, by omega, by omega, ?_, rfl,
          List.Subset.refl _, ?_, ?_⟩
        · rw [climbFirst, dif_neg (by omega)]
        · constructor
          · rintro ⟨k, hk⟩
            cases k with
            | zero => omega
            | succ k =>
                rw [Nat.pow_succ] at hk
                omega
          · intro hone
            exact ⟨0, by omega⟩
        · rw [Nat.sub_add_cancel hpos]
        · rw [Nat.sub_add_cancel hpos]

end Sizes

/-! ## What the verifiers accept -/

section Accepted

variable {sha256 : Bytes → Hash} {entries : List Bytes}

/-- The hashes of the leaves, in the order of the entries. -/
def leafHashes (sha256 : Bytes → Hash) (entries : List Bytes) : List Hash :=
  entries.map (leafHash sha256)

@[simp] theorem length_leafHashes (sha256 : Bytes → Hash) (entries : List Bytes) :
    (leafHashes sha256 entries).length = entries.length :=
  List.length_map _

theorem treeHash_eq : treeHash sha256 entries =
    HashTree.mth (nodeHash sha256) (emptyRoot sha256) (leafHashes sha256 entries) := rfl

theorem treeHash_take (first : Nat) : treeHash sha256 (entries.take first) =
    HashTree.mth (nodeHash sha256) (emptyRoot sha256)
      ((leafHashes sha256 entries).take first) := by
  rw [treeHash_eq, leafHashes, List.map_take]
  rfl

/-- A collision among the joined pairs is one among the inputs. -/
theorem collision_of_pairs {pairs : List (Hash × Hash)} {inputs : List Bytes}
    (h : HashTree.Collision (nodeHash sha256)
      (HashTree.joins (nodeHash sha256) (emptyRoot sha256) (leafHashes sha256 entries)) pairs)
    (hpairs : ∀ pair ∈ pairs, nodeInput pair.1 pair.2 ∈ inputs) :
    Collision sha256 (treeInputs sha256 entries) inputs := by
  obtain ⟨x, hx, y, hy, hne, heq⟩ := h
  refine ⟨nodeInput x.1 x.2, List.mem_append_right _ (List.mem_map_of_mem hx), nodeInput y.1 y.2,
    hpairs y hy, ?_, heq⟩
  intro hinput
  obtain ⟨hleft, hright⟩ := nodeInput_inj hinput
  exact hne (Prod.ext hleft hright)

theorem verifyInclusion_path (sha256 : Bytes → Hash) (entries : List Bytes) (leafIndex : Nat)
    {entry : Bytes} (hentry : entries[leafIndex]? = some entry) :
    verifyInclusion sha256 leafIndex entries.length (leafHash sha256 entry)
      (HashTree.path (nodeHash sha256) (emptyRoot sha256) leafIndex (leafHashes sha256 entries))
      (treeHash sha256 entries) = true := by
  have hlt : leafIndex < entries.length := (List.getElem?_eq_some_iff.1 hentry).1
  have hleaf : (leafHashes sha256 entries)[leafIndex]? = some (leafHash sha256 entry) := by
    rw [leafHashes, List.getElem?_map, hentry]
    rfl
  rw [verifyInclusion, if_neg (by omega), inclusionLoop_eq_climb (by omega),
    HashTree.climb_path (by rw [length_leafHashes]; omega) hleaf, treeHash_eq]
  exact beq_self_eq_true _

theorem verifyInclusion_sound {leafIndex : Nat} {leaf : Hash} {p : List Hash}
    (h : verifyInclusion sha256 leafIndex entries.length leaf p (treeHash sha256 entries) = true) :
    (∃ entry, entries[leafIndex]? = some entry ∧ leaf = leafHash sha256 entry) ∨
      Collision sha256 (treeInputs sha256 entries)
        (inclusionInputs sha256 leafIndex (entries.length - 1) leaf p) := by
  rw [verifyInclusion] at h
  split_ifs at h with hrange
  rw [inclusionLoop_eq_climb (by omega), beq_iff_eq, treeHash_eq] at h
  rcases HashTree.climb_sound (by rw [length_leafHashes]; omega) (by omega) h with
    ⟨hleaf, -⟩ | hcollision
  · rw [leafHashes, List.getElem?_map, Option.map_eq_some_iff] at hleaf
    obtain ⟨entry, hentry, rfl⟩ := hleaf
    exact Or.inl ⟨entry, hentry, rfl⟩
  · refine Or.inr (collision_of_pairs hcollision ?_)
    intro pair hpair
    rw [inclusionInputs_eq_climbed (by omega)]
    exact List.mem_map_of_mem hpair

theorem take_append_of_getElem? {α : Type*} {l : List α} {i : Nat} {a : α} (h : l[i]? = some a) :
    l.take i ++ [a] = l.take (i + 1) := by
  obtain ⟨hlt, rfl⟩ := List.getElem?_eq_some_iff.1 h
  rw [List.take_append_getElem]

/-- Between two different sizes the check is the two climbs from the seed. -/
theorem verifyConsistency_eq_climb {first second fnode snode : Nat}
    {firstHash secondHash seed : Hash} {p rest : List Hash} (hpos : 0 < first) (hlt : first < second)
    (hp : p ≠ []) (hclimb : climbFirst (first - 1) (second - 1) = (fnode, snode))
    (hle : fnode ≤ snode) (hfull : fullPath first firstHash p = seed :: rest) :
    verifyConsistency sha256 first second firstHash secondHash p =
      (HashTree.climb (nodeHash sha256) (fun r _ => r) fnode snode seed rest == some firstHash &&
        HashTree.climb (nodeHash sha256) (nodeHash sha256) fnode snode seed rest ==
          some secondHash) := by
  rw [← consistencyLoop_eq_climb hle, verifyConsistency, if_neg (by omega), if_neg (by omega),
    if_neg (by omega), if_neg (by rw [List.isEmpty_iff]; exact hp), hfull]
  simp only [hclimb]

/-- The proof the generator gives is a seed, the node where the two trees meet, and its path. -/
theorem fullPath_subproof {first fnode snode : Nat} {firstHash : Hash} {level leaves : List Hash}
    {node : Hash → Hash → Hash} {empty : Hash} (hlevel : level.length = snode + 1)
    (hlt : fnode < snode) (heven : fnode % 2 = 0) (hpow : first.isPowerOfTwo ↔ fnode = 0)
    (hfirst : firstHash = HashTree.mth node empty (level.take (fnode + 1)))
    (hproof : HashTree.subproof node empty (fnode + 1) level true =
      HashTree.subproof node empty first leaves true) :
    ∃ seed, level[fnode]? = some seed ∧
      fullPath first firstHash (HashTree.subproof node empty first leaves true) =
        seed :: HashTree.path node empty fnode level := by
  have hseed : level[fnode]? = some level[fnode] := List.getElem?_eq_getElem (by omega)
  refine ⟨level[fnode], hseed, ?_⟩
  rw [fullPath, ← hproof, HashTree.subproof_odd (by omega) (Or.inl (by omega)), Nat.add_sub_cancel,
    hseed]
  -- A power of two is a whole subtree, whose root the reader has; any other seed is sent.
  by_cases hzero : fnode = 0
  · subst hzero
    have htake : level.take 1 = [level[0]] := by
      rw [List.take_one, List.head?_eq_getElem?, hseed]
      rfl
    rw [if_pos (hpow.2 rfl), hfirst, htake, HashTree.mth_single]
    rfl
  · rw [if_neg (mt hpow.1 hzero), if_neg (by simpa using hzero)]
    rfl

theorem verifyConsistency_proof (sha256 : Bytes → Hash) (entries : List Bytes) {first : Nat} (hpos : 0 < first) (hle : first ≤ entries.length) :
    verifyConsistency sha256 first entries.length (treeHash sha256 (entries.take first))
      (treeHash sha256 entries)
      (HashTree.subproof (nodeHash sha256) (emptyRoot sha256) first (leafHashes sha256 entries) true) =
      true := by
  rcases eq_or_lt_of_le hle with rfl | hlt
  · rw [HashTree.subproof_whole (by rw [length_leafHashes]), verifyConsistency, if_neg (by omega),
      if_neg (by omega), if_pos rfl, List.take_length]
    simp
  · obtain ⟨level, fnode, snode, hclimb, hlevel, hlt', heven, hpow, hmth, -, htake, hproof⟩ :=
      climbFirst_level (nodeHash sha256) (emptyRoot sha256) hpos hlt
        (length_leafHashes sha256 entries)
    obtain ⟨seed, hseed, hfull⟩ := fullPath_subproof hlevel hlt' heven hpow htake.symm hproof
    have hne : HashTree.subproof (nodeHash sha256) (emptyRoot sha256) first
        (leafHashes sha256 entries) true ≠ [] :=
      HashTree.subproof_ne_nil (by rw [length_leafHashes]; omega) (by rw [length_leafHashes]; omega)
    rw [treeHash_take, verifyConsistency_eq_climb hpos hlt hne hclimb hlt'.le hfull,
      HashTree.climb_prefix hlevel hlt'.le, HashTree.climb_path hlevel hseed, treeHash_eq, hmth]
    rw [take_append_of_getElem? hseed, htake]
    simp

theorem verifyConsistency_sound {first : Nat} {firstHash : Hash} {p : List Hash} (hpos : 0 < first)
    (hle : first ≤ entries.length)
    (h : verifyConsistency sha256 first entries.length firstHash (treeHash sha256 entries) p = true) :
    firstHash = treeHash sha256 (entries.take first) ∨
      Collision sha256 (treeInputs sha256 entries)
        (consistencyHashed sha256 first entries.length firstHash p) := by
  rcases eq_or_lt_of_le hle with rfl | hlt
  · rw [verifyConsistency, if_neg (by omega), if_neg (by omega), if_pos rfl, Bool.and_eq_true,
      beq_iff_eq] at h
    exact Or.inl (by rw [h.2, List.take_length])
  · -- Sizes that differ need at least one hash.
    have hp : p ≠ [] := by
      rintro rfl
      rw [verifyConsistency, if_neg (by omega), if_neg (by omega), if_neg (by omega)] at h
      cases h
    obtain ⟨level, fnode, snode, hclimb, hlevel, hlt', -, -, hmth, hjoins, htake, -⟩ :=
      climbFirst_level (nodeHash sha256) (emptyRoot sha256) hpos hlt
        (length_leafHashes sha256 entries)
    obtain ⟨seed, rest, hfull⟩ : ∃ seed rest, fullPath first firstHash p = seed :: rest := by
      refine List.exists_cons_of_ne_nil ?_
      rw [fullPath]
      exact List.append_ne_nil_of_right_ne_nil _ hp
    have hhashed : consistencyHashed sha256 first entries.length firstHash p =
        consistencyInputs sha256 fnode snode seed seed rest := by
      rw [consistencyHashed, hfull]
      simp only [hclimb]
    rw [verifyConsistency_eq_climb hpos hlt hp hclimb hlt'.le hfull, Bool.and_eq_true, beq_iff_eq,
      beq_iff_eq, treeHash_eq, ← hmth] at h
    obtain ⟨hfirst, hsecond⟩ := h
    -- The climb to the larger root fixes the proof, or shows a collision.
    rcases HashTree.climb_sound hlevel hlt'.le hsecond with ⟨hseed, rfl⟩ | hcollision
    · rw [HashTree.climb_prefix hlevel hlt'.le, take_append_of_getElem? hseed, htake,
        ← treeHash_take] at hfirst
      exact Or.inl (Option.some.inj hfirst).symm
    · refine Or.inr (collision_of_pairs (hcollision.mono hjoins (List.Subset.refl _)) ?_)
      intro pair hpair
      rw [hhashed]
      exact mem_consistencyInputs hlt'.le hpair

end Accepted

end Merkle
end VerifiableExchange
