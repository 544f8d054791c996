import VerifiableExchange.Merkle.Append
import Mathlib.Data.Nat.Size

/-!
# Merkle storage holds the tree

Whatever batches the entries came in, the rows, the vectors and the right edge hold the hashes of
the tree over all of them.
-/

namespace VerifiableExchange
namespace Merkle

open Lib

variable {sha256 : Bytes → Hash} {entries : List Bytes}

/-! ## Rows -/

/-- The row of a place. -/
def placeRow (sha256 : Bytes → Hash) (entries : List Bytes) (p : Nat × Nat) : NodeRow :=
  ⟨p.1, p.2, (perfectHash sha256 entries p.1 p.2).toList⟩

/-- The rows of a tree, in the order its appends write them. -/
def storedRows (sha256 : Bytes → Hash) (entries : List Bytes) : List NodeRow :=
  (numbering entries.length).map (placeRow sha256 entries)

theorem selectHash_map (places : List (Nat × Nat)) (level index : Nat) :
    selectHash (places.map (placeRow sha256 entries)) level index =
      if (level, index) ∈ places then some (perfectHash sha256 entries level index).toList
      else none := by
  induction places with
  | nil => rfl
  | cons p rest ih =>
      rw [selectHash] at ih
      rw [selectHash, List.map_cons, List.find?_cons]
      by_cases hp : p = (level, index)
      · subst hp
        simp [placeRow]
      · have hkey : ¬(p.1 = level ∧ p.2 = index) := fun h => hp (Prod.ext h.1 h.2)
        have hmem : (level, index) ∈ p :: rest ↔ (level, index) ∈ rest := by
          rw [List.mem_cons, or_iff_right (Ne.symm hp)]
        simp only [placeRow, hkey, decide_false, hmem]
        exact ih

theorem selectHash_storedRows (level index : Nat) :
    selectHash (storedRows sha256 entries) level index =
      if Full entries.length level index then
        some (perfectHash sha256 entries level index).toList
      else none := by
  rw [storedRows, selectHash_map]
  simp only [mem_numbering]

/-- The database answers every full place with the hash of its subtree. -/
theorem holds_disk (sha256 : Bytes → Hash) (entries : List Bytes) :
    Holds sha256 entries (Nodes.disk (storedRows sha256 entries) entries.length).source where
  size := rfl
  node {level index} hfull := by
    change (Nodes.disk (storedRows sha256 entries) entries.length).node level index = _
    rw [Nodes.node, selectHash_storedRows, if_pos hfull]
    simp [Vector.toArray_toList]

/-- Rows for new places are written behind the ones that are there. -/
theorem foldlM_insertNode (sha256 : Bytes → Hash) (entries : List Bytes) (old new : List (Nat × Nat)) (hnodup : (old ++ new).Nodup) :
    (new.map (fun p => (p.1, p.2, perfectHash sha256 entries p.1 p.2))).foldlM insertNode
        (old.map (placeRow sha256 entries)) =
      .ok ((old ++ new).map (placeRow sha256 entries)) := by
  induction new generalizing old with
  | nil =>
      rw [List.append_nil]
      rfl
  | cons p rest ih =>
      -- Every place is written once.
      have hnot : p ∉ old := by
        rw [List.nodup_append] at hnodup
        intro hold
        exact hnodup.2.2 p hold p List.mem_cons_self rfl
      have hinsert : insertNode (old.map (placeRow sha256 entries))
          (p.1, p.2, perfectHash sha256 entries p.1 p.2) =
            .ok ((old ++ [p]).map (placeRow sha256 entries)) := by
        rw [insertNode, selectHash_map, if_neg hnot, if_neg (by simp), List.map_append]
        rfl
      rw [List.map_cons, List.foldlM_cons, hinsert]
      change List.foldlM insertNode ((old ++ [p]).map (placeRow sha256 entries)) _ = _
      rw [ih (old ++ [p]) (by rwa [List.append_assoc]), List.append_assoc]
      rfl

/-- Full subtrees keep their rows. -/
theorem storedRows_eq (entries' : List Bytes) :
    storedRows sha256 entries =
      (numbering entries.length).map (placeRow sha256 (entries ++ entries')) := by
  refine List.map_congr_left ?_
  rintro ⟨level, index⟩ hmem
  rw [placeRow, placeRow, perfectHash_append (mem_numbering.1 hmem)]

/-- Appending leaves to the rows of a tree gives the rows of the longer tree. -/
theorem append_eq (sha256 : Bytes → Hash) (entries batch : List Bytes) :
    ∃ written, append sha256 (storedRows sha256 entries) entries.length
        (batch.map (leafHash sha256)) = .ok (written, storedRows sha256 (entries ++ batch)) ∧
      (numbering entries.length).length + written =
        (numbering (entries.length + batch.length)).length := by
  induction batch generalizing entries with
  | nil => exact ⟨0, by rw [List.append_nil]; rfl, rfl⟩
  | cons entry rest ih =>
      obtain ⟨written, hrest, hcount⟩ := ih (entries ++ [entry])
      rw [List.length_append, List.length_singleton] at hrest hcount
      -- The new leaf fills exactly the places after the ones that are there.
      have hrows := foldlM_insertNode sha256 (entries ++ [entry])
        (numbering entries.length) (appendedAt entries.length)
        (by rw [← numbering_succ]; exact nodup_numbering _)
      rw [← storedRows_eq, ← numbering_succ] at hrows
      have hstored : (numbering (entries.length + 1)).map (placeRow sha256 (entries ++ [entry])) =
          storedRows sha256 (entries ++ [entry]) := by
        rw [storedRows, List.length_append, List.length_singleton]
      rw [hstored] at hrows
      refine ⟨(appendedAt entries.length).length + written, ?_, ?_⟩
      · rw [List.map_cons, append, appendNodes_eq (holds_disk sha256 entries).holdsEdge]
        refine bind_eq_ok.2 ⟨_, rfl, bind_eq_ok.2 ⟨_, hrows, bind_eq_ok.2 ⟨_, hrest, ?_⟩⟩⟩
        rw [List.length_map, List.append_assoc]
        rfl
      · have hlen : entries.length + (rest.length + 1) = entries.length + 1 + rest.length := by omega
        rw [List.length_cons, hlen, ← hcount, numbering_succ, List.length_append, Nat.add_assoc]

/-- However the entries are batched, the rows are those of the tree over all of them. -/
theorem appendBatches_eq (sha256 : Bytes → Hash) (entries : List Bytes) (batches : List (List Bytes)) :
    appendBatches sha256 (storedRows sha256 entries) entries.length batches =
      .ok (storedRows sha256 (entries ++ batches.flatten)) := by
  induction batches generalizing entries with
  | nil => rw [List.flatten_nil, List.append_nil, appendBatches]
  | cons batch rest ih =>
      obtain ⟨written, hbatch, -⟩ := append_eq sha256 entries batch
      rw [appendBatches, hbatch]
      change appendBatches sha256 (storedRows sha256 (entries ++ batch)) _ rest = _
      rw [← List.length_append, ih, List.flatten_cons, List.append_assoc]

/-! ## Vectors -/

/-- The first `count` hashes of every level, for the levels below `height`. -/
def treeLevels (sha256 : Bytes → Hash) (entries : List Bytes) (count : Nat → Nat) (height : Nat) :
    List (List Hash) :=
  (List.range height).map (fun level =>
    (List.range (count level)).map (perfectHash sha256 entries level))

/-- The vectors of the tree over the entries. -/
def storedLevels (sha256 : Bytes → Hash) (entries : List Bytes) : List (List Hash) :=
  treeLevels sha256 entries (fun level => entries.length / 2 ^ level) entries.length.size

theorem getElem?_treeLevels {count : Nat → Nat} {height level : Nat} :
    (treeLevels sha256 entries count height)[level]? =
      if level < height then
        some ((List.range (count level)).map (perfectHash sha256 entries level))
      else none := by
  rw [treeLevels, List.getElem?_map]
  split_ifs with h
  · rw [List.getElem?_range h]
    rfl
  · rw [List.getElem?_eq_none (by rw [List.length_range]; omega)]
    rfl

theorem length_treeLevels {count : Nat → Nat} {height : Nat} :
    (treeLevels sha256 entries count height).length = height := by
  rw [treeLevels, List.length_map, List.length_range]

/-- Pushing the next hash of a level, which may be the first one of a new level. -/
theorem store_treeLevels (sha256 : Bytes → Hash) (entries : List Bytes) {count : Nat → Nat} {height level : Nat} (hle : level ≤ height)
    (hnew : level = height → count level = 0) :
    MerkleTree.store ⟨treeLevels sha256 entries count height⟩
        (level, count level, perfectHash sha256 entries level (count level)) =
      .ok ⟨treeLevels sha256 entries (Function.update count level (count level + 1))
        (max height (level + 1))⟩ := by
  -- A node of a new level opens it; any other level is there already.
  have hgrown : (if (treeLevels sha256 entries count height).length = level then
      treeLevels sha256 entries count height ++ [[]] else treeLevels sha256 entries count height) =
        treeLevels sha256 entries count (max height (level + 1)) := by
    rw [length_treeLevels]
    split_ifs with heq
    · have hzero := hnew heq.symm
      rw [← heq] at hzero ⊢
      rw [max_eq_right (Nat.le_succ height), treeLevels, treeLevels, List.range_succ,
        List.map_append, List.map_singleton, hzero]
      rfl
    · rw [max_eq_left (by omega)]
  rw [MerkleTree.store]
  simp only [hgrown]
  rw [getElem?_treeLevels, if_pos (by omega)]
  refine congrArg Except.ok (congrArg MerkleTree.mk (List.ext_getElem? fun l => ?_))
  rw [List.getElem?_set, getElem?_treeLevels, getElem?_treeLevels, length_treeLevels]
  by_cases hl : level = l
  · subst hl
    rw [if_pos rfl, if_pos (by omega), if_pos (by omega), Function.update_self, List.range_succ,
      List.map_append]
    rfl
  · rw [if_neg hl, Function.update_of_ne (Ne.symm hl)]

/-- Storing what an append makes, level by level: up to the level at work the counts are those of
the longer tree, and above it those of the shorter one. -/
theorem foldlM_store (sha256 : Bytes → Hash) (entries : List Bytes) (n level count height : Nat) (hcount : count * 2 ^ level = n + 1)
    (hheight : ∀ l, l < height ↔
      0 < if l < level then (n + 1) / 2 ^ l else n / 2 ^ l) :
    (((level, count - 1) :: parentsAt level count).map
        (fun p => (p.1, p.2, perfectHash sha256 entries p.1 p.2))).foldlM MerkleTree.store
        ⟨treeLevels sha256 entries (fun l => if l < level then (n + 1) / 2 ^ l else n / 2 ^ l)
          height⟩ =
      .ok ⟨treeLevels sha256 entries (fun l => (n + 1) / 2 ^ l) (n + 1).size⟩ := by
  induction count using Nat.strong_induction_on generalizing level height with
  | _ count ih =>
      -- The induction climbs: half the count is the count one level up.
      obtain ⟨hbefore, hafter⟩ := div_of_count hcount
      have hpos : 0 < count := by
        rcases Nat.eq_zero_or_pos count with rfl | hpos
        · rw [Nat.zero_mul] at hcount
          omega
        · exact hpos
      set before : Nat → Nat := fun l => if l < level then (n + 1) / 2 ^ l else n / 2 ^ l with hdef
      have hat : before level = count - 1 := by
        simp only [hdef, lt_irrefl, if_false, hbefore]
      -- The level below has nodes, so this one exists or is the next to open.
      have hle : level ≤ height := by
        rcases Nat.eq_zero_or_pos level with hzero | hlevel
        · omega
        · have hbelow : level - 1 < height := by
            rw [hheight, if_pos (by omega)]
            refine Nat.div_pos ?_ (Nat.two_pow_pos _)
            have hpow : 2 ^ (level - 1) ≤ 2 ^ level := Nat.pow_le_pow_right (by decide) (by omega)
            have hone : 2 ^ level ≤ count * 2 ^ level := Nat.le_mul_of_pos_left _ hpos
            omega
          omega
      have hnew : level = height → before level = 0 := by
        intro heq
        have hnot := mt (hheight level).2 (by omega)
        simp only [lt_irrefl, if_false] at hnot
        simp only [hdef, lt_irrefl, if_false]
        omega
      -- One node more at this level, and the counts are those of the next step.
      have hafter_eq : Function.update before level (before level + 1) =
          fun l => if l < level + 1 then (n + 1) / 2 ^ l else n / 2 ^ l := by
        funext l
        rcases Nat.lt_trichotomy l level with hl | rfl | hl
        · rw [Function.update_of_ne (by omega), if_pos (by omega)]
          simp only [hdef, hl, if_true]
        · rw [Function.update_self, hat, if_pos (by omega), hafter]
          omega
        · rw [Function.update_of_ne (by omega), if_neg (by omega)]
          simp only [hdef, if_neg (by omega : ¬l < level)]
      have hheight' : ∀ l, l < max height (level + 1) ↔
          0 < if l < level + 1 then (n + 1) / 2 ^ l else n / 2 ^ l := by
        intro l
        have hl := hheight l
        rcases Nat.lt_trichotomy l level with hlt | rfl | hlt
        · rw [if_pos hlt] at hl
          rw [if_pos (by omega), ← hl]
          omega
        · rw [if_pos (by omega), hafter]
          omega
        · rw [if_neg (by omega)] at hl
          rw [if_neg (by omega), ← hl]
          omega
      have hstore := store_treeLevels sha256 entries hle hnew
      rw [hafter_eq, hat] at hstore
      rw [List.map_cons, List.foldlM_cons, hstore]
      change List.foldlM MerkleTree.store ⟨treeLevels sha256 entries _ (max height (level + 1))⟩
        (List.map _ (parentsAt level count)) = _
      by_cases heven : count % 2 = 0
      · -- An even count fills the parent.
        have hhalf : count / 2 * 2 ^ (level + 1) = n + 1 := by
          have hback : count / 2 * 2 = count := by omega
          rw [Nat.pow_succ', ← Nat.mul_assoc, hback, hcount]
        rw [parentsAt, dif_pos ⟨heven, hpos⟩,
          ih (count / 2) (by omega) (level + 1) (max height (level + 1)) hhalf hheight']
      · -- Nothing stands above: the counts of both trees agree there.
        have hcounts : (fun l => if l < level + 1 then (n + 1) / 2 ^ l else n / 2 ^ l) =
            fun l => (n + 1) / 2 ^ l := by
          funext l
          split_ifs with hl
          · rfl
          · rw [div_above hcount (by omega) (by omega)]
        have hsize : max height (level + 1) = (n + 1).size := by
          refine eq_of_forall_lt_iff fun l => ?_
          rw [hheight', congrFun hcounts l, Nat.lt_size, Nat.div_pos_iff]
          simp
        rw [parentsAt, dif_neg (by omega), List.map_nil, List.foldlM_nil, hcounts, hsize]
        rfl

/-- The vectors answer every full place with the hash of its subtree. -/
theorem holds_memory (sha256 : Bytes → Hash) (entries : List Bytes) :
    Holds sha256 entries (MerkleTree.source ⟨storedLevels sha256 entries⟩) where
  size := by
    change MerkleTree.len _ = _
    rw [MerkleTree.len, storedLevels, List.head?_eq_getElem?, getElem?_treeLevels]
    split_ifs with h
    · simp
    · rw [Nat.lt_size, Nat.pow_zero] at h
      rw [Option.map_none, Option.getD_none]
      omega
  node {level index} hfull := by
    have hindex : index < entries.length / 2 ^ level := full_iff.1 hfull
    have hlevel : level < entries.length.size := by
      rw [Nat.lt_size]
      by_contra hnot
      rw [Nat.div_eq_of_lt (not_le.1 hnot)] at hindex
      omega
    rw [MerkleTree.source]
    simp only [storedLevels, getElem?_treeLevels, if_pos hlevel, List.getElem?_map,
      List.getElem?_range hindex, Option.map_some]

/-- Full subtrees keep their place in the vectors. -/
theorem storedLevels_eq (entries' : List Bytes) :
    storedLevels sha256 entries =
      treeLevels sha256 (entries ++ entries') (fun level => entries.length / 2 ^ level)
        entries.length.size := by
  refine List.map_congr_left fun level _ => List.map_congr_left fun index hindex => ?_
  rw [perfectHash_append (full_iff.2 (List.mem_range.1 hindex))]

theorem pushEntry_eq (sha256 : Bytes → Hash) (entries : List Bytes) (entry : Bytes) :
    MerkleTree.pushEntry sha256 ⟨storedLevels sha256 entries⟩ entry =
      .ok (entries.length, ⟨storedLevels sha256 (entries ++ [entry])⟩) := by
  have hholds := holds_memory sha256 entries
  have hlonger : treeLevels sha256 (entries ++ [entry]) (fun l => (entries.length + 1) / 2 ^ l)
      (entries.length + 1).size = storedLevels sha256 (entries ++ [entry]) := by
    rw [storedLevels, List.length_append, List.length_singleton]
  have hstore := foldlM_store sha256 (entries ++ [entry]) entries.length 0 (entries.length + 1)
    entries.length.size (by rw [Nat.pow_zero, Nat.mul_one]) (fun l => by
      rw [if_neg (Nat.not_lt_zero l), Nat.lt_size, Nat.div_pos_iff]
      simp)
  simp only [Nat.not_lt_zero, if_false, Nat.add_sub_cancel] at hstore
  rw [← storedLevels_eq, hlonger] at hstore
  rw [MerkleTree.pushEntry, MerkleTree.pushLeafHash, appendNodes_eq hholds.holdsEdge]
  change (do
    let tree ← List.foldlM MerkleTree.store _ _
    return (MerkleTree.len _, tree)) = _
  rw [appendedAt, hstore]
  exact congrArg (fun n => Except.ok (n, _)) hholds.size

/-- A tree pushed entry by entry holds the tree over all of them. -/
theorem foldlM_pushEntry (sha256 : Bytes → Hash) (entries new : List Bytes) :
    new.foldlM (fun tree entry => do return (← MerkleTree.pushEntry sha256 tree entry).2)
        ⟨storedLevels sha256 entries⟩ =
      (.ok ⟨storedLevels sha256 (entries ++ new)⟩ : Except (Fault Empty) MerkleTree) := by
  induction new generalizing entries with
  | nil =>
      rw [List.append_nil]
      rfl
  | cons entry rest ih =>
      rw [List.foldlM_cons, pushEntry_eq]
      change List.foldlM _ (MerkleTree.mk (storedLevels sha256 (entries ++ [entry]))) rest = _
      rw [ih, List.append_assoc]
      rfl

theorem fromEntries_eq (sha256 : Bytes → Hash) (entries : List Bytes) :
    MerkleTree.fromEntries sha256 entries = .ok ⟨storedLevels sha256 entries⟩ := by
  have h := foldlM_pushEntry sha256 [] entries
  rwa [List.nil_append] at h

/-! ## The right edge -/

/-- A fold over the entries: the edge of their tree, and the root at each size asked for. -/
structure FoldHolds (sha256 : Bytes → Hash) (entries : List Bytes) (fold : RootFold) : Prop where
  leaves : fold.leaves = entries.length
  mem_edge : ∀ level index hash, (level, index, hash) ∈ fold.edge ↔
    OnEdge entries.length level index ∧ hash = perfectHash sha256 entries level index
  rootAt : ∀ size, fold.rootAt size =
    if size ∈ fold.wanted ∧ size ≤ entries.length then some (treeHash sha256 (entries.take size))
    else none

theorem holdsEdge_source {fold : RootFold} (hleaves : fold.leaves = entries.length)
    (hedge : ∀ level index hash, (level, index, hash) ∈ fold.edge ↔
      OnEdge entries.length level index ∧ hash = perfectHash sha256 entries level index) :
    HoldsEdge sha256 entries fold.source where
  size := hleaves
  node {level index} honedge := by
    have hmem := (hedge level index _).2 ⟨honedge, rfl⟩
    have hsome : (fold.edge.find? (fun n => decide (n.1 = level ∧ n.2.1 = index))).isSome := by
      rw [List.find?_isSome]
      exact ⟨_, hmem, by simp⟩
    obtain ⟨⟨level', index', hash⟩, hfind⟩ := Option.isSome_iff_exists.1 hsome
    obtain ⟨rfl, rfl⟩ : level' = level ∧ index' = index := by
      simpa using List.find?_some hfind
    obtain ⟨-, rfl⟩ := (hedge _ _ _).1 (List.mem_of_find?_eq_some hfind)
    rw [RootFold.source]
    simp only [hfind]

theorem mem_dropRepeats {size : Nat} : ∀ l : List Nat, size ∈ RootFold.dropRepeats l ↔ size ∈ l
  | [] => Iff.rfl
  | [_] => Iff.rfl
  | a :: b :: rest => by
      rw [RootFold.dropRepeats]
      split_ifs with heq
      · rw [mem_dropRepeats (b :: rest), heq]
        simp
      · rw [List.mem_cons, mem_dropRepeats (b :: rest), ← List.mem_cons]

theorem head?_dropRepeats : ∀ l : List Nat, (RootFold.dropRepeats l).head? = l.head?
  | [] => rfl
  | [_] => rfl
  | a :: b :: rest => by
      rw [RootFold.dropRepeats]
      split_ifs with heq
      · rw [head?_dropRepeats (b :: rest), heq]
        rfl
      · rfl

theorem mem_wanted_new (sha256 : Bytes → Hash) (sizes : List Nat) (size : Nat) :
    size ∈ (RootFold.new sha256 sizes).wanted ↔ size ∈ sizes := by
  change size ∈ RootFold.dropRepeats _ ↔ _
  rw [mem_dropRepeats, List.mem_mergeSort]

/-- The smallest size stands first. -/
theorem head?_wanted_new (sizes : List Nat) :
    (RootFold.dropRepeats (sizes.mergeSort (fun a b => decide (a ≤ b)))).head? = some 0 ↔
      0 ∈ sizes := by
  have hmem : 0 ∈ sizes.mergeSort (fun a b => decide (a ≤ b)) ↔ 0 ∈ sizes := List.mem_mergeSort
  have hsorted : (sizes.mergeSort (fun a b => decide (a ≤ b))).Pairwise
      (fun a b => decide (a ≤ b) = true) :=
    List.pairwise_mergeSort
      (fun a b c hab hbc => by
        simp only [decide_eq_true_eq] at *
        exact hab.trans hbc)
      (fun a b => by
        simp only [Bool.or_eq_true, decide_eq_true_eq]
        exact Nat.le_total a b) sizes
  -- The sizes are sorted, so a zero comes first.
  rw [head?_dropRepeats, ← hmem]
  cases h : sizes.mergeSort (fun a b => decide (a ≤ b)) with
  | nil => simp
  | cons a rest =>
      rw [h, List.pairwise_cons] at hsorted
      rw [List.head?_cons, Option.some_inj, List.mem_cons]
      constructor
      · rintro rfl
        exact Or.inl rfl
      · rintro (rfl | hrest)
        · rfl
        · exact Nat.le_zero.1 (of_decide_eq_true (hsorted.1 0 hrest))

theorem foldHolds_new (sha256 : Bytes → Hash) (sizes : List Nat) :
    FoldHolds sha256 [] (RootFold.new sha256 sizes) where
  leaves := rfl
  mem_edge level index hash := by
    change (level, index, hash) ∈ [] ↔ _
    simp [OnEdge]
  rootAt size := by
    simp only [mem_wanted_new]
    rw [RootFold.rootAt, RootFold.new]
    simp only [head?_wanted_new]
    -- Before the first leaf the only root that is known is the empty tree's.
    by_cases hzero : size = 0
    · subst hzero
      split_ifs with hmem hcond hcond
      · rw [SortedMap.get?_insert_self, List.take_nil, treeHash_eq]
        exact congrArg some HashTree.mth_nil.symm
      · exact absurd ⟨hmem, le_rfl⟩ hcond
      · exact absurd hcond.1 hmem
      · rfl
    · have hnone : (if size ∈ sizes ∧ size ≤ ([] : List Bytes).length then
          some (treeHash sha256 (([] : List Bytes).take size)) else none) = none :=
        if_neg (fun h => hzero (Nat.le_zero.1 h.2))
      rw [hnone]
      split_ifs with hmem
      · rw [SortedMap.get?_insert_of_ne _ hzero]
        rfl
      · rfl

/-- The edge after an append. -/
theorem FoldHolds.mem_edge_grow {fold : RootFold} (h : FoldHolds sha256 entries fold) (entry : Bytes)
    {top count : Nat} (hcount : count * 2 ^ top = entries.length + 1) (hodd : count % 2 = 1)
    (level index : Nat) (hash : Hash) :
    (level, index, hash) ∈ (fold.grow (top, count - 1,
        perfectHash sha256 (entries ++ [entry]) top (count - 1))).edge ↔
      OnEdge (entries ++ [entry]).length level index ∧
        hash = perfectHash sha256 (entries ++ [entry]) level index := by
  rw [RootFold.grow, List.length_append, List.length_singleton, onEdge_succ hcount hodd,
    List.mem_append, List.mem_filter, h.mem_edge, List.mem_singleton, decide_eq_true_eq,
    Prod.mk.injEq, Prod.mk.injEq]
  constructor
  · rintro (⟨⟨hedge, rfl⟩, hlt⟩ | ⟨rfl, rfl, rfl⟩)
    · exact ⟨Or.inr ⟨hlt, hedge⟩, (perfectHash_append hedge.full [entry]).symm⟩
    · exact ⟨Or.inl ⟨rfl, rfl⟩, rfl⟩
  · rintro ⟨⟨rfl, rfl⟩ | ⟨hlt, hedge⟩, rfl⟩
    · exact Or.inr ⟨rfl, rfl, rfl⟩
    · exact Or.inl ⟨⟨hedge, perfectHash_append hedge.full [entry]⟩, hlt⟩

/-- Taking the root of a fold whose edge is right, with the roots of the smaller sizes recorded. -/
theorem keepRoot_eq (fold : RootFold) (hleaves : fold.leaves = entries.length)
    (hedge : ∀ level index hash, (level, index, hash) ∈ fold.edge ↔
      OnEdge entries.length level index ∧ hash = perfectHash sha256 entries level index)
    (hroots : ∀ size, fold.rootAt size =
      if size ∈ fold.wanted ∧ size < entries.length then some (treeHash sha256 (entries.take size))
      else none) :
    ∃ fold', fold.keepRoot sha256 = .ok fold' ∧ fold'.wanted = fold.wanted ∧
      FoldHolds sha256 entries fold' := by
  have hmth : mth sha256 fold.source fold.leaves = .ok (treeHash sha256 entries) := by
    rw [hleaves]
    exact (holdsEdge_source hleaves hedge).mth_eq
  rw [RootFold.keepRoot, hmth]
  split_ifs with hwanted
  · refine ⟨_, rfl, rfl, ⟨hleaves, hedge, fun size => ?_⟩⟩
    rw [RootFold.rootAt, SortedMap.get?_insert]
    -- The root of this size is the one just kept.
    by_cases hsize : size = fold.leaves
    · rw [if_pos hsize, hsize, if_pos ⟨hwanted, hleaves.le⟩, hleaves, List.take_length]
    · rw [if_neg hsize]
      refine (hroots size).trans ?_
      have hlt : size < entries.length ↔ size ≤ entries.length := by omega
      simp only [hlt]
  · refine ⟨_, rfl, rfl, ⟨hleaves, hedge, fun size => ?_⟩⟩
    rw [hroots]
    by_cases hsize : size = fold.leaves
    · rw [if_neg (fun hc => hwanted (hsize ▸ hc.1)), if_neg (fun hc => hwanted (hsize ▸ hc.1))]
    · have hlt : size < entries.length ↔ size ≤ entries.length := by omega
      simp only [hlt]

/-- One entry: the nodes it makes, and the fold over one entry more. -/
theorem FoldHolds.pushEntry {fold : RootFold} (h : FoldHolds sha256 entries fold) (entry : Bytes) :
    ∃ fold', RootFold.pushEntry sha256 fold entry =
        .ok ((appendedAt entries.length).map
          (fun p => (p.1, p.2, perfectHash sha256 (entries ++ [entry]) p.1 p.2)), fold') ∧
      fold'.wanted = fold.wanted ∧ FoldHolds sha256 (entries ++ [entry]) fold' := by
  obtain ⟨top, count, hcount, hodd, hlast⟩ := getLast?_appendedAt entries.length
  have hlength : (entries ++ [entry]).length = entries.length + 1 := by
    rw [List.length_append, List.length_singleton]
  -- Older roots do not see the new leaf.
  have hroots : ∀ size, fold.rootAt size =
      if size ∈ fold.wanted ∧ size < (entries ++ [entry]).length then
        some (treeHash sha256 ((entries ++ [entry]).take size)) else none := by
    intro size
    rw [h.rootAt, hlength]
    by_cases hle : size ≤ entries.length
    · rw [List.take_append_of_le_length hle]
      simp only [hle, Nat.lt_succ_of_le hle]
    · rw [if_neg (fun hc => hle hc.2), if_neg (fun hc => by omega)]
  obtain ⟨fold', hkeep, hwanted, hholds⟩ := keepRoot_eq
    (fold.grow (top, count - 1, perfectHash sha256 (entries ++ [entry]) top (count - 1)))
    (by rw [hlength, ← h.leaves]; rfl) (h.mem_edge_grow entry hcount hodd) hroots
  refine ⟨fold', ?_, hwanted, hholds⟩
  rw [RootFold.pushEntry, RootFold.pushLeafHash,
    appendNodes_eq (holdsEdge_source h.leaves h.mem_edge)]
  simp only [bind, Except.bind, List.getLast?_map, hlast, Option.map_some, hkeep]
  rfl

/-- The nodes all the entries make are those of every place, in order. -/
theorem FoldHolds.pushEntries {fold : RootFold} (h : FoldHolds sha256 entries fold)
    (new : List Bytes) :
    ∃ fold', fold.pushEntries sha256 new =
        .ok (((List.range' entries.length new.length).flatMap appendedAt).map
          (fun p => (p.1, p.2, perfectHash sha256 (entries ++ new) p.1 p.2)), fold') ∧
      fold'.wanted = fold.wanted ∧ FoldHolds sha256 (entries ++ new) fold' := by
  induction new generalizing entries fold with
  | nil => exact ⟨fold, rfl, rfl, by rwa [List.append_nil]⟩
  | cons entry rest ih =>
      obtain ⟨grown, hpush, hgrown, hnext⟩ := h.pushEntry entry
      obtain ⟨fold', hrest, hwanted, hholds⟩ := ih hnext
      refine ⟨fold', ?_, hwanted.trans hgrown, by rwa [List.append_assoc] at hholds⟩
      have hsame : (appendedAt entries.length).map
            (fun p => (p.1, p.2, perfectHash sha256 (entries ++ [entry]) p.1 p.2)) =
          (appendedAt entries.length).map
            (fun p => (p.1, p.2, perfectHash sha256 (entries ++ [entry] ++ rest) p.1 p.2)) := by
        refine List.map_congr_left ?_
        rintro ⟨level, index⟩ hmem
        have hfull : Full (entries ++ [entry]).length level index := by
          rw [Full, mem_appendedAt.1 hmem, List.length_append, List.length_singleton]
        rw [perfectHash_append hfull]
      rw [RootFold.pushEntries, hpush]
      simp only [bind, Except.bind, hrest, hsame, List.length_cons, List.range'_succ,
        List.flatMap_cons, List.map_append, List.length_append]
      rw [List.append_assoc]
      rfl

/-! ## The number of nodes -/

/-- The vectors hold as many nodes as the appends made. -/
theorem sum_length_storedLevels (sha256 : Bytes → Hash) (entries : List Bytes) :
    ((storedLevels sha256 entries).map List.length).sum + countOnes entries.length =
      2 * entries.length := by
  have hsum : ∀ n : Nat, ((List.range n.size).map (fun level => n / 2 ^ level)).sum + countOnes n =
      2 * n := by
    intro n
    induction n using Nat.strong_induction_on with
    | _ n ih =>
        rcases Nat.eq_zero_or_pos n with rfl | hpos
        · simp [countOnes]
        · -- Half the leaves have one level less.
          have hsize : n.size = (n / 2).size + 1 := by
            refine eq_of_forall_lt_iff fun l => ?_
            cases l with
            | zero => simp [Nat.size_pos, hpos]
            | succ l =>
                rw [Nat.lt_size, Nat.add_lt_add_iff_right, Nat.lt_size, Nat.pow_succ,
                  Nat.le_div_iff_mul_le (by decide)]
          have hhalf : ∀ level, n / 2 ^ (level + 1) = n / 2 / 2 ^ level := by
            intro level
            rw [Nat.div_div_eq_div_mul, Nat.pow_succ']
          have hrec := ih (n / 2) (by omega)
          rw [hsize, List.range_succ_eq_map, List.map_cons, List.map_map, List.sum_cons,
            Nat.pow_zero, Nat.div_one, countOnes, if_neg (by omega)]
          have hmap : (fun level => n / 2 ^ level) ∘ Nat.succ = fun level => n / 2 / 2 ^ level :=
            funext hhalf
          rw [hmap]
          omega
  rw [← hsum, storedLevels, treeLevels, List.map_map]
  congr 3
  funext level
  simp

end Merkle
end VerifiableExchange
