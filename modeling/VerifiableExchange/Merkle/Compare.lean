import Mathlib.Data.List.ReduceOption
import Mathlib.Data.Prod.Lex
import VerifiableExchange.Logchain
import VerifiableExchange.Merkle.Stored

/-!
# Merkle comparison

A reader compares the nodes a log serves with the nodes the log's own entries make, a range of
leaves at a time. A node belongs to the leaf that fills it, so every place of the tree falls into
exactly one range.
-/

namespace VerifiableExchange
namespace Merkle

open Lib

/-- Nodes by level and index. -/
abbrev NodeMap := SortedMap (Nat ×ₗ Nat) Hash

/-- The leaf that fills the perfect subtree at a place. Shifting and subtracting wrap in 128 bits. -/
def lastLeafUnder (level index : Nat) : Nat :=
  ((index + 1) <<< (level % 128) % 2 ^ 128 + (2 ^ 128 - 1)) % 2 ^ 128

/-! ## The faults -/

def alteredNode (level index : Nat) (theirs ours : Hash) : String :=
  s!"the node at level {level} index {index} is {Logchain.toHex theirs.toList}, and the log's own " ++
    s!"messages make {Logchain.toHex ours.toList} there. Every inclusion proof that reads that " ++
    "node lands on a root the log did not sign"

def missingNode (level index : Nat) : String :=
  s!"the log holds no node at level {level} index {index}, and a tree over its own messages has " ++
    "one there. The proofs that need it cannot be produced"

def extraNode (level index : Nat) : String :=
  s!"the log holds a node at level {level} index {index} that a tree over its own messages does " ++
    "not have"

/-- The range of leaves holds the leaf that fills this place. -/
def Covered (start stop : Nat) (place : Nat ×ₗ Nat) : Prop :=
  start ≤ lastLeafUnder (ofLex place).1 (ofLex place).2 ∧
    lastLeafUnder (ofLex place).1 (ofLex place).2 < stop

instance (start stop : Nat) (place : Nat ×ₗ Nat) : Decidable (Covered start stop place) :=
  inferInstanceAs (Decidable (_ ∧ _))

/-- What is wrong with one node the entries make. -/
def faultAt (stored : NodeMap) (place : Nat ×ₗ Nat) (ourHash : Hash) : Option String :=
  match stored.get? place with
  | some theirs =>
      if theirs = ourHash then none
      else some (alteredNode (ofLex place).1 (ofLex place).2 theirs ourHash)
  | none => some (missingNode (ofLex place).1 (ofLex place).2)

/-- Compares the nodes a log stored with the nodes its own entries make, over a range of leaves. -/
def compareNodes (ours stored : NodeMap) (start stop : Nat) : List String :=
  ours.entries.filterMap (fun node =>
      if Covered start stop node.1 then faultAt stored node.1 node.2 else none) ++
    stored.entries.filterMap (fun node =>
      if Covered start stop node.1 ∧ ours.contains node.1 = false then
        some (extraNode (ofLex node.1).1 (ofLex node.1).2)
      else none)

theorem faultAt_eq_none {stored : NodeMap} {place : Nat ×ₗ Nat} {ourHash : Hash} :
    faultAt stored place ourHash = none ↔ stored.get? place = some ourHash := by
  unfold faultAt
  cases stored.get? place with
  | none => simp
  | some theirs => simp

/-- There is nothing to report where both sides hold the same nodes of the range. -/
theorem compareNodes_eq_nil_iff {ours stored : NodeMap} {start stop : Nat} :
    compareNodes ours stored start stop = [] ↔
      ∀ place, Covered start stop place → ours.get? place = stored.get? place := by
  unfold compareNodes
  rw [List.append_eq_nil_iff, List.filterMap_eq_nil_iff, List.filterMap_eq_nil_iff]
  constructor
  · rintro ⟨hours, hstored⟩ place hcovered
    cases hget : ours.get? place with
    | some ourHash =>
        have hnode := hours (place, ourHash) (SortedMap.mem_entries.2 hget)
        rw [if_pos hcovered] at hnode
        exact (faultAt_eq_none.1 hnode).symm
    | none =>
        -- A node of theirs alone would be one too many.
        cases htheirs : stored.get? place with
        | none => rfl
        | some theirs =>
            have hnode := hstored (place, theirs) (SortedMap.mem_entries.2 htheirs)
            have hcontains : ours.contains place = false := by
              rw [SortedMap.contains, hget]
              rfl
            rw [if_pos ⟨hcovered, hcontains⟩] at hnode
            cases hnode
  · intro hsame
    constructor
    · rintro ⟨place, ourHash⟩ hmem
      split
      case isTrue hcovered =>
        rw [faultAt_eq_none, ← hsame place hcovered]
        exact SortedMap.mem_entries.1 hmem
      case isFalse => rfl
    · rintro ⟨place, theirs⟩ hmem
      refine if_neg (fun hextra => ?_)
      obtain ⟨hcovered, hcontains⟩ := hextra
      rw [SortedMap.contains, hsame place hcovered, SortedMap.mem_entries.1 hmem] at hcontains
      cases hcontains

/-! ## The leaf a place belongs to -/

/-- The leaf that fills a place: the last one under it. -/
def FilledBy (level index leaf : Nat) : Prop := (index + 1) * 2 ^ level = leaf + 1

theorem mem_appendedAt_iff {leaf level index : Nat} :
    (level, index) ∈ appendedAt leaf ↔ FilledBy level index leaf := mem_appendedAt

/-- Below level 64 nothing wraps. -/
theorem lastLeafUnder_eq {level index : Nat} (hlevel : level < 64) (hindex : index < 2 ^ 64) :
    lastLeafUnder level index + 1 = (index + 1) * 2 ^ level := by
  have hpos : 0 < 2 ^ level := Nat.two_pow_pos level
  have hpow : 2 ^ level ≤ 2 ^ 63 := Nat.pow_le_pow_right (by omega) (by omega)
  have hbound : (index + 1) * 2 ^ level ≤ 2 ^ 64 * 2 ^ 63 := Nat.mul_le_mul (by omega) hpow
  have hleast : 1 ≤ (index + 1) * 2 ^ level := Nat.mul_pos (Nat.succ_pos index) hpos
  unfold lastLeafUnder
  rw [Nat.mod_eq_of_lt (by omega : level < 128), Nat.shiftLeft_eq]
  generalize (index + 1) * 2 ^ level = filled at *
  omega

theorem filledBy_iff {level index leaf : Nat} (hlevel : level < 64) (hindex : index < 2 ^ 64) :
    FilledBy level index leaf ↔ lastLeafUnder level index = leaf := by
  have heq := lastLeafUnder_eq hlevel hindex
  unfold FilledBy
  omega

/-- A leaf below `2 ^ 64` fills places below level 64 only. -/
theorem FilledBy.lt {level index leaf : Nat} (h : FilledBy level index leaf)
    (hleaf : leaf + 1 < 2 ^ 64) : level < 64 ∧ index < 2 ^ 64 := by
  unfold FilledBy at h
  constructor
  · by_contra hlevel
    have hpow : 2 ^ 64 ≤ 2 ^ level := Nat.pow_le_pow_right (by omega) (by omega)
    have hle : 2 ^ level ≤ (index + 1) * 2 ^ level := Nat.le_mul_of_pos_left _ (Nat.succ_pos _)
    omega
  · have hle : index + 1 ≤ (index + 1) * 2 ^ level :=
      Nat.le_mul_of_pos_right _ (Nat.two_pow_pos level)
    omega

/-- The nodes the entries make at one leaf. -/
def madeAt (sha256 : Bytes → Hash) (entries : List Bytes) (leaf : Nat) :
    List (Nat × Nat × Hash) :=
  (appendedAt leaf).map (fun place => (place.1, place.2, perfectHash sha256 entries place.1 place.2))

theorem mem_madeAt {sha256 : Bytes → Hash} {entries : List Bytes} {leaf level index : Nat}
    {hash : Hash} :
    (level, index, hash) ∈ madeAt sha256 entries leaf ↔
      FilledBy level index leaf ∧ hash = perfectHash sha256 entries level index := by
  rw [madeAt, List.mem_map]
  constructor
  · rintro ⟨place, hplace, heq⟩
    simp only [Prod.mk.injEq] at heq
    obtain ⟨rfl, rfl, rfl⟩ := heq
    exact ⟨mem_appendedAt_iff.1 hplace, rfl⟩
  · rintro ⟨hfilled, rfl⟩
    exact ⟨(level, index), mem_appendedAt_iff.2 hfilled, rfl⟩

/-! ## What a log serves for a range of leaves -/

def MAX_NODE_LEAVES : Nat := 1000

/-- The bytes of a row, where they are a hash. -/
def rowHash (bytes : Bytes) : Option Hash :=
  if h : bytes.length = 32 then some ⟨bytes.toArray, hash_size h⟩ else none

/-- One node of the answer. A row that is not there is left out of it. -/
def windowNode (nodes : Nodes) (place : Nat × Nat) :
    Except (Fault Unreadable) (Option (Nat × Nat × Hash)) :=
  match nodes with
  | .memory tree =>
      match tree.source.node place.1 place.2 with
      | .ok hash => .ok (some (place.1, place.2, hash))
      | .error _ => .error .panicked
  | .disk rows _ =>
      match selectHash rows place.1 place.2 with
      | none => .ok none
      | some bytes =>
          match rowHash bytes with
          | some hash => .ok (some (place.1, place.2, hash))
          | none => .error (.failed (.notAHash place.1 place.2 bytes.length))

/-- The nodes that appending leaves `start .. start + count` created, as the log holds them. -/
def window (nodes : Nodes) (start count : Nat) :
    Except (Fault Unreadable) (List (Nat × Nat × Hash)) := do
  let upto := min (start + min count MAX_NODE_LEAVES) nodes.treeSize
  let found ← ((List.range' start (upto - start)).flatMap appendedAt).mapM (windowNode nodes)
  return found.reduceOption

theorem windowNode_disk {rows : List NodeRow} {leaves : Nat} {place : Nat × Nat}
    {node : Option (Nat × Nat × Hash)} (h : windowNode (.disk rows leaves) place = .ok node) :
    node = ((selectHash rows place.1 place.2).bind rowHash).map
      (fun hash => (place.1, place.2, hash)) := by
  simp only [windowNode] at h
  cases hrow : selectHash rows place.1 place.2 with
  | none =>
      rw [hrow] at h
      cases h
      rfl
  | some bytes =>
      rw [hrow] at h
      cases hhash : rowHash bytes with
      | some hash =>
          simp only [hhash] at h
          cases h
          rw [Option.bind_some, hhash]
          rfl
      | none =>
          simp only [hhash] at h
          cases h

/-- A range of leaves is answered with the rows the table holds for it. -/
theorem mem_window_disk {rows : List NodeRow} {leaves start count : Nat}
    {nodes : List (Nat × Nat × Hash)} (hcount : count ≤ MAX_NODE_LEAVES)
    (hleaves : start + count ≤ leaves) (h : window (.disk rows leaves) start count = .ok nodes)
    (level index : Nat) (hash : Hash) :
    (level, index, hash) ∈ nodes ↔
      (∃ leaf, start ≤ leaf ∧ leaf < start + count ∧ FilledBy level index leaf) ∧
        (selectHash rows level index).bind rowHash = some hash := by
  unfold window at h
  obtain ⟨found, hfound, h⟩ := Lib.bind_eq_ok.1 h
  cases h
  have hupto : min (start + min count MAX_NODE_LEAVES) (Nodes.disk rows leaves).treeSize - start =
      count := by
    show min (start + min count MAX_NODE_LEAVES) leaves - start = count
    rw [min_eq_left hcount, min_eq_left hleaves]
    omega
  rw [hupto] at hfound
  obtain ⟨rfl, -⟩ := Lib.mapM_eq_ok (fun _ _ => windowNode_disk) hfound
  rw [List.reduceOption_mem_iff, List.mem_map]
  constructor
  · rintro ⟨place, hplace, heq⟩
    obtain ⟨leaf, hleaf, hmem⟩ := List.mem_flatMap.1 hplace
    obtain ⟨hfrom, hto⟩ := List.mem_range'_1.1 hleaf
    obtain ⟨hash', hread, hnode⟩ := Option.map_eq_some_iff.1 heq
    simp only [Prod.mk.injEq] at hnode
    obtain ⟨rfl, rfl, rfl⟩ := hnode
    exact ⟨⟨leaf, hfrom, hto, mem_appendedAt_iff.1 hmem⟩, hread⟩
  · rintro ⟨⟨leaf, hfrom, hto, hfilled⟩, hread⟩
    refine ⟨(level, index), List.mem_flatMap.2 ⟨leaf, List.mem_range'_1.2 ⟨hfrom, hto⟩,
      mem_appendedAt_iff.2 hfilled⟩, ?_⟩
    rw [hread]
    rfl

end Merkle
end VerifiableExchange
