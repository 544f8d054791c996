import VerifiableExchange.Lib.HashTree
import VerifiableExchange.Lib.Result
import VerifiableExchange.Operator

/-!
# Merkle — the tree over the log

The hashes of the tree, the walks that read a root, an inclusion path or a consistency proof out of
the stored nodes, and the nodes one append makes. SHA-256 is any function from bytes to hashes.

Tree sizes and node indices are naturals: no walk leaves the range of the sizes it is given.
-/

namespace VerifiableExchange
namespace Merkle

open Lib

abbrev Hash := Vector UInt8 32

theorem hash_size {bytes : List UInt8} (h : bytes.length = 32) : bytes.toArray.size = 32 := by
  simpa using h

def LEAF_PREFIX : UInt8 := 0x00

def NODE_PREFIX : UInt8 := 0x01

variable (sha256 : Bytes → Hash)

/-- `MTH({})`. -/
def emptyRoot : Hash := sha256 []

/-- The bytes a leaf hash covers. -/
def leafInput (entry : Bytes) : Bytes := LEAF_PREFIX :: entry

/-- `MTH({d0}) = HASH(0x00 || d0)`. -/
def leafHash (entry : Bytes) : Hash := sha256 (leafInput entry)

/-- The bytes an internal node covers. -/
def nodeInput (left right : Hash) : Bytes := NODE_PREFIX :: (left.toList ++ right.toList)

/-- `HASH(0x01 || left || right)`. -/
def nodeHash (left right : Hash) : Hash := sha256 (nodeInput left right)

theorem nodeInput_inj {left right left' right' : Hash}
    (h : nodeInput left right = nodeInput left' right') : left = left' ∧ right = right' := by
  have hlen : left.toList.length = left'.toList.length := by simp
  obtain ⟨hleft, hright⟩ := List.append_inj (List.cons.inj h).2 hlen
  exact ⟨Vector.toList_inj.1 hleft, Vector.toList_inj.1 hright⟩

/-- The root RFC 9162 gives a list of entries: the leaves hashed, then the tree over them. -/
def treeHash (entries : List Bytes) : Hash :=
  HashTree.mth (nodeHash sha256) (emptyRoot sha256) (entries.map (leafHash sha256))

/-- Everything that is hashed on the way to the root of a list of entries. -/
def treeInputs (entries : List Bytes) : List Bytes :=
  entries.map leafInput ++
    (HashTree.joins (nodeHash sha256) (emptyRoot sha256) (entries.map (leafHash sha256))).map
      (fun pair => nodeInput pair.1 pair.2)

/-- An input of each list: two different inputs with one hash. -/
def Collision (xs ys : List Bytes) : Prop :=
  ∃ x ∈ xs, ∃ y ∈ ys, x ≠ y ∧ sha256 x = sha256 y

/-! ## Errors -/

inductive ProofError where
  | unknownTreeSize (treeSize have' : Nat)
  | leafOutOfRange (leafIndex treeSize : Nat)
  | backwardsConsistency (first second : Nat)
  deriving DecidableEq, Repr

/-- Why a walk did not produce an answer. -/
inductive TreeError (ε : Type) where
  | proof (error : ProofError)
  | source (error : ε)
  deriving DecidableEq, Repr

/-- Storage that answers with an error, or stops the process. -/
inductive Fault (ε : Type) where
  | panicked
  | failed (error : ε)
  deriving DecidableEq, Repr

/-- Where the hashes of the perfect subtrees are kept, by level and index. -/
structure NodeSource (ε : Type) where
  treeSize : Nat
  node : Nat → Nat → Except (Fault ε) Hash

variable {ε : Type}

/-- A failed read, inside the answer of a walk. -/
def sourceFault {α : Type} (x : Except (Fault ε) α) : Except (Fault (TreeError ε)) α :=
  match x with
  | .ok a => .ok a
  | .error .panicked => .error .panicked
  | .error (.failed e) => .error (.failed (.source e))

@[simp] theorem sourceFault_ok {α : Type} (a : α) :
    sourceFault (.ok a : Except (Fault ε) α) = .ok a := rfl

def refused {α : Type} (error : ProofError) : Except (Fault (TreeError ε)) α :=
  .error (.failed (.proof error))

/-! ## The walks -/

def splitPoint (n : Nat) : Nat := HashTree.splitPoint n

def checkedSize (nodes : NodeSource ε) (treeSize : Nat) : Except (Fault (TreeError ε)) Nat :=
  if nodes.treeSize < treeSize then refused (.unknownTreeSize treeSize nodes.treeSize)
  else .ok treeSize

/-- `MTH(D[lo:hi])`. The trailing zeros of a power of two are its logarithm. -/
def subtreeHash (nodes : NodeSource ε) (lo hi : Nat) : Except (Fault ε) Hash :=
  if (hi - lo).isPowerOfTwo ∧ lo % (hi - lo) = 0 then
    nodes.node (hi - lo).log2 (lo >>> (hi - lo).log2)
  else if _ : 2 ≤ hi - lo then do
    let left ← subtreeHash nodes lo (lo + splitPoint (hi - lo))
    let right ← subtreeHash nodes (lo + splitPoint (hi - lo)) hi
    return nodeHash sha256 left right
  else .error .panicked -- no caller asks for an empty range
termination_by hi - lo
decreasing_by
  · have hlt := HashTree.splitPoint_lt ‹2 ≤ hi - lo›
    simp only [splitPoint]
    omega
  · have hpos := HashTree.splitPoint_pos (hi - lo)
    simp only [splitPoint]
    omega

/-- `MTH(D[0:tree_size])`. -/
def mth (nodes : NodeSource ε) (treeSize : Nat) : Except (Fault (TreeError ε)) Hash := do
  let size ← checkedSize nodes treeSize
  if size = 0 then return emptyRoot sha256
  sourceFault (subtreeHash sha256 nodes 0 size)

/-- `PATH(m, D[lo:hi])`, with `m` counted from `lo`. -/
def walkPath (nodes : NodeSource ε) (m lo hi : Nat) : Except (Fault ε) (List Hash) :=
  if hi - lo = 1 then .ok []
  else if _ : 2 ≤ hi - lo then
    if m < splitPoint (hi - lo) then do
      let out ← walkPath nodes m lo (lo + splitPoint (hi - lo))
      let right ← subtreeHash sha256 nodes (lo + splitPoint (hi - lo)) hi
      return out ++ [right]
    else do
      let out ← walkPath nodes (m - splitPoint (hi - lo)) (lo + splitPoint (hi - lo)) hi
      let left ← subtreeHash sha256 nodes lo (lo + splitPoint (hi - lo))
      return out ++ [left]
  else .error .panicked -- no caller asks for an empty range
termination_by hi - lo
decreasing_by
  · have hlt := HashTree.splitPoint_lt ‹2 ≤ hi - lo›
    simp only [splitPoint]
    omega
  · have hpos := HashTree.splitPoint_pos (hi - lo)
    simp only [splitPoint]
    omega

/-- `PATH(leaf_index, D[0:tree_size])`. -/
def path (nodes : NodeSource ε) (leafIndex treeSize : Nat) :
    Except (Fault (TreeError ε)) (List Hash) := do
  let size ← checkedSize nodes treeSize
  if size ≤ leafIndex then refused (.leafOutOfRange leafIndex treeSize)
  else sourceFault (walkPath sha256 nodes leafIndex 0 size)

/-- `SUBPROOF(m, D[lo:hi], complete)`. -/
def walkProof (nodes : NodeSource ε) (m lo hi : Nat) (complete : Bool) :
    Except (Fault ε) (List Hash) :=
  if m = hi - lo then
    if complete then .ok []
    else do
      let whole ← subtreeHash sha256 nodes lo hi
      return [whole]
  else if _ : 2 ≤ hi - lo then
    if m ≤ splitPoint (hi - lo) then do
      let out ← walkProof nodes m lo (lo + splitPoint (hi - lo)) complete
      let right ← subtreeHash sha256 nodes (lo + splitPoint (hi - lo)) hi
      return out ++ [right]
    else do
      let out ← walkProof nodes (m - splitPoint (hi - lo)) (lo + splitPoint (hi - lo)) hi false
      let left ← subtreeHash sha256 nodes lo (lo + splitPoint (hi - lo))
      return out ++ [left]
  else .error .panicked -- every caller has `0 < m ≤ hi - lo`
termination_by hi - lo
decreasing_by
  · have hlt := HashTree.splitPoint_lt ‹2 ≤ hi - lo›
    simp only [splitPoint]
    omega
  · have hpos := HashTree.splitPoint_pos (hi - lo)
    simp only [splitPoint]
    omega

/-- `PROOF(first, D[0:second])`. -/
def proof (nodes : NodeSource ε) (first second : Nat) :
    Except (Fault (TreeError ε)) (List Hash) := do
  let size ← checkedSize nodes second
  if second < first then refused (.backwardsConsistency first second)
  else if first = 0 ∨ first = second then return []
  else sourceFault (walkProof sha256 nodes first 0 size true)

/-! ## The nodes of one append -/

/-- The nodes above the new leaf, while the number of nodes at the level below is even. -/
def parentsAt (level count : Nat) : List (Nat × Nat) :=
  if _ : count % 2 = 0 ∧ 0 < count then
    (level + 1, count / 2 - 1) :: parentsAt (level + 1) (count / 2)
  else []
termination_by count

/-- Which nodes appending the leaf at `leafIndex` makes, in the order they must be stored. -/
def appendedAt (leafIndex : Nat) : List (Nat × Nat) :=
  (0, leafIndex) :: parentsAt 0 (leafIndex + 1)

/-- A node this append has just made, or one that storage already holds. -/
def madeOrStored (nodes : NodeSource ε) (made : List (Nat × Nat × Hash)) (level index : Nat) :
    Except (Fault ε) Hash :=
  match made.reverse.find? (fun n => n.1 = level ∧ n.2.1 = index) with
  | some (_, _, hash) => .ok hash
  | none => nodes.node level index

def appendParents (nodes : NodeSource ε) :
    List (Nat × Nat) → Nat → List (Nat × Nat × Hash) → Except (Fault ε) (List (Nat × Nat × Hash))
  | [], _, made => .ok made
  | (level, index) :: rest, count, made => do
      let left ← madeOrStored nodes made (level - 1) (count - 2)
      let right ← madeOrStored nodes made (level - 1) (count - 1)
      appendParents nodes rest (count / 2) (made ++ [(level, index, nodeHash sha256 left right)])

/-- The nodes that appending `leaf` makes. -/
def appendNodes (nodes : NodeSource ε) (leaf : Hash) :
    Except (Fault ε) (List (Nat × Nat × Hash)) :=
  appendParents sha256 nodes (appendedAt nodes.treeSize).tail (nodes.treeSize + 1)
    [(0, nodes.treeSize, leaf)]

/-- The number of 1 bits. -/
def countOnes (n : Nat) : Nat :=
  if n = 0 then 0 else n % 2 + countOnes (n / 2)

/-- How many nodes a tree of `leaves` leaves holds, in 64 bits. -/
def nodesIn (leaves : Nat) : Nat := (2 * leaves - countOnes leaves) % 2 ^ 64

end Merkle
end VerifiableExchange
