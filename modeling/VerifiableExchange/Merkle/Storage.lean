import VerifiableExchange.Merkle.Source
import VerifiableExchange.Lib.SortedMap

/-!
# Merkle storage

The three places the nodes of the tree are kept: every node in vectors, the right edge alone, and
rows of the sequencer's database. All of them append through `appendNodes`.
-/

namespace VerifiableExchange
namespace Merkle

open Lib

variable (sha256 : Bytes → Hash)

/-! ## Every node, in memory -/

/-- One vector of hashes for each level, the leaves first. -/
structure MerkleTree where
  levels : List (List Hash)
  deriving DecidableEq

namespace MerkleTree

def new : MerkleTree := ⟨[]⟩

def len (tree : MerkleTree) : Nat := (tree.levels.head?.map List.length).getD 0

/-- A node the tree never stored stops the process. -/
def source (tree : MerkleTree) : NodeSource Empty where
  treeSize := tree.len
  node level index :=
    match tree.levels[level]? with
    | none => .error .panicked
    | some hashes =>
        match hashes[index]? with
        | none => .error .panicked
        | some hash => .ok hash

/-- Pushes one made node at its level; where it goes is the end of the level. -/
def store (tree : MerkleTree) (made : Nat × Nat × Hash) : Except (Fault Empty) MerkleTree :=
  let levels := if tree.levels.length = made.1 then tree.levels ++ [[]] else tree.levels
  match levels[made.1]? with
  | none => .error .panicked
  | some hashes => .ok ⟨levels.set made.1 (hashes ++ [made.2.2])⟩

def pushLeafHash (tree : MerkleTree) (leaf : Hash) : Except (Fault Empty) (Nat × MerkleTree) := do
  let index := tree.len
  let made ← appendNodes sha256 tree.source leaf
  let tree ← made.foldlM store tree
  return (index, tree)

def pushEntry (tree : MerkleTree) (entry : Bytes) : Except (Fault Empty) (Nat × MerkleTree) :=
  tree.pushLeafHash sha256 (leafHash sha256 entry)

def fromEntries (entries : List Bytes) : Except (Fault Empty) MerkleTree :=
  entries.foldlM (fun tree entry => do return (← tree.pushEntry sha256 entry).2) new

def rootAt (tree : MerkleTree) (treeSize : Nat) : Except (Fault (TreeError Empty)) Hash :=
  mth sha256 tree.source treeSize

def inclusionProof (tree : MerkleTree) (leafIndex treeSize : Nat) :
    Except (Fault (TreeError Empty)) (List Hash) :=
  path sha256 tree.source leafIndex treeSize

def consistencyProof (tree : MerkleTree) (first second : Nat) :
    Except (Fault (TreeError Empty)) (List Hash) :=
  proof sha256 tree.source first second

end MerkleTree

/-! ## The right edge alone -/

/-- The perfect subtrees on the right edge, and the roots at the sizes asked for. -/
structure RootFold where
  edge : List (Nat × Nat × Hash)
  leaves : Nat
  wanted : List Nat
  roots : SortedMap Nat Hash

namespace RootFold

/-- A node that is not on the edge stops the process. -/
def source (fold : RootFold) : NodeSource Empty where
  treeSize := fold.leaves
  node level index :=
    match fold.edge.find? (fun n => n.1 = level ∧ n.2.1 = index) with
    | some (_, _, hash) => .ok hash
    | none => .error .panicked

/-- `Vec::dedup`. -/
def dropRepeats : List Nat → List Nat
  | a :: b :: rest => if a = b then dropRepeats (b :: rest) else a :: dropRepeats (b :: rest)
  | l => l

/-- The sizes ascending and without repeats; no entry will ever arrive to record size 0. -/
def new (sizes : List Nat) : RootFold :=
  let wanted := dropRepeats (sizes.mergeSort (fun a b => a ≤ b))
  { edge := []
    leaves := 0
    wanted := wanted
    roots := if wanted.head? = some 0 then SortedMap.empty.insert 0 (emptyRoot sha256)
      else SortedMap.empty }

/-- The last node an append makes is the only one still on the edge. -/
def grow (fold : RootFold) (top : Nat × Nat × Hash) : RootFold :=
  { fold with
    edge := fold.edge.filter (fun n => top.1 < n.1) ++ [top]
    leaves := fold.leaves + 1 }

/-- Takes the root at a size that was asked for. `wanted` ascends without repeats, so a binary
search finds what is in it. -/
def keepRoot (fold : RootFold) : Except (Fault Empty) RootFold :=
  if fold.leaves ∈ fold.wanted then
    match mth sha256 fold.source fold.leaves with
    | .ok root => .ok { fold with roots := fold.roots.insert fold.leaves root }
    | .error _ => .error .panicked
  else .ok fold

/-- Adds one leaf and gives the nodes it made. -/
def pushLeafHash (fold : RootFold) (leaf : Hash) :
    Except (Fault Empty) (List (Nat × Nat × Hash) × RootFold) := do
  let made ← appendNodes sha256 fold.source leaf
  match made.getLast? with
  | none => .error .panicked
  | some top =>
      let fold ← (fold.grow top).keepRoot sha256
      return (made, fold)

def pushEntry (fold : RootFold) (entry : Bytes) :
    Except (Fault Empty) (List (Nat × Nat × Hash) × RootFold) :=
  fold.pushLeafHash sha256 (leafHash sha256 entry)

/-- A whole history, with the nodes it made. -/
def pushEntries (fold : RootFold) :
    List Bytes → Except (Fault Empty) (List (Nat × Nat × Hash) × RootFold)
  | [] => .ok ([], fold)
  | entry :: rest => do
      let (made, fold) ← fold.pushEntry sha256 entry
      let (more, fold) ← pushEntries fold rest
      return (made ++ more, fold)

def rootAt (fold : RootFold) (treeSize : Nat) : Option Hash := fold.roots.get? treeSize

end RootFold

/-! ## Rows of the database -/

/-- Why a stored node could not be read back. -/
inductive Unreadable where
  | sql
  | missing (level index : Nat)
  | notAHash (level index bytes : Nat)
  deriving DecidableEq, Repr

/-- A row of `merkle_nodes`; level and index are its primary key. -/
structure NodeRow where
  level : Nat
  idx : Nat
  hash : Bytes
  deriving DecidableEq

/-- `SELECT hash FROM merkle_nodes WHERE level = ?1 AND idx = ?2`. -/
def selectHash (rows : List NodeRow) (level index : Nat) : Option Bytes :=
  (rows.find? (fun row => row.level = level ∧ row.idx = index)).map NodeRow.hash

/-- A plain `INSERT`: a row that is already there refuses it. -/
def insertNode (rows : List NodeRow) (made : Nat × Nat × Hash) :
    Except (Fault Unreadable) (List NodeRow) :=
  if (selectHash rows made.1 made.2.1).isSome then .error (.failed .sql)
  else .ok (rows ++ [⟨made.1, made.2.1, made.2.2.toList⟩])

/-- Where a sequencer's nodes are. -/
inductive Nodes where
  | memory (tree : MerkleTree)
  | disk (rows : List NodeRow) (leaves : Nat)

namespace Nodes

def treeSize : Nodes → Nat
  | memory tree => tree.len
  | disk _ leaves => leaves

def node : Nodes → Nat → Nat → Except (Fault Unreadable) Hash
  | memory tree, level, index =>
      match tree.source.node level index with
      | .ok hash => .ok hash
      | .error _ => .error .panicked
  | disk rows _, level, index =>
      match selectHash rows level index with
      | none => .error (.failed (.missing level index))
      | some bytes =>
          if h : bytes.length = 32 then .ok ⟨bytes.toArray, hash_size h⟩
          else .error (.failed (.notAHash level index bytes.length))

def source (nodes : Nodes) : NodeSource Unreadable := ⟨nodes.treeSize, nodes.node⟩

end Nodes

/-- Appends the leaves to the rows, and counts the rows written. -/
def append (rows : List NodeRow) (leavesBefore : Nat) :
    List Hash → Except (Fault Unreadable) (Nat × List NodeRow)
  | [] => .ok (0, rows)
  | leaf :: rest => do
      let made ← appendNodes sha256 (Nodes.disk rows leavesBefore).source leaf
      let rows ← made.foldlM insertNode rows
      let (written, rows) ← append rows (leavesBefore + 1) rest
      return (made.length + written, rows)

/-- The rows after appending batch after batch. -/
def appendBatches (rows : List NodeRow) (leavesBefore : Nat) :
    List (List Bytes) → Except (Fault Unreadable) (List NodeRow)
  | [] => .ok rows
  | batch :: rest => do
      let (_, rows) ← append sha256 rows leavesBefore (batch.map (leafHash sha256))
      appendBatches rows (leavesBefore + batch.length) rest

end Merkle
end VerifiableExchange
