import VerifiableExchange.Merkle.Source

/-!
# Merkle reads that fail

Storage may refuse to give back a node it holds. A walk over such storage answers what it answers
over storage that refuses nothing, or it answers with the refusal.
-/

namespace VerifiableExchange
namespace Merkle

open Lib

variable {ε ε' α β : Type} {reason : ε → ε'}

/-- The whole answer, or a refused read in its place, as the answer reports one. -/
def Interrupted (reason : ε → ε') (x whole : Except (Fault ε') α) : Prop :=
  x = whole ∨ ∃ e, x = .error (.failed (reason e))

namespace Interrupted

theorem refl (x : Except (Fault ε') α) : Interrupted reason x x := Or.inl rfl

theorem refused (e : ε) (whole : Except (Fault ε') α) :
    Interrupted reason (.error (.failed (reason e))) whole :=
  Or.inr ⟨e, rfl⟩

theorem bind {x whole : Except (Fault ε') α} {f g : α → Except (Fault ε') β}
    (h : Interrupted reason x whole) (hfg : ∀ a, Interrupted reason (f a) (g a)) :
    Interrupted reason (x >>= f) (whole >>= g) := by
  rcases h with rfl | ⟨e, rfl⟩
  · cases x with
    | error fault => exact refl _
    | ok a => exact hfg a
  · exact refused e _

theorem sourceFault {x whole : Except (Fault ε) α} (h : Interrupted id x whole) :
    Interrupted TreeError.source (sourceFault x) (sourceFault whole) := by
  rcases h with rfl | ⟨e, rfl⟩
  · exact refl _
  · exact refused e _

/-- What is answered is the whole answer. -/
theorem eq_ok {x whole : Except (Fault ε') α} {a : α} (h : Interrupted reason x whole)
    (hx : x = .ok a) : whole = .ok a := by
  rcases h with rfl | ⟨e, rfl⟩
  · exact hx
  · cases hx

end Interrupted

/-- Storage that holds what `whole` holds and may refuse to give it back. -/
structure Refusing (nodes whole : NodeSource ε) : Prop where
  size : nodes.treeSize = whole.treeSize
  node : ∀ level index, Interrupted id (nodes.node level index) (whole.node level index)

namespace Refusing

variable {sha256 : Bytes → Hash} {nodes whole : NodeSource ε}

theorem checkedSize (h : Refusing nodes whole) (treeSize : Nat) :
    Interrupted TreeError.source (checkedSize nodes treeSize) (checkedSize whole treeSize) := by
  rw [Merkle.checkedSize, Merkle.checkedSize, h.size]
  exact .refl _

theorem subtreeHash (h : Refusing nodes whole) (lo hi : Nat) :
    Interrupted id (subtreeHash sha256 nodes lo hi) (subtreeHash sha256 whole lo hi) := by
  induction hn : hi - lo using Nat.strong_induction_on generalizing lo hi with
  | _ size ih =>
      rw [Merkle.subtreeHash.eq_def sha256 nodes, Merkle.subtreeHash.eq_def sha256 whole]
      split_ifs with haligned hsize
      · exact h.node _ _
      · have hsplit := HashTree.splitPoint_lt hsize
        have hpos := HashTree.splitPoint_pos (hi - lo)
        simp only [splitPoint]
        have hleft := ih _ (by omega) lo (lo + HashTree.splitPoint (hi - lo)) rfl
        have hright := ih _ (by omega) (lo + HashTree.splitPoint (hi - lo)) hi rfl
        exact hleft.bind fun _ => hright.bind fun _ => .refl _
      · exact .refl _

theorem walkPath (h : Refusing nodes whole) (m lo hi : Nat) :
    Interrupted id (walkPath sha256 nodes m lo hi) (walkPath sha256 whole m lo hi) := by
  induction hn : hi - lo using Nat.strong_induction_on generalizing m lo hi with
  | _ size ih =>
      rw [Merkle.walkPath.eq_def sha256 nodes, Merkle.walkPath.eq_def sha256 whole]
      split_ifs with hone hsize hside
      · exact .refl _
      · have hsplit := HashTree.splitPoint_lt hsize
        simp only [splitPoint]
        have hpath := ih _ (by omega) m lo (lo + HashTree.splitPoint (hi - lo)) rfl
        exact hpath.bind fun _ => (h.subtreeHash _ _).bind fun _ => .refl _
      · have hpos := HashTree.splitPoint_pos (hi - lo)
        simp only [splitPoint]
        have hpath := ih _ (by omega) (m - HashTree.splitPoint (hi - lo))
          (lo + HashTree.splitPoint (hi - lo)) hi rfl
        exact hpath.bind fun _ => (h.subtreeHash _ _).bind fun _ => .refl _
      · exact .refl _

theorem walkProof (h : Refusing nodes whole) (m lo hi : Nat) (complete : Bool) :
    Interrupted id (walkProof sha256 nodes m lo hi complete)
      (walkProof sha256 whole m lo hi complete) := by
  induction hn : hi - lo using Nat.strong_induction_on generalizing m lo hi complete with
  | _ size ih =>
      rw [Merkle.walkProof.eq_def sha256 nodes, Merkle.walkProof.eq_def sha256 whole]
      split_ifs with hwhole hcomplete hsize hside
      · exact .refl _
      · exact (h.subtreeHash lo hi).bind fun _ => .refl _
      · have hsplit := HashTree.splitPoint_lt hsize
        simp only [splitPoint]
        have hproof := ih _ (by omega) m lo (lo + HashTree.splitPoint (hi - lo)) complete rfl
        exact hproof.bind fun _ => (h.subtreeHash _ _).bind fun _ => .refl _
      · have hpos := HashTree.splitPoint_pos (hi - lo)
        simp only [splitPoint]
        have hproof := ih _ (by omega) (m - HashTree.splitPoint (hi - lo))
          (lo + HashTree.splitPoint (hi - lo)) hi false rfl
        exact hproof.bind fun _ => (h.subtreeHash _ _).bind fun _ => .refl _
      · exact .refl _

theorem mth (h : Refusing nodes whole) (treeSize : Nat) :
    Interrupted TreeError.source (mth sha256 nodes treeSize) (mth sha256 whole treeSize) := by
  refine (h.checkedSize treeSize).bind fun size => ?_
  split_ifs
  · exact .refl _
  · exact (h.subtreeHash 0 size).sourceFault

theorem path (h : Refusing nodes whole) (leafIndex treeSize : Nat) :
    Interrupted TreeError.source (path sha256 nodes leafIndex treeSize) (path sha256 whole leafIndex treeSize) := by
  refine (h.checkedSize treeSize).bind fun size => ?_
  split_ifs
  · exact .refl _
  · exact (h.walkPath leafIndex 0 size).sourceFault

theorem proof (h : Refusing nodes whole) (first second : Nat) :
    Interrupted TreeError.source (proof sha256 nodes first second) (proof sha256 whole first second) := by
  refine (h.checkedSize second).bind fun size => ?_
  split_ifs
  · exact .refl _
  · exact .refl _
  · exact (h.walkProof first 0 size true).sourceFault

end Refusing

end Merkle
end VerifiableExchange
