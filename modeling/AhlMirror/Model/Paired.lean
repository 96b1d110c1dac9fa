import AhlMirror.Model.Server
import AhlMirror.Model.Symbolic

/-!
# The crates as symbols, with nodes that can be taken apart

`Symbolic.crates` with `pairChildren` under every tree function. Its roots bind their leaves, so besides the
laws of the builders it satisfies `CollisionFree`, `LeafLaws`, `InclusionVerifyLaws` and
`ConsistencyVerifyLaws`.
-/

namespace AhlMirror.Symbolic

open AhlMirror.Core Merkle
open Merkle.NodeQuery (done)

/-- The instance whose roots bind their leaves. -/
def bindingCrates (documents : List (Bytes × Value)) : Crates Bytes String :=
  { pairedCrates documents with
    computeSubtreeRoot offset size := subtreeWalk pairChildren miss offset size
    generateInclusionProof leafIndex treeSize :=
      (pathWalk pairChildren miss 0 treeSize leafIndex).andThen fun path => done (.ok ⟨leafIndex, treeSize, path⟩)
    generateConsistencyProof fromSize toSize :=
      (consistencyWalk pairChildren miss fromSize toSize).andThen fun path => done (.ok ⟨fromSize, toSize, path⟩)
    verifyInclusion leaf proof root := .ok (decide (proof.leafIndex < proof.treeSize) &&
      decide (openPath pairChildren proof.treeSize proof.leafIndex leaf proof.path = some root))
    verifyConsistency proof fromRoot toRoot := .ok (decide
      (openConsistency pairChildren fromRoot proof.fromSize proof.toSize proof.path = some (fromRoot, toRoot))) }

/-- What stands for the crates in a run on the small log. -/
abbrev binding : Crates Bytes String := bindingCrates documents

namespace Binding

theorem viewLaws : ViewLaws binding := ⟨.of_walk fun _ _ => rfl, .of_walk fun _ _ => rfl⟩

theorem inclusionProofLaws : InclusionProofLaws binding := .of_walk fun _ _ => rfl

theorem verifyInclusion_iff {leaf root : Bytes} {proof : InclusionProof Bytes} :
    binding.verifyInclusion leaf proof root = .ok true ↔ proof.leafIndex < proof.treeSize ∧
      openPath pairChildren proof.treeSize proof.leafIndex leaf proof.path = some root := by
  show Except.ok (_ && _) = Except.ok true ↔ _
  rw [Except.ok.injEq, Bool.and_eq_true, decide_eq_true_eq, decide_eq_true_eq]

theorem verifyConsistency_iff {fromRoot toRoot : Bytes} {proof : ConsistencyProof Bytes} :
    binding.verifyConsistency proof fromRoot toRoot = .ok true ↔
      openConsistency pairChildren fromRoot proof.fromSize proof.toSize proof.path = some (fromRoot, toRoot) := by
  show Except.ok (decide _) = Except.ok true ↔ _
  rw [Except.ok.injEq, decide_eq_true_eq]

theorem inclusionLaws : InclusionLaws binding where
  proofFromHex := (Symbolic.inclusionLaws documents).proofFromHex
  verifyInclusion h := (verifyInclusion_iff.1 h).1

theorem pathLaws : PathLaws binding where
  verifyInclusion leaf leafIndex treeSize hlt := by
    have hopens : openPath pairChildren treeSize leafIndex (leaf (0 + leafIndex)) _ = _ :=
      openPath_auditPath pairChildren leaf hlt
    rw [Nat.zero_add] at hopens
    exact verifyInclusion_iff.2 ⟨hlt, hopens⟩
  proofFromHex := (Symbolic.pathLaws documents).proofFromHex

theorem consistencyLaws : ConsistencyLaws binding where
  verifyConsistency leaf _ _ hpos hle := verifyConsistency_iff.2 (openConsistency_consistencyPath pairChildren leaf hpos hle)

theorem inclusionVerifyLaws : InclusionVerifyLaws binding where
  verifyInclusion h := (verifyInclusion_iff.1 h).2

theorem consistencyVerifyLaws : ConsistencyVerifyLaws binding where
  verifyConsistency _ _ h := verifyConsistency_iff.1 h

theorem collisionFree : CollisionFree binding := ⟨pairChildren_injective⟩

theorem rangeVerifyLaws : RangeVerifyLaws binding := ⟨(Symbolic.rangeVerifyLaws documents).verify⟩

theorem leafLaws : LeafLaws binding where
  digest _ _ h := h
  computeLeafHash _ _ _ h := h

/-- The root of some entries. -/
def root (entries : List Bytes) : Bytes := mth pairChildren [] entries

/-- The promotion of the entry at an index of a log, with its path. -/
def pending (entries : List Bytes) (index : Nat) : PendingPromotion :=
  ⟨hashText (leafOf entries index), index, (auditPath pairChildren (leafOf entries) 0 entries.length index).map hashText⟩

/-- The store after a run over the small log. -/
def after (calls : List Call) : Db := storeAfter binding config calls

end Binding

end AhlMirror.Symbolic
