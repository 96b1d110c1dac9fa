import AhlMirror.Core.Calendar
import AhlMirror.Merkle.Cost
import AhlMirror.Merkle.Recompute
import AhlMirror.Merkle.Verify
import AhlMirror.Model.Basic

/-!
# What the proofs take of the crates

The behaviour of `atl-core` and `ahl-core` that results about roots and proofs rest on, one structure
for each group of functions. A result names the structures it uses; results that name none hold
whatever these functions do.
-/

namespace AhlMirror

open AhlMirror.Core Merkle

variable {H K : Type}

/-- A size is split at the largest power of two below it. -/
structure SplitLaws (crates : Crates H K) : Prop where
  largestPowerOf2LessThan : ∀ size, 2 ≤ size → crates.largestPowerOf2LessThan size = splitPoint size

/-- The root of a list of leaves is its RFC 6962 tree hash. -/
structure RootLaws (crates : Crates H K) : Prop where
  computeRoot : ∀ leaves, crates.computeRoot leaves = mth crates.hashChildren (crates.digest []) leaves

/-! Against a store that holds the leaves and is sound on the higher nodes it holds, a builder yields the value of
the RFC, in whatever order it reads the nodes, and it reads none outside its span. -/

/-- The root of a span is its RFC 6962 tree hash. -/
structure SubtreeLaws (crates : Crates H K) : Prop where
  computeSubtreeRoot_asks : ∀ {offset size : Nat}, 1 ≤ size →
    (crates.computeSubtreeRoot offset size).Asks (InSpan offset size)
  computeSubtreeRoot : ∀ {leaf : Nat → H} {bound : Nat} {get : Nat → Nat → Option H} {offset size : Nat},
    Opens crates.hashChildren leaf bound get → 1 ≤ size → offset + size ≤ bound →
      (crates.computeSubtreeRoot offset size).eval get = .ok (spanRoot crates.hashChildren leaf offset size)

/-- An inclusion proof carries the RFC 6962 audit path. -/
structure InclusionProofLaws (crates : Crates H K) : Prop where
  generateInclusionProof_asks : ∀ {leafIndex treeSize : Nat}, leafIndex < treeSize →
    (crates.generateInclusionProof leafIndex treeSize).Asks (InSpan 0 treeSize)
  generateInclusionProof : ∀ {leaf : Nat → H} {bound : Nat} {get : Nat → Nat → Option H} {leafIndex treeSize : Nat},
    Opens crates.hashChildren leaf bound get → leafIndex < treeSize → treeSize ≤ bound →
      (crates.generateInclusionProof leafIndex treeSize).eval get =
        .ok ⟨leafIndex, treeSize, auditPath crates.hashChildren leaf 0 treeSize leafIndex⟩

/-- A consistency proof carries the RFC 9162 consistency path. -/
structure ConsistencyProofLaws (crates : Crates H K) : Prop where
  generateConsistencyProof_asks : ∀ {fromSize toSize : Nat}, fromSize ≤ toSize →
    (crates.generateConsistencyProof fromSize toSize).Asks (InSpan 0 toSize)
  generateConsistencyProof : ∀ {leaf : Nat → H} {bound : Nat} {get : Nat → Nat → Option H} {fromSize toSize : Nat},
    Opens crates.hashChildren leaf bound get → fromSize ≤ toSize → toSize ≤ bound →
      (crates.generateConsistencyProof fromSize toSize).eval get =
        .ok ⟨fromSize, toSize, consistencyPath crates.hashChildren leaf fromSize toSize⟩

/-- What the view of the series rests on. -/
structure ViewLaws (crates : Crates H K) : Prop extends SubtreeLaws crates, ConsistencyProofLaws crates

/-! Where every node is held, a builder reads no more nodes than the RFC recursion does; `miss` is the recursion's
error for a leaf that is not held. -/

/-- A root is read off as many nodes as the recursion reads. -/
structure SubtreeReadLaws (crates : Crates H K) (miss : Nat → AtlError) : Prop where
  computeSubtreeRoot : ∀ {leaf : Nat → H} {bound : Nat} {get : Nat → Nat → Option H} {offset size : Nat},
    Full crates.hashChildren leaf bound get → 1 ≤ size → offset + size ≤ bound →
      (crates.computeSubtreeRoot offset size).cost get = (subtreeWalk crates.hashChildren miss offset size).cost get

structure InclusionProofReadLaws (crates : Crates H K) (miss : Nat → AtlError) : Prop where
  generateInclusionProof : ∀ {leaf : Nat → H} {bound : Nat} {get : Nat → Nat → Option H} {leafIndex treeSize : Nat},
    Full crates.hashChildren leaf bound get → leafIndex < treeSize → treeSize ≤ bound →
      (crates.generateInclusionProof leafIndex treeSize).cost get ≤
        (pathWalk crates.hashChildren miss 0 treeSize leafIndex).cost get

structure ConsistencyProofReadLaws (crates : Crates H K) (miss : Nat → AtlError) : Prop where
  generateConsistencyProof : ∀ {leaf : Nat → H} {bound : Nat} {get : Nat → Nat → Option H} {fromSize toSize : Nat},
    Full crates.hashChildren leaf bound get → fromSize ≤ toSize → toSize ≤ bound →
      (crates.generateConsistencyProof fromSize toSize).cost get ≤
        (consistencyWalk crates.hashChildren miss fromSize toSize).cost get

/-- Whatever it is called with, a builder asks only for perfect subtrees inside the span it opens. -/
structure SpanLaws (crates : Crates H K) : Prop where
  computeSubtreeRoot : ∀ offset size, (crates.computeSubtreeRoot offset size).Asks (InSpan offset size)
  generateInclusionProof : ∀ leafIndex treeSize, (crates.generateInclusionProof leafIndex treeSize).Asks (InSpan 0 treeSize)
  generateConsistencyProof : ∀ fromSize toSize, (crates.generateConsistencyProof fromSize toSize).Asks (InSpan 0 toSize)

/-- An inclusion proof carries the index and size it is parsed with, and a proof of an index outside
its tree is never accepted. -/
structure InclusionLaws (crates : Crates H K) : Prop where
  proofFromHex : ∀ {leafIndex treeSize : Nat} {path : List String} {proof : InclusionProof H},
    crates.proofFromHex leafIndex treeSize path = .ok proof → proof.leafIndex = leafIndex ∧ proof.treeSize = treeSize
  verifyInclusion : ∀ {leaf root : H} {proof : InclusionProof H},
    crates.verifyInclusion leaf proof root = .ok true → proof.leafIndex < proof.treeSize

/-- A genuine inclusion proof is accepted, and hex renders a proof so that it parses back. -/
structure PathLaws (crates : Crates H K) : Prop where
  verifyInclusion : ∀ (leaf : Nat → H) (leafIndex treeSize : Nat), leafIndex < treeSize →
    crates.verifyInclusion (leaf leafIndex) ⟨leafIndex, treeSize, auditPath crates.hashChildren leaf 0 treeSize leafIndex⟩
      (spanRoot crates.hashChildren leaf 0 treeSize) = .ok true
  proofFromHex : ∀ proof, crates.proofFromHex proof.leafIndex proof.treeSize (crates.proofPathHex proof) = .ok proof

/-- A genuine consistency proof is accepted. -/
structure ConsistencyLaws (crates : Crates H K) : Prop where
  verifyConsistency : ∀ (leaf : Nat → H) (fromSize toSize : Nat), 1 ≤ fromSize → fromSize ≤ toSize →
    crates.verifyConsistency ⟨fromSize, toSize, consistencyPath crates.hashChildren leaf fromSize toSize⟩
      (spanRoot crates.hashChildren leaf 0 fromSize) (spanRoot crates.hashChildren leaf 0 toSize) = .ok true

/-- `range_proof`: generation emits, left to right, the roots of the maximal subtrees outside the
window; verification is the matching recomputation; decoding inverts encoding. -/
structure RangeLaws (crates : Crates H K) : Prop where
  generate : ∀ (leaves : List H) (leaf : Nat → H) (start stop : Nat), start < stop → stop ≤ leaves.length →
    (∀ i (h : i < leaves.length), leaf i = leaves[i]) →
    ∃ spans : List (Nat × Nat), (spans.Pairwise fun a b => a.1 < b.1) ∧
      (∀ o s, (o, s) ∈ spans ↔ MaximalOutside start stop 0 leaves.length o s) ∧
      crates.rangeProofGenerate leaves start stop = .ok ⟨leaves.length, start, stop,
        spans.map fun span => spanRoot crates.hashChildren leaf span.1 span.2⟩
  verify : ∀ (treeSize start stop : Nat) (nodes window : List H) (leaf : Nat → H) (root : H), start < stop →
    stop ≤ treeSize → window.length = stop - start → (∀ i (h : i < window.length), leaf (start + i) = window[i]) →
    rebuild crates.hashChildren leaf start stop 0 treeSize nodes = some (root, []) →
    crates.rangeProofVerify ⟨treeSize, start, stop, nodes⟩ window root = .ok true
  decode : ∀ proof, crates.rangeProofDecode (crates.rangeProofEncode proof) = .ok proof

/-- A range proof is accepted only with as many leaves as its window is long, and only where the recomputation
that uses up the leaves and the carried roots yields the root. -/
structure RangeVerifyLaws (crates : Crates H K) : Prop where
  verify : ∀ {proof : RangeProof H} {leaves : List H} {root : H}, crates.rangeProofVerify proof leaves root = .ok true →
    proof.fromIndex + leaves.length = proof.toIndex ∧
      recompute crates.hashChildren (crates.digest []) proof.fromIndex proof.toIndex 0 proof.treeSize leaves proof.nodes =
        some (root, [], [])

/-- No two pairs of nodes have one parent. -/
structure CollisionFree (crates : Crates H K) : Prop where
  hashChildren : Function.Injective2 crates.hashChildren

/-- An inclusion proof is accepted only where its path opens the root. -/
structure InclusionVerifyLaws (crates : Crates H K) : Prop where
  verifyInclusion : ∀ {leaf root : H} {proof : InclusionProof H}, crates.verifyInclusion leaf proof root = .ok true →
    openPath crates.hashChildren proof.treeSize proof.leafIndex leaf proof.path = some root

/-- A consistency proof is accepted only where its path opens both roots. -/
structure ConsistencyVerifyLaws (crates : Crates H K) : Prop where
  verifyConsistency : ∀ {fromRoot toRoot : H} {proof : ConsistencyProof H}, 1 ≤ proof.fromSize →
    proof.fromSize ≤ proof.toSize → crates.verifyConsistency proof fromRoot toRoot = .ok true →
    openConsistency crates.hashChildren fromRoot proof.fromSize proof.toSize proof.path = some (fromRoot, toRoot)

/-- No two payloads have one leaf hash. -/
structure LeafLaws (crates : Crates H K) : Prop where
  digest : Function.Injective crates.digest
  computeLeafHash : ∀ metadata, Function.Injective fun payload => crates.computeLeafHash payload metadata

/-- A key id tells the key: the octets of a key name it, and its id is a digest no two of them share. -/
structure KeyIdLaws (crates : Crates H K) : Prop where
  computeKeyId : ∀ key key', crates.computeKeyId (crates.keyBytes key) = crates.computeKeyId (crates.keyBytes key') →
    key = key'

/-- A civil time under the checkpoint format, `[year]-[month]-[day]T[hour]:[minute]:[second].[subsecond digits:9]Z`. -/
def profileText (t : CivilTime) : String :=
  String.ofList (fixed 4 t.year ++ '-' :: (fixed 2 t.month ++ '-' :: (fixed 2 t.day ++ 'T' :: (fixed 2 t.hour ++ ':' ::
    (fixed 2 t.minute ++ ':' :: (fixed 2 t.second ++ '.' :: (fixed 9 t.nanosecond ++ ['Z'])))))))

/-- The first day of 1970. -/
@[irreducible] def unixEpochDay : Nat := offset yearLength 1970

def unixEpoch : Nat := unixEpochDay * 86400000000000

/-- The time crate implements the proleptic Gregorian calendar for the checkpoint format, in years of four
digits. Of the parser only what it makes of a rendered time is used. -/
structure TimeLaws (crates : Crates H K) : Prop where
  format : ∀ t : CivilTime, t.year ≤ 9999 → crates.formatUnixNanos ((t.instant : Int) - unixEpoch) = some (profileText t)
  parse : ∀ t : CivilTime, t.year ≤ 9999 →
    crates.parsePrimitiveDateTime (profileText t) = some ((t.instant : Int) - unixEpoch)

/-! ### The recursions as builders -/

section recursions
open NodeQuery (done asks_done eval_andThen cost_andThen)
variable {crates : Crates H K} {miss : Nat → AtlError}

theorem SubtreeLaws.of_walk (h : ∀ offset size,
    crates.computeSubtreeRoot offset size = subtreeWalk crates.hashChildren miss offset size) : SubtreeLaws crates where
  computeSubtreeRoot_asks {offset size} hsize := by
    rw [h]
    exact subtreeWalk_asks crates.hashChildren miss hsize
  computeSubtreeRoot {leaf bound get offset size} hget hsize hbound := by
    rw [h]
    exact subtreeWalk_eval crates.hashChildren miss hget hsize hbound

theorem InclusionProofLaws.of_walk (h : ∀ leafIndex treeSize, crates.generateInclusionProof leafIndex treeSize =
    (pathWalk crates.hashChildren miss 0 treeSize leafIndex).andThen fun path => done (.ok ⟨leafIndex, treeSize, path⟩)) :
    InclusionProofLaws crates where
  generateInclusionProof_asks {leafIndex treeSize} _ := by
    rw [h]
    exact NodeQuery.Asks.andThen (fun path => asks_done _ _) (pathWalk_asks crates.hashChildren miss 0 treeSize leafIndex)
  generateInclusionProof {leaf bound get leafIndex treeSize} hget _ hbound := by
    rw [h, eval_andThen, pathWalk_eval crates.hashChildren miss hget leafIndex (by omega)]
    rfl

theorem ConsistencyProofLaws.of_walk (h : ∀ fromSize toSize, crates.generateConsistencyProof fromSize toSize =
    (consistencyWalk crates.hashChildren miss fromSize toSize).andThen fun path => done (.ok ⟨fromSize, toSize, path⟩)) :
    ConsistencyProofLaws crates where
  generateConsistencyProof_asks {fromSize toSize} _ := by
    rw [h]
    exact NodeQuery.Asks.andThen (fun path => asks_done _ _) (consistencyWalk_asks crates.hashChildren miss fromSize toSize)
  generateConsistencyProof {leaf bound get fromSize toSize} hget hle hbound := by
    rw [h, eval_andThen, consistencyWalk_eval crates.hashChildren miss hget hle hbound]
    rfl

theorem InclusionProofReadLaws.of_walk (h : ∀ leafIndex treeSize, crates.generateInclusionProof leafIndex treeSize =
    (pathWalk crates.hashChildren miss 0 treeSize leafIndex).andThen fun path => done (.ok ⟨leafIndex, treeSize, path⟩)) :
    InclusionProofReadLaws crates miss where
  generateInclusionProof {leaf bound get leafIndex treeSize} hget _ hbound := by
    rw [h, cost_andThen (pathWalk_eval crates.hashChildren miss hget.toOpens leafIndex (by omega))]
    exact le_rfl

theorem ConsistencyProofReadLaws.of_walk (h : ∀ fromSize toSize, crates.generateConsistencyProof fromSize toSize =
    (consistencyWalk crates.hashChildren miss fromSize toSize).andThen fun path => done (.ok ⟨fromSize, toSize, path⟩)) :
    ConsistencyProofReadLaws crates miss where
  generateConsistencyProof {leaf bound get fromSize toSize} hget hle hbound := by
    rw [h, cost_andThen (consistencyWalk_eval crates.hashChildren miss hget.toOpens hle hbound)]
    exact le_rfl

end recursions

end AhlMirror
