import AhlMirror.Model.Http

/-!
# What a read depends on

A check against the stored tree reads `entries`, and `subtree_roots` by key (`SameNodes`); a route reads the
two checkpoint tables besides (`SameTables`). Nothing reads `staged_entries` but staging, promotion and
admission.
-/

namespace AhlMirror

/-- The same canonical entries, and the same derived node under every key. -/
structure SameNodes (db other : Db) : Prop where
  entries : other.entries = db.entries
  subtreeBlob : ∀ level index, subtreeBlob other level index = subtreeBlob db level index

/-- The same canonical entries and derived nodes. -/
structure SameTree (db other : Db) : Prop where
  entries : other.entries = db.entries
  subtreeRoots : other.subtreeRoots = db.subtreeRoots

/-- The same rows in all tables but the staged ones. -/
structure SameTables (db other : Db) : Prop extends SameTree db other where
  checkpoints : other.checkpoints = db.checkpoints
  rotationCheckpoints : other.rotationCheckpoints = db.rotationCheckpoints

variable {H K : Type} [HashOctets H] (crates : Crates H K) (config : Config K) {db other : Db}

/-! ### The tree -/

theorem SameTree.refl (db : Db) : SameTree db db := ⟨rfl, rfl⟩

theorem SameTree.symm (h : SameTree db other) : SameTree other db := ⟨h.entries.symm, h.subtreeRoots.symm⟩

theorem SameTree.nodes (h : SameTree db other) : SameNodes db other where
  entries := h.entries
  subtreeBlob level index := by
    unfold AhlMirror.subtreeBlob
    rw [h.subtreeRoots]

namespace SameNodes

variable (h : SameNodes db other)
include h

theorem entryAt : entryAt other = entryAt db := by
  funext index
  unfold AhlMirror.entryAt
  rw [h.entries]

theorem getEntryById : getEntryById other = getEntryById db := by
  funext entryId
  unfold AhlMirror.getEntryById
  rw [h.entries]

theorem nextIndex : nextIndex other = nextIndex db := by
  unfold AhlMirror.nextIndex maxEntryIndex
  rw [h.entries]

theorem entryRows : entryRows other = entryRows db := by
  funext fromIndex toIndex
  unfold AhlMirror.entryRows
  rw [h.entries]

theorem getEntriesRangeRaw : getEntriesRangeRaw other = getEntriesRangeRaw db := by
  funext fromIndex toIndex
  unfold AhlMirror.getEntriesRangeRaw
  rw [h.entryRows]

theorem countEntriesRaw : countEntriesRaw other = countEntriesRaw db := by
  funext fromIndex toIndex
  unfold AhlMirror.countEntriesRaw
  rw [h.entryRows]

theorem leafHashesRangeRaw : leafHashesRangeRaw (H := H) other = leafHashesRangeRaw db := by
  funext fromIndex toIndex
  unfold AhlMirror.leafHashesRangeRaw
  rw [h.entryRows]

theorem treeNodeRaw : treeNodeRaw (H := H) other = treeNodeRaw db := by
  funext level index
  unfold AhlMirror.treeNodeRaw
  simp only [h.entryAt, h.subtreeBlob]

theorem withTreeNodes {α : Type} {bound : Nat} {f : Merkle.NodeQuery H (Except AtlError α)} :
    withTreeNodes other bound f = withTreeNodes db bound f := by
  have hnode : getNode (H := H) other bound = getNode db bound := by
    funext level index reads
    unfold getNode
    rw [h.treeNodeRaw]
  unfold AhlMirror.withTreeNodes
  rw [hnode]

theorem inclusionProofRaw : inclusionProofRaw crates other = inclusionProofRaw crates db := by
  funext leafIndex treeSize
  unfold AhlMirror.inclusionProofRaw
  rw [h.withTreeNodes]

theorem subtreeRootRaw : subtreeRootRaw crates other = subtreeRootRaw crates db := by
  funext offset size
  unfold AhlMirror.subtreeRootRaw
  rw [h.withTreeNodes]

theorem logRootRaw : logRootRaw crates other = logRootRaw crates db := by
  funext treeSize
  unfold AhlMirror.logRootRaw
  rw [h.subtreeRootRaw]

theorem consistencyProofMeasuredRaw :
    consistencyProofMeasuredRaw crates other = consistencyProofMeasuredRaw crates db := by
  funext fromSize toSize
  unfold AhlMirror.consistencyProofMeasuredRaw
  rw [h.countEntriesRaw, h.withTreeNodes]

theorem requireSubtreeCacheRaw : requireSubtreeCacheRaw (H := H) other = requireSubtreeCacheRaw (H := H) db := by
  funext treeSize
  have hloop : ∀ level offset : Nat,
      requireSubtreeCacheLoop (H := H) other treeSize level offset = requireSubtreeCacheLoop (H := H) db treeSize level offset := by
    intro level
    induction level with
    | zero => exact fun _ => rfl
    | succ level ih =>
      intro offset
      unfold requireSubtreeCacheLoop
      rw [h.treeNodeRaw]
      simp only [ih]
  exact hloop _ _

theorem holdsPrefix : holdsPrefix (H := H) other = holdsPrefix (H := H) db := by
  funext treeSize
  unfold AhlMirror.holdsPrefix
  rw [h.countEntriesRaw, h.requireSubtreeCacheRaw (H := H)]

theorem resolveGovernanceFor : resolveGovernanceFor crates config other = resolveGovernanceFor crates config db := by
  funext treeSize
  unfold AhlMirror.resolveGovernanceFor
  rw [h.getEntriesRangeRaw]

theorem extendFrontier {floor : Option Nat} : ∀ {rest : List Checkpoint} {frontier prevTime : Nat} {prev : Checkpoint},
    extendFrontier crates config other floor frontier prev prevTime rest =
      extendFrontier crates config db floor frontier prev prevTime rest
  | [], _, _, _ => rfl
  | cp :: rest, frontier, prevTime, prev => by
    unfold AhlMirror.extendFrontier
    rw [h.resolveGovernanceFor]
    simp only [extendFrontier]

theorem computeGapFreeFrontier {usable : List Checkpoint} {floor : Option Nat} :
    computeGapFreeFrontier crates config other usable floor = computeGapFreeFrontier crates config db usable floor := by
  cases usable with
  | nil => rfl
  | cons first rest =>
    unfold AhlMirror.computeGapFreeFrontier
    rw [h.resolveGovernanceFor]
    simp only [h.extendFrontier crates config]

theorem retrieveById : retrieveById crates other = retrieveById crates db := by
  funext entryId
  unfold AhlMirror.retrieveById
  rw [h.getEntryById]

variable [DecidableEq H]

theorem contradictsStored : contradictsStored crates other = contradictsStored crates db := by
  funext treeSize claimedRoot
  unfold AhlMirror.contradictsStored
  rw [h.holdsPrefix (H := H), h.logRootRaw]

theorem judgeMember : judgeMember crates other = judgeMember crates db := by
  funext cp lastUsable
  unfold AhlMirror.judgeMember seriesUsableStored rootMatchesStored seriesConsistencyStored
  rw [h.holdsPrefix (H := H), h.logRootRaw, h.consistencyProofMeasuredRaw]

theorem judgeMembers : ∀ {rows : List Checkpoint} {lastUsable : Option Checkpoint},
    judgeMembers crates other lastUsable rows = judgeMembers crates db lastUsable rows
  | [], _ => rfl
  | cp :: rest, lastUsable => by
    unfold AhlMirror.judgeMembers
    rw [h.judgeMember]
    simp only [judgeMembers]

theorem buildRangeResponse : buildRangeResponse crates other = buildRangeResponse crates db := by
  have hopen : ∀ treeNodes offset size : Nat,
      openSubtree crates other treeNodes offset size = openSubtree crates db treeNodes offset size := by
    intro treeNodes offset size
    unfold openSubtree
    rw [h.subtreeRootRaw]
  have hspans : ∀ (spans : List (Nat × Nat)) (treeNodes : Nat),
      openSubtrees crates other spans treeNodes = openSubtrees crates db spans treeNodes := by
    intro spans
    induction spans with
    | nil => exact fun _ => rfl
    | cons span spans ih =>
      intro treeNodes
      obtain ⟨offset, size⟩ := span
      unfold openSubtrees
      simp only [hopen, ih]
  funext cp fromIndex toIndex
  unfold AhlMirror.buildRangeResponse buildRangeResponseIn
  rw [h.countEntriesRaw, h.leafHashesRangeRaw, h.getEntriesRangeRaw]
  simp only [hopen, hspans]

end SameNodes

/-! ### The routes -/

variable [DecidableEq H]

/-- The same nodes, and the same answers about the checkpoint tables. -/
structure SameReads (db other : Db) : Prop extends SameNodes db other where
  seriesView : seriesView crates config other = seriesView crates config db
  rotationRows : rotationRows other = rotationRows db

theorem SameTables.refl (db : Db) : SameTables db db := ⟨SameTree.refl db, rfl, rfl⟩

theorem SameTables.reads (h : SameTables db other) : SameReads crates config db other where
  toSameNodes := h.toSameTree.nodes
  seriesView := by
    unfold AhlMirror.seriesView authenticatedCheckpoints allCheckpoints allRotationCheckpoints
    rw [h.checkpoints, h.rotationCheckpoints, h.toSameTree.nodes.judgeMembers]
    simp only [h.toSameTree.nodes.computeGapFreeFrontier crates config]
  rotationRows := by
    funext index
    unfold AhlMirror.rotationRows
    rw [h.rotationCheckpoints]

namespace SameReads

variable {crates config} (h : SameReads crates config db other)
include h

theorem seriesUsableCheckpoint : seriesUsableCheckpoint crates config other = seriesUsableCheckpoint crates config db := by
  funext treeSize
  unfold AhlMirror.seriesUsableCheckpoint
  rw [h.seriesView]

theorem rangeHandler : rangeHandler crates config other = rangeHandler crates config db := by
  funext req
  unfold AhlMirror.rangeHandler
  rw [h.seriesUsableCheckpoint, h.toSameNodes.buildRangeResponse]

theorem getCheckpointHandler : getCheckpointHandler crates config other = getCheckpointHandler crates config db := by
  funext treeSize
  unfold AhlMirror.getCheckpointHandler
  rw [h.seriesView]

theorem consistencyHandler : consistencyHandler crates config other = consistencyHandler crates config db := by
  funext fromSize toSize
  unfold AhlMirror.consistencyHandler
  rw [h.seriesUsableCheckpoint, h.toSameNodes.consistencyProofMeasuredRaw]

theorem itubHandler : itubHandler crates config other = itubHandler crates config db := by
  funext index
  unfold AhlMirror.itubHandler
  rw [h.seriesView]

theorem rotationProofElement : rotationProofElement crates config other = rotationProofElement crates config db := by
  funext manifestEntryIndex
  unfold AhlMirror.rotationProofElement getRotationCheckpoint
  rw [h.rotationRows, h.seriesView, h.toSameNodes.countEntriesRaw, h.toSameNodes.inclusionProofRaw,
    h.toSameNodes.leafHashesRangeRaw]

end SameReads

end AhlMirror
