import Mathlib.Data.List.Sort
import Mathlib.Data.String.Basic
import AhlMirror.Model.Basic

/-!
# The store

`store.rs` over its five tables. A table is the list of its rows; `SELECT ... ORDER BY` is a filter
and a sort, `INSERT` appends. Every read is a function of the database, and a write returns the
database after it: an `Err` returns none, which is the rollback `with_transaction` performs.

Where a write follows the `SELECT` that found no row with its key, the table's `UNIQUE` constraint
cannot fire and is not modelled again.
-/

namespace AhlMirror

structure Checkpoint where
  logId : String
  treeSize : Nat
  rootHash : String
  checkpointTime : String
  keyId : String
  signature : String
deriving DecidableEq, Repr

/-- A row of `entries`. -/
structure EntryRow where
  entryIndex : Nat
  entryId : String
  envelope : Bytes
  leafHash : Option Bytes
deriving DecidableEq, Repr

/-- A row of `subtree_roots`; its keys are `SQLite` integers. -/
structure SubtreeRow where
  level : Int
  nodeIndex : Int
  hash : Bytes
deriving DecidableEq, Repr

/-- How far the `entries` table has been created. -/
inductive EntriesSchema where
  | absent
  | withoutLeafHash
  | current
deriving DecidableEq, Repr

structure Db where
  stagedEntries : List (String × Bytes)
  entriesSchema : EntriesSchema
  entries : List EntryRow
  checkpoints : List Checkpoint
  rotationCheckpoints : List (Nat × Checkpoint)
  subtreeRoots : List SubtreeRow
deriving DecidableEq, Repr

/-- A fresh store: the current schema and no rows. -/
def Db.empty : Db := ⟨[], .current, [], [], [], []⟩

inductive InsertOutcome where
  | inserted
  | alreadyPresent
deriving DecidableEq, Repr

structure StoredEntry where
  entryIndex : Nat
  envelope : Bytes
deriving DecidableEq, Repr

/-- The highest subtree level a `u64` tree size can complete. -/
def MAX_SUBTREE_LEVEL : Nat := 63

/-- `Store::with_transaction`: commit on `Ok`, roll back on `Err`. -/
def withTransaction {α : Type} (db : Db) (f : Db → MirrorResult (α × Db)) : Db × MirrorResult α :=
  match f db with
  | .ok (value, after) => (after, .ok value)
  | .error e => (db, .error e)

variable {H K : Type} [HashOctets H] (crates : Crates H K) (db : Db)

/-- `metadata.rs`: the fixed adaptor metadata object and its digest. -/
def adaptorMetadataObject : Value := .object [("ahl_adaptor", .string "ahl-adaptor-atl-v1")]

def adaptorMetadataBytes : Bytes := crates.jcs adaptorMetadataObject

def metadataHash : H := crates.digest (adaptorMetadataBytes crates)

/-- The log-tree leaf hash of an entry. -/
def logLeafHash (envelopeBytes : Bytes) : H :=
  crates.computeLeafHash (crates.digest envelopeBytes) (metadataHash crates)

/-! ### Staging -/

def getStagedRaw (entryId : String) : Option Bytes :=
  (db.stagedEntries.find? fun row => row.1 == entryId).map (·.2)

/-- `Store::stage_entry`. -/
def storeStageEntry (entryId : String) (bytes : Bytes) : MirrorResult (InsertOutcome × Db) :=
  match getStagedRaw db entryId with
  | some existing =>
    if existing = bytes then .ok (.alreadyPresent, db) else .error (.indexConflict 0 entryId entryId)
  | none => .ok (.inserted, { db with stagedEntries := db.stagedEntries ++ [(entryId, bytes)] })

/-! ### Canonical entries -/

def entryAt (entryIndex : Nat) : Option EntryRow := db.entries.find? fun row => row.entryIndex == entryIndex

def maxEntryIndex : Option Nat := (db.entries.map (·.entryIndex)).max?

def nextIndex : MirrorResult Nat :=
  match maxEntryIndex db with
  | none => .ok 0
  | some m => nextAfter "next_index" m

def getEntryById (entryId : String) : Option StoredEntry :=
  (db.entries.find? fun row => row.entryId == entryId).map fun row => ⟨row.entryIndex, row.envelope⟩

/-- `SELECT ... WHERE entry_index >= ?1 AND entry_index < ?2 ORDER BY entry_index ASC`. -/
def entryRows (fromIndex toIndex : Nat) : List EntryRow :=
  (db.entries.filter fun row => decide (fromIndex ≤ row.entryIndex) && decide (row.entryIndex < toIndex)).insertionSort
    fun a b => a.entryIndex ≤ b.entryIndex

def getEntriesRangeRaw (fromIndex toIndex : Nat) : MirrorResult (List Bytes) := do
  let fromIndex ← toI64 "from_index" fromIndex
  let toIndex ← toI64 "to_index" toIndex
  .ok ((entryRows db fromIndex toIndex).map (·.envelope))

def countEntriesRaw (fromIndex toIndex : Nat) : MirrorResult Nat := do
  let fromIndex ← toI64 "from_index" fromIndex
  let toIndex ← toI64 "to_index" toIndex
  .ok (entryRows db fromIndex toIndex).length

/-! ### Tree material -/

/-- A stored blob as a hash. -/
def hashOfBlob (level nodeIndex : Nat) (blob : Bytes) : MirrorResult H :=
  okOr (.treeMaterialCorrupt level nodeIndex) (tryFrom blob)

def leafHashesRangeRaw (fromIndex toIndex : Nat) : MirrorResult (List H) := do
  let fromIndex ← toI64 "from_index" fromIndex
  let toIndex ← toI64 "to_index" toIndex
  (entryRows db fromIndex toIndex).mapM fun row => do
    let blob ← okOr (.treeMaterialMissing 0 row.entryIndex) row.leafHash
    hashOfBlob 0 row.entryIndex blob

/-- `SELECT hash FROM subtree_roots WHERE level = ?1 AND node_index = ?2`. -/
def subtreeBlob (level index : Nat) : Option Bytes :=
  (db.subtreeRoots.find? fun row => row.level == (level : Int) && row.nodeIndex == (index : Int)).map (·.hash)

def treeNodeRaw (level index : Nat) : MirrorResult (Option H) := do
  let index ← toI64 "tree node index" index
  let blob := if level = 0 then (entryAt db index).bind (·.leafHash) else subtreeBlob db level index
  match blob with
  | none => .ok none
  | some blob => do
    let hash ← hashOfBlob level index blob
    .ok (some hash)

/-- `INSERT OR REPLACE INTO subtree_roots`. -/
def putSubtreeRow (level index : Nat) (hash : Bytes) : Db :=
  { db with
    subtreeRoots := (db.subtreeRoots.filter fun row =>
      !(row.level == (level : Int) && row.nodeIndex == (index : Int))) ++ [⟨level, index, hash⟩] }

/-- A child that must be stored. -/
def requireNode (level index : Nat) : MirrorResult H := do
  let node ← treeNodeRaw db level index
  okOr (.treeMaterialMissing level index) node

/-- The loop of `extend_subtree_cache`, from `level` and `width` on; the fuel is the levels left. -/
def extendSubtreeCacheLoop (count : Nat) : Nat → Nat → Nat → Db → MirrorResult Db
  | 0, _, _, db => .ok db
  | fuel + 1, level, width, db =>
    if ¬ (level ≤ MAX_SUBTREE_LEVEL ∧ width ≤ count) then .ok db
    else do
      let overflow := MirrorError.indexOverflow "subtree cache index"
      let rem ← okOr overflow (checkedRem count width)
      if rem ≠ 0 then .ok db
      else do
        let nodeIndex ← okOr overflow ((checkedDiv count width).bind fun q => checkedSub q 1)
        let leftIndex ← okOr overflow (checkedMul nodeIndex 2)
        let rightIndex ← okOr overflow (checkedAdd leftIndex 1)
        let childLevel ← okOr overflow (checkedSub level 1)
        let left ← requireNode db childLevel leftIndex
        let right ← requireNode db childLevel rightIndex
        let nodeIndex ← toI64 "subtree node index" nodeIndex
        let db := putSubtreeRow db level nodeIndex (asSlice (crates.hashChildren left right))
        match checkedMul width 2 with
        | none => .ok db
        | some nextWidth => extendSubtreeCacheLoop count fuel (level + 1) nextWidth db

/-- Record the perfect subtrees that the promotion of `entryIndex` completed. -/
def extendSubtreeCache (entryIndex : Nat) : MirrorResult Db := do
  let count ← okOr (.indexOverflow "subtree cache index") (checkedAdd entryIndex 1)
  extendSubtreeCacheLoop crates count MAX_SUBTREE_LEVEL 1 2 db

def promoteEntryRaw (entryIndex : Nat) (entryId : String) : MirrorResult (InsertOutcome × Db) := do
  let index ← toI64 "entry_index" entryIndex
  let bytes ← okOr (.notStaged entryId) (getStagedRaw db entryId)
  match entryAt db index with
  | some existing =>
    if existing.entryId = entryId ∧ existing.envelope = bytes then .ok (.alreadyPresent, db)
    else .error (.indexConflict entryIndex existing.entryId entryId)
  | none =>
    match getEntryById db entryId with
    | some existing => .error (.entryIdAtDifferentIndex entryId existing.entryIndex entryIndex)
    | none => do
      let expected ← nextIndex db
      if entryIndex ≠ expected then .error (.outOfOrderIndex expected entryIndex)
      else do
        let leaf := logLeafHash crates bytes
        let row : EntryRow := ⟨index, entryId, bytes, some (asSlice leaf)⟩
        let db ← extendSubtreeCache crates { db with entries := db.entries ++ [row] } entryIndex
        .ok (.inserted, db)

/-! ### Opening roots and proofs through the stored nodes -/

def nodeIsComplete (level index bound : Nat) : Bool :=
  match checkedShlOne level with
  | none => false
  | some width =>
    match (checkedAdd index 1).bind fun next => checkedMul next width with
    | none => false
    | some last => decide (last ≤ bound)

/-- What `with_tree_nodes` records beside the computation: the first failure and the nodes read. -/
structure NodeReads where
  failure : Option MirrorError
  treeNodes : Nat

def NodeReads.record (reads : NodeReads) (e : MirrorError) : NodeReads :=
  match reads.failure with
  | none => { reads with failure := some e }
  | some _ => reads

/-- The `get_node` callback. -/
def getNode (bound level index : Nat) (reads : NodeReads) : Option H × NodeReads :=
  match treeNodeRaw db level index with
  | .ok (some node) => (some node, { reads with treeNodes := saturatingAdd reads.treeNodes 1 })
  | .ok none =>
    (none, if nodeIsComplete level index bound then reads.record (.treeMaterialMissing level index) else reads)
  | .error e => (none, reads.record e)

/-- `with_tree_nodes`: the result and the number of stored nodes read. -/
def withTreeNodes {α : Type} (bound : Nat) (f : Merkle.NodeQuery H (Except AtlError α)) : MirrorResult (α × Nat) :=
  match f.run (getNode db bound) ⟨none, 0⟩ with
  | (computed, reads) =>
    match reads.failure with
    | some e => .error e
    | none => do
      let value ← mapErr .atl computed
      .ok (value, reads.treeNodes)

def inclusionProofRaw (leafIndex treeSize : Nat) : MirrorResult (InclusionProof H) := do
  let (proof, _) ← withTreeNodes db treeSize (crates.generateInclusionProof leafIndex treeSize)
  .ok proof

def subtreeRootRaw (offset size : Nat) : MirrorResult H := do
  let (root, _) ← withTreeNodes db (saturatingAdd offset size) (crates.computeSubtreeRoot offset size)
  .ok root

def logRootRaw (treeSize : Nat) : MirrorResult H :=
  if treeSize = 0 then .ok (crates.computeRoot []) else subtreeRootRaw crates db 0 treeSize

/-- The loop of `require_subtree_cache_raw`, from `level` down to 1. -/
def requireSubtreeCacheLoop (treeSize : Nat) : Nat → Nat → MirrorResult Unit
  | 0, _ => .ok ()
  | level + 1, offset =>
    match checkedShlOne (level + 1) with
    | none => requireSubtreeCacheLoop treeSize level offset
    | some width =>
      if (checkedDiv treeSize width).getD 0 % 2 = 0 then requireSubtreeCacheLoop treeSize level offset
      else do
        let nodeIndex ← okOr (.indexOverflow "subtree cache block index") (checkedDiv offset width)
        let node : Option H ← treeNodeRaw db (level + 1) nodeIndex
        if node.isNone then .error (.treeMaterialMissing (level + 1) nodeIndex)
        else do
          let offset ← okOr (.indexOverflow "subtree cache block offset") (checkedAdd offset width)
          requireSubtreeCacheLoop treeSize level offset

/-- The complete-subtree cache covers `[0, tree_size)`. -/
def requireSubtreeCacheRaw (treeSize : Nat) : MirrorResult Unit :=
  requireSubtreeCacheLoop (H := H) db treeSize MAX_SUBTREE_LEVEL 0

/-- An RFC 9162 consistency proof and the number of stored nodes it read. -/
def consistencyProofMeasuredRaw (fromSize toSize : Nat) : MirrorResult (ConsistencyProof H × Nat) := do
  let have_ ← countEntriesRaw db 0 toSize
  if have_ ≠ toSize then .error (.incompleteEntries have_ toSize)
  else withTreeNodes db toSize (crates.generateConsistencyProof fromSize toSize)

/-- The prover over entry bytes that the cached one replaced, the source's test oracle. -/
def consistencyProofFromEntryBytes (allEntries : List Bytes) (fromSize toSize : Nat) :
    MirrorResult (ConsistencyProof H) :=
  let leafHashes := (allEntries.take toSize).map (logLeafHash crates)
  mapErr .atl ((crates.generateConsistencyProof fromSize toSize).eval fun level index =>
    if level = 0 then leafHashes[index]? else none)

/-! ### Checkpoints -/

/-- `ORDER BY tree_size ASC, checkpoint_time ASC`. -/
def seriesLE (a b : Checkpoint) : Prop :=
  a.treeSize < b.treeSize ∨ a.treeSize = b.treeSize ∧ a.checkpointTime ≤ b.checkpointTime

instance (a b : Checkpoint) : Decidable (seriesLE a b) := inferInstanceAs (Decidable (_ ∨ _))

def insertCheckpointRaw (cp : Checkpoint) : MirrorResult (InsertOutcome × Db) := do
  let treeSize ← toI64 "tree_size" cp.treeSize
  match db.checkpoints.find? fun row => row.treeSize == treeSize && row.checkpointTime == cp.checkpointTime with
  | some existing =>
    if existing = cp then .ok (.alreadyPresent, db)
    else .error (.seriesMemberConflict cp.treeSize cp.checkpointTime)
  | none => .ok (.inserted, { db with checkpoints := db.checkpoints ++ [cp] })

/-- The rows held for the rotation at `manifestEntryIndex`, the one to serve first. -/
def rotationRows (manifestEntryIndex : Nat) : List Checkpoint :=
  ((db.rotationCheckpoints.filter fun row => row.1 == manifestEntryIndex).map (·.2)).insertionSort seriesLE

def insertRotationCheckpointRaw (manifestEntryIndex : Nat) (cp : Checkpoint) : MirrorResult (InsertOutcome × Db) := do
  let index ← toI64 "manifest_entry_index" manifestEntryIndex
  let treeSize ← toI64 "tree_size" cp.treeSize
  match db.rotationCheckpoints.find? fun row =>
      row.1 == index && row.2.treeSize == treeSize && row.2.checkpointTime == cp.checkpointTime with
  | some existing =>
    if existing.2 = cp then .ok (.alreadyPresent, db)
    else .error (.seriesMemberConflict cp.treeSize cp.checkpointTime)
  | none =>
    let inserted : MirrorResult (InsertOutcome × Db) :=
      .ok (.inserted, { db with rotationCheckpoints := db.rotationCheckpoints ++ [(index, cp)] })
    match (rotationRows db index).head? with
    | some held => if seriesLE held cp then .ok (.alreadyPresent, db) else inserted
    | none => inserted

/-- The most recently declared checkpoint at `tree_size`: `ORDER BY checkpoint_time DESC LIMIT 1`. -/
def getCheckpoint (treeSize : Nat) : MirrorResult (Option Checkpoint) := do
  let treeSize ← toI64 "tree_size" treeSize
  .ok ((db.checkpoints.filter fun row => row.treeSize == treeSize).insertionSort
    fun a b => b.checkpointTime ≤ a.checkpointTime).head?

def getRotationCheckpoint (manifestEntryIndex : Nat) : MirrorResult (Option Checkpoint) := do
  let index ← toI64 "manifest_entry_index" manifestEntryIndex
  .ok (rotationRows db index).head?

def allCheckpoints : List Checkpoint := db.checkpoints.insertionSort seriesLE

def allRotationCheckpoints : List (Nat × Checkpoint) :=
  db.rotationCheckpoints.insertionSort fun a b => seriesLE a.2 b.2

end AhlMirror
