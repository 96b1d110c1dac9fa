import AhlMirror.Core.Transition
import AhlMirror.Model.Http
import AhlMirror.Model.Migrate

/-!
# Runs

The calls that write to a store, each succeeding or failing, as one machine (`mirror`); the life of a
database file (`DiskState`), which is opened, used, closed and at any statement of an opening
interrupted; and the rotation table on its own, a machine over the offers made to it.
-/

namespace AhlMirror

open AhlMirror.Core (Machine)

inductive Call where
  | stage (claimedEntryId : String) (bytes : Bytes) (atlMetadata : Value)
  | ingest (cp : Checkpoint) (raw : Option Bytes) (entriesToPromote : List PendingPromotion)
      (rotationFor : Option Nat)
  | promote (req : PromoteRequest)

inductive Answer where
  | stored (outcome : MirrorResult InsertOutcome)
  | admitted (outcome : MirrorResult Admission)
deriving DecidableEq

variable {H K : Type} [HashOctets H] [DecidableEq H] (crates : Crates H K) (config : Config K)

/-- One call of the mirror's write interface. -/
def serve (db : Db) : Call → Db × Answer
  | .stage claimedEntryId bytes atlMetadata =>
    let result := withTransaction db (stageEntry crates · claimedEntryId bytes atlMetadata)
    (result.1, .stored result.2)
  | .ingest cp raw entriesToPromote rotationFor =>
    let result := ingestCheckpoint crates config db cp raw entriesToPromote rotationFor
    (result.1, .admitted result.2)
  | .promote req =>
    let result := promoteHandler crates db req
    (result.1, .stored result.2)

/-- The mirror as a machine over its database. -/
def mirror : Machine Db Call Answer := ⟨serve crates config⟩

/-- The store after a run from the empty one. -/
abbrev storeAfter (calls : List Call) : Db := (mirror crates config).exec Db.empty calls

/-- The stores a run from the empty store reaches. -/
def Reachable (db : Db) : Prop := (mirror crates config).Reachable Db.empty db

/-! ### The life of a database file -/

/-- A call on an open store: one of the interface, or one of the store methods under it. -/
inductive StoreCall where
  | serve (call : Call)
  | stageEntry (entryId : String) (bytes : Bytes)
  | promoteEntry (entryIndex : Nat) (entryId : String)

/-- The database after a call. -/
def StoreCall.after (db : Db) : StoreCall → Db
  | .serve call => (AhlMirror.serve crates config db call).1
  | .stageEntry entryId bytes => (withTransaction db (storeStageEntry · entryId bytes)).1
  | .promoteEntry entryIndex entryId => (withTransaction db (promoteEntryRaw crates · entryIndex entryId)).1

/-- A file no store has been opened on. -/
def Db.fresh : Db := ⟨[], .absent, [], [], [], []⟩

/-- A database from before `entries.leaf_hash` and `subtree_roots` existed. -/
structure PreLeafHash (db : Db) : Prop where
  schema : db.entriesSchema = .withoutLeafHash
  contiguous : db.entries.map (·.entryIndex) = List.range db.entries.length
  representable : db.entries.length ≤ i64Bound
  distinct : (db.entries.map (·.entryId)).Nodup
  noLeafHash : ∀ row ∈ db.entries, row.leafHash = none
  noSubtreeRoots : db.subtreeRoots = []

/-- Whether a store is open on the file, and the database in it. -/
inductive DiskState : Bool → Db → Prop
  | fresh : DiskState false Db.fresh
  | preLeafHash {db : Db} : PreLeafHash db → DiskState false db
  | interrupted {db after : Db} : DiskState false db → after ∈ (openStore crates db).committed → DiskState false after
  | opened {db after : Db} : DiskState false db → (openStore crates db).result = .ok ((), after) → DiskState true after
  | called {db : Db} (call : StoreCall) : DiskState true db → DiskState true (call.after crates config db)
  | closed {db : Db} : DiskState true db → DiskState false db

/-! ### The rotation table -/

/-- `Store::insert_rotation_checkpoint`. Its one write comes last, so an `Err` leaves the table as it was. -/
def insertRotationCheckpoint (db : Db) (manifestEntryIndex : Nat) (cp : Checkpoint) : Db × MirrorResult InsertOutcome :=
  withTransaction db (insertRotationCheckpointRaw · manifestEntryIndex cp)

/-- The table over a sequence of offers, each a rotation and a checkpoint. -/
def rotationTable : Machine Db (Nat × Checkpoint) (MirrorResult InsertOutcome) where
  step db offer := insertRotationCheckpoint db offer.1 offer.2

end AhlMirror
