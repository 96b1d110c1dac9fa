import AhlMirror.Core.Committing
import AhlMirror.Model.Store

/-!
# Opening a store

`Store::open`: the schema, then the migration that brings an existing database up to the derived
tree material. Nothing here runs in a transaction, so every statement commits on its own and a crash
leaves the database as the last one left it. Of the `CREATE TABLE` statements only the one of
`entries` can find an older table; the others leave no row behind.
-/

namespace AhlMirror

open AhlMirror.Core (Committing)
open AhlMirror.Core.Committing (query statement forEach)

variable {H K : Type} [HashOctets H] (crates : Crates H K)

/-- A script over the database. -/
abbrev Migration (α : Type) := Committing Db MirrorError α

def BACKFILL_BATCH : Nat := 1024

/-- `CREATE TABLE IF NOT EXISTS entries`. -/
def createEntriesTable (db : Db) : Db :=
  match db.entriesSchema with
  | .absent => { db with entriesSchema := .current }
  | _ => db

def addLeafHashColumn : Migration Unit := do
  let schema ← query fun db => .ok db.entriesSchema
  if schema = .current then pure ()
  else statement fun db =>
    .ok { db with entriesSchema := .current, entries := db.entries.map fun row => { row with leafHash := none } }

/-- `SELECT ... WHERE leaf_hash IS NULL ORDER BY entry_index ASC LIMIT ?1`. -/
def backfillBatch (db : Db) : List EntryRow :=
  ((db.entries.filter fun row => row.leafHash.isNone).insertionSort
    fun a b => a.entryIndex ≤ b.entryIndex).take BACKFILL_BATCH

/-- `UPDATE entries SET leaf_hash = ?1 WHERE entry_index = ?2`. -/
def updateLeafHash (db : Db) (row : EntryRow) : Db :=
  { db with
    entries := db.entries.map fun held =>
      if held.entryIndex = row.entryIndex then
        { held with leafHash := some (asSlice (logLeafHash crates row.envelope)) }
      else held }

/-- The loop of `backfill_leaf_hashes`; a turn fills at least one row, so the unfilled rows bound the
turns. -/
def backfillLoop : Nat → Migration Unit
  | 0 => pure ()
  | fuel + 1 => do
    let batch ← query fun db => .ok (backfillBatch db)
    if batch = [] then pure ()
    else do
      forEach (fun row => statement fun db => .ok (updateLeafHash crates db row)) batch
      backfillLoop fuel

def backfillLeafHashes : Migration Unit := do
  let unfilled ← query fun db => .ok (db.entries.filter fun row => row.leafHash.isNone).length
  backfillLoop crates (unfilled + 1)

/-- The loop that counts the complete subtrees of a log of `entries` leaves, from `width` on; the fuel
is the widths left. -/
def expectedPopulationLoop (entries : Nat) : Nat → Nat → Nat → MirrorResult Nat
  | 0, _, expected => .ok expected
  | fuel + 1, width, expected =>
    if width ≤ entries then do
      let overflow := MirrorError.indexOverflow "subtree cache population"
      let atWidth ← okOr overflow (checkedDiv entries width)
      let expected ← okOr overflow (checkedAdd expected atWidth)
      match checkedMul width 2 with
      | none => .ok expected
      | some next => expectedPopulationLoop entries fuel next expected
    else .ok expected

def expectedPopulation (entries : Nat) : MirrorResult Nat := expectedPopulationLoop entries 64 2 0

/-- `as_chunks::<2>().0`. -/
def chunksOfTwo {α : Type} : List α → List (α × α)
  | left :: right :: rest => (left, right) :: chunksOfTwo rest
  | _ => []

/-- `INSERT INTO subtree_roots`, under its primary key. -/
def insertSubtreeRow (level index : Nat) (hash : Bytes) (db : Db) : MirrorResult Db :=
  if (subtreeBlob db level index).isSome then .error (.store "UNIQUE constraint failed")
  else .ok { db with subtreeRoots := db.subtreeRoots ++ [⟨level, index, hash⟩] }

/-- The rows of one level, and with them the level the next one folds. -/
def foldLevel (level : Nat) : Nat → List (H × H) → Migration (List H)
  | _, [] => pure []
  | nodeIndex, (left, right) :: rest => do
    let node := crates.hashChildren left right
    statement fun db => do
      let index ← toI64 "subtree node index" nodeIndex
      insertSubtreeRow level index (asSlice node) db
    let nodes ← foldLevel level (nodeIndex + 1) rest
    pure (node :: nodes)

/-- The loop of `rebuild_subtree_cache`, from `level` on; the fuel is the levels left. -/
def rebuildLoop : Nat → Nat → List H → Migration Unit
  | 0, _, _ => pure ()
  | fuel + 1, level, current =>
    if 2 ≤ current.length ∧ level ≤ MAX_SUBTREE_LEVEL then do
      let next ← foldLevel crates level 0 (chunksOfTwo current)
      rebuildLoop fuel (level + 1) next
    else pure ()

def rebuildSubtreeCache (entries : Nat) : Migration Unit := do
  statement fun db => .ok { db with subtreeRoots := [] }
  let current ← query fun db => leafHashesRangeRaw db 0 entries
  rebuildLoop crates (MAX_SUBTREE_LEVEL + 1) 1 current

/-- Whether `subtree_roots` has the population of a complete cache and its block roots. -/
def subtreeCacheLooksComplete (entries : Nat) (db : Db) : MirrorResult Bool := do
  let expected ← expectedPopulation entries
  .ok (decide (db.subtreeRoots.length = expected) && (requireSubtreeCacheRaw (H := H) db entries).isOk)

def rebuildSubtreeCacheIfIncomplete : Migration Unit := do
  let entries ← query fun db => .ok db.entries.length
  let complete ← query (subtreeCacheLooksComplete (H := H) entries)
  if complete then pure () else rebuildSubtreeCache crates entries

def migrate : Migration Unit := do
  addLeafHashColumn
  backfillLeafHashes crates
  rebuildSubtreeCacheIfIncomplete crates

/-- `Store::open` over an existing file. -/
def openStore : Migration Unit := do
  statement fun db => .ok (createEntriesTable db)
  migrate crates

end AhlMirror
