import AhlMirror.Model.Range

/-!
# Routes

The handlers of `http.rs` that carry logic of their own, each from its parsed request to the value
its response is rendered from.
-/

namespace AhlMirror

structure PromoteRequest where
  entryId : String
  treeSize : Nat
  leafIndex : Nat
  inclusionPath : List String
deriving DecidableEq, Repr

structure RangeRequest where
  treeSize : Nat
  fromIndex : Nat
  toIndex : Nat
deriving DecidableEq, Repr

/-- `witnesses` is always empty and is left out. -/
structure RotationProofElement where
  manifestEntryIndex : Nat
  checkpoint : Checkpoint
  inclusionPath : List String
deriving DecidableEq, Repr

variable {H K : Type} [HashOctets H] [DecidableEq H] (crates : Crates H K) (config : Config K) (db : Db)

def promoteHandler (req : PromoteRequest) : Db × MirrorResult InsertOutcome :=
  match getCheckpoint db req.treeSize with
  | .error e => (db, .error e)
  | .ok none => (db, .error (.unknownCheckpoint req.treeSize))
  | .ok (some checkpoint) => promoteEntry crates db checkpoint req.entryId req.leafIndex req.inclusionPath

/-- The guard of the routes that take a `tree_size`. -/
def refuseAtFloor (view : SeriesView) (treeSize : Nat) : MirrorResult Unit :=
  match view.equivocationFloor with
  | some floor => if treeSize ≥ floor then .error (.seriesEquivocated treeSize floor) else .ok ()
  | none => .ok ()

def seriesUsableCheckpoint (treeSize : Nat) : MirrorResult Checkpoint := do
  let view ← seriesView crates config db
  refuseAtFloor view treeSize
  let candidates := view.members.filter fun m => m.checkpoint.treeSize == treeSize
  if candidates.isEmpty then .error (.unknownCheckpoint treeSize)
  else
    let usable := candidates.find? fun m => m.state == .seriesUsable
    okOr (.checkpointNotSeriesUsable treeSize) (usable.map (·.checkpoint))

def rangeHandler (req : RangeRequest) : MirrorResult RangeResponse := do
  let checkpoint ← seriesUsableCheckpoint crates config db req.treeSize
  buildRangeResponse crates db checkpoint req.fromIndex req.toIndex

/-- `Iterator::max_by` on `checkpoint_time`: the last of the greatest. -/
def latestMember : List ReportedCheckpoint → Option ReportedCheckpoint
  | [] => none
  | m :: rest => some (rest.foldl (fun best next =>
      if next.checkpoint.checkpointTime < best.checkpoint.checkpointTime then best else next) m)

def getCheckpointHandler (treeSize : Nat) : MirrorResult ReportedCheckpoint := do
  let view ← seriesView crates config db
  refuseAtFloor view treeSize
  okOr (.unknownCheckpoint treeSize)
    (latestMember (view.members.filter fun m => m.checkpoint.treeSize == treeSize))

def rotationProofElement (manifestEntryIndex : Nat) : MirrorResult RotationProofElement := do
  let found ← getRotationCheckpoint db manifestEntryIndex
  let checkpoint ← okOr (.unknownRotationProof manifestEntryIndex) found
  let view ← seriesView crates config db
  refuseAtFloor view checkpoint.treeSize
  let have_ ← countEntriesRaw db 0 checkpoint.treeSize
  if have_ ≠ checkpoint.treeSize then .error (.incompleteEntries have_ checkpoint.treeSize)
  else do
    let proof ← inclusionProofRaw crates db manifestEntryIndex checkpoint.treeSize
    let root ← mapErr .ahl (crates.parseHashHex checkpoint.rootHash)
    let leaves ← leafHashesRangeRaw db manifestEntryIndex (saturatingAdd manifestEntryIndex 1)
    let leaf ← okOr (.treeMaterialMissing 0 manifestEntryIndex) leaves.head?
    let included ← mapErr .atl (crates.verifyInclusion leaf proof root)
    if included = false then .error (.checkpointRootMismatch checkpoint.treeSize)
    else .ok ⟨manifestEntryIndex, checkpoint, crates.proofPathHex proof⟩

/-- The bound `itub_handler` renders, or the reason there is none. -/
def itubHandler (index : Nat) : MirrorResult (Option Checkpoint × Option FrontierStop) := do
  let view ← seriesView crates config db
  .ok (itub view index, view.frontierStop)

def consistencyHandler (fromSize toSize : Nat) : MirrorResult (List H) :=
  if fromSize > toSize then .error (.consistencyOrder fromSize toSize)
  else do
    let fromCp ← seriesUsableCheckpoint crates config db fromSize
    let toCp ← seriesUsableCheckpoint crates config db toSize
    let (proof, _) ← consistencyProofMeasuredRaw crates db fromCp.treeSize toCp.treeSize
    .ok proof.path

end AhlMirror
