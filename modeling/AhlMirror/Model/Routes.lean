import AhlMirror.Model.Locked
import AhlMirror.Model.Server
import AhlMirror.Model.Service

/-!
# The read routes, lock by lock

The handlers of `http.rs` that only read, as they take the store's lock. A checkpoint is chosen from a view,
which takes many; the response over it is built under one, except that of a rotation, which takes one for each
of its reads. The requests of others may write between any two.
-/

namespace AhlMirror

open AhlMirror.Core (Reading)
open AhlMirror.Core.Reading (query lift)

variable {H K : Type} [HashOctets H] [DecidableEq H] (base64 : Base64) (crates : Crates H K) (config : Config K)

namespace Locked

def seriesUsableCheckpoint (treeSize : Nat) : Reads Checkpoint := do
  let view ← seriesView crates config
  lift (refuseAtFloor view treeSize)
  let candidates := view.members.filter fun m => m.checkpoint.treeSize == treeSize
  if candidates.isEmpty then lift (.error (.unknownCheckpoint treeSize))
  else
    let usable := candidates.find? fun m => m.state == .seriesUsable
    lift (okOr (.checkpointNotSeriesUsable treeSize) (usable.map (·.checkpoint)))

def rangeHandler (req : RangeRequest) : Reads RangeResponse := do
  let checkpoint ← seriesUsableCheckpoint crates config req.treeSize
  query fun db => buildRangeResponse crates db checkpoint req.fromIndex req.toIndex

def getCheckpointHandler (treeSize : Nat) : Reads ReportedCheckpoint := do
  let view ← seriesView crates config
  lift (refuseAtFloor view treeSize)
  lift (okOr (.unknownCheckpoint treeSize)
    (latestMember (view.members.filter fun m => m.checkpoint.treeSize == treeSize)))

def rotationProofElement (manifestEntryIndex : Nat) : Reads RotationProofElement := do
  let found ← query fun db => getRotationCheckpoint db manifestEntryIndex
  let checkpoint ← lift (okOr (.unknownRotationProof manifestEntryIndex) found)
  let view ← seriesView crates config
  lift (refuseAtFloor view checkpoint.treeSize)
  let have_ ← query fun db => countEntriesRaw db 0 checkpoint.treeSize
  if have_ ≠ checkpoint.treeSize then lift (.error (.incompleteEntries have_ checkpoint.treeSize))
  else do
    let proof ← query fun db => inclusionProofRaw crates db manifestEntryIndex checkpoint.treeSize
    let root ← lift (mapErr .ahl (crates.parseHashHex checkpoint.rootHash))
    let leaves ← query fun db => leafHashesRangeRaw db manifestEntryIndex (saturatingAdd manifestEntryIndex 1)
    let leaf ← lift (okOr (.treeMaterialMissing 0 manifestEntryIndex) leaves.head?)
    let included ← lift (mapErr .atl (crates.verifyInclusion leaf proof root))
    if included = false then lift (.error (.checkpointRootMismatch checkpoint.treeSize))
    else pure ⟨manifestEntryIndex, checkpoint, crates.proofPathHex proof⟩

def itubHandler (index : Nat) : Reads (Option Checkpoint × Option FrontierStop) := do
  let view ← seriesView crates config
  pure (itub view index, view.frontierStop)

def consistencyHandler (fromSize toSize : Nat) : Reads (List H) :=
  if fromSize > toSize then lift (.error (.consistencyOrder fromSize toSize))
  else do
    let fromCp ← seriesUsableCheckpoint crates config fromSize
    let toCp ← seriesUsableCheckpoint crates config toSize
    let (proof, _) ← query fun db => consistencyProofMeasuredRaw crates db fromCp.treeSize toCp.treeSize
    pure proof.path

/-- The router on its read routes. -/
def respond : (request : Request) → request.Reads → Reads Response
  | .health, _ => pure ⟨.ok, .healthy⟩
  | .retrieve entryId encoding, _ => do
    match ← query fun db => retrieveById crates db entryId with
    | .absent => pure ⟨.notFound, .absent entryId⟩
    | .present entryIndex envelope =>
      if encoding = some "base64" then pure ⟨.ok, .base64 entryId entryIndex ("base64:" ++ base64.encode envelope)⟩
      else pure ⟨.ok, .raw entryIndex envelope⟩
  | .range req, _ => do
    let response ← rangeHandler crates config req
    pure ⟨.ok, .range response⟩
  | .listCheckpoints, _ => do
    let view ← seriesView crates config
    pure ⟨.ok, .checkpoints view.members⟩
  | .getCheckpoint treeSize, _ => do
    let reported ← getCheckpointHandler crates config treeSize
    pure ⟨.ok, .checkpoint reported⟩
  | .rotationProof manifestEntryIndex, _ => do
    let element ← rotationProofElement crates config manifestEntryIndex
    pure ⟨.ok, .rotationProof element⟩
  | .itub index, _ => do
    match ← itubHandler crates config index with
    | (none, frontierStop) => pure ⟨.notFound, .itubUndefined index frontierStop⟩
    | (some cp, _) => pure ⟨.ok, .itub index cp⟩
  | .consistency fromSize toSize, _ => do
    let path ← consistencyHandler crates config fromSize toSize
    pure ⟨.ok, .consistencyPath fromSize toSize (path.map hashText)⟩
  | .stage _, h => h.elim
  | .promote _, h => h.elim
  | .ingestCheckpoint _, h => h.elim

end Locked

/-- The response to a read request of a server where a batch of events comes before each of its reads. -/
def Server.answer (s : Server H) (request : Request) (hreads : request.Reads) (batches : List (List Event)) : Response :=
  .of id ((Locked.respond base64 crates config request hreads).amid (server crates config) Server.db batches s)

end AhlMirror
