import AhlMirror.Model.Ingest
import AhlMirror.Model.Manifest

/-!
# Checkpoints, the series and the incorporation bound

`checkpoint.rs`: admission of a signed checkpoint (`ingestCheckpoint`), and the view of the series
computed from the store on every call (`seriesView`, `itub`).
-/

namespace AhlMirror

/-- One staged entry to promote with a checkpoint's admission. -/
structure PendingPromotion where
  entryId : String
  leafIndex : Nat
  inclusionPath : List String
deriving DecidableEq, Repr

inductive CheckpointState where
  | authenticated
  | seriesUsable
deriving DecidableEq, Repr

structure ReportedCheckpoint where
  checkpoint : Checkpoint
  state : CheckpointState
deriving DecidableEq, Repr

inductive FrontierStop where
  | noValidStart
  | decreasingTime (afterTreeSize : Nat)
  | cadenceExceeded (afterTreeSize : Nat)
  | governanceUnresolvable (atTreeSize : Nat)
  | equivocation (atTreeSize : Nat)
deriving DecidableEq, Repr

structure SeriesView where
  members : List ReportedCheckpoint
  gapFreeFrontier : Option Nat
  frontierStop : Option FrontierStop
  rootDivergences : List Nat
  equivocationFloor : Option Nat
deriving DecidableEq, Repr

/-- Append a divergence unless it is the last one recorded. -/
def pushDivergence (divergences : List Nat) (treeSize : Nat) : List Nat :=
  if divergences.getLast? = some treeSize then divergences else divergences ++ [treeSize]

/-- The window scan of `find_root_divergences`, from `divergences` on. -/
def findRootDivergencesFrom (divergences : List Nat) : List Checkpoint → List Nat
  | a :: b :: rest =>
    findRootDivergencesFrom
      (if a.treeSize = b.treeSize ∧ a.rootHash ≠ b.rootHash then pushDivergence divergences a.treeSize
        else divergences) (b :: rest)
  | _ => divergences

def findRootDivergences (checkpoints : List Checkpoint) : List Nat := findRootDivergencesFrom [] checkpoints

/-- The largest `tree_size` the store can address, `i64::MAX`. -/
def MAX_TREE_SIZE : Nat := i64Bound - 1

variable {H K : Type} [HashOctets H] (crates : Crates H K)

/-! ### Times -/

def renderCheckpointTime (nanos : Nat) : MirrorResult String :=
  okOr (.badCheckpointTime (toString nanos)) (crates.formatUnixNanos nanos)

/-- The literals of `YYYY-MM-DDTHH:MM:SS.fffffffffZ`, each with its position. -/
def CHECKPOINT_TIME_LITERALS : List (Nat × Char) :=
  [(4, '-'), (7, '-'), (10, 'T'), (13, ':'), (16, ':'), (19, '.'), (29, 'Z')]

def CHECKPOINT_TIME_LEN : Nat := 30

/-- The shape check. Only `ASCII` passes it, so characters stand for the source's bytes. -/
def hasProfileTimeShape (value : String) : Bool :=
  value.toList.length == CHECKPOINT_TIME_LEN &&
    value.toList.zipIdx.all fun (char, position) =>
      match CHECKPOINT_TIME_LITERALS.find? fun literal => literal.1 == position with
      | some literal => char == literal.2
      | none => char.isDigit

def parseCheckpointTime (value : String) : MirrorResult Nat :=
  let bad := MirrorError.badCheckpointTime value
  if hasProfileTimeShape value = false then .error bad
  else do
    let nanos ← okOr bad (crates.parsePrimitiveDateTime value)
    if nanos < 0 ∨ u64Bound ≤ nanos then .error bad
    else do
      let rendered ← renderCheckpointTime crates nanos.toNat
      if rendered ≠ value then .error bad else .ok nanos.toNat

/-! ### The signed blob -/

/-- `b"ATL-Protocol-v1-CP"`. -/
def CHECKPOINT_MAGIC : Bytes := "ATL-Protocol-v1-CP".toList.map fun char => UInt8.ofNat char.toNat

/-- `u64::to_le_bytes`. -/
def toLeBytes (value : Nat) : Bytes := (List.range 8).map fun i => UInt8.ofNat (value / 256 ^ i)

def checkpointBlob (cp : Checkpoint) : MirrorResult Bytes := do
  let origin ← mapErr .ahl (crates.parseHashHex cp.logId)
  let root ← mapErr .ahl (crates.parseHashHex cp.rootHash)
  let nanos ← parseCheckpointTime crates cp.checkpointTime
  .ok (CHECKPOINT_MAGIC ++ asSlice origin ++ toLeBytes cp.treeSize ++ toLeBytes nanos ++ asSlice root)

def verifyCheckpointSignature (cp : Checkpoint) (raw : Option Bytes) (logId : String) (key : K) :
    MirrorResult Unit :=
  if cp.logId ≠ logId then .error (.wrongLogId logId cp.logId)
  else do
    let blob ← checkpointBlob crates cp
    if raw.any (· ≠ blob) then .error .rawBlobMismatch
    else do
      let verified ← mapErr .ahl (crates.verifySignature key blob cp.signature)
      if verified = false then .error (.signatureInvalid cp.keyId) else .ok ()

/-! ### Checks against the stored tree -/

/-- `verify_series_consistency`, the offline form over a leaf sequence. -/
def verifySeriesConsistency (fromCp toCp : Checkpoint) (leafHashes : List H) : MirrorResult Bool := do
  let fromRoot ← mapErr .ahl (crates.parseHashHex fromCp.rootHash)
  let toRoot ← mapErr .ahl (crates.parseHashHex toCp.rootHash)
  let proof ← mapErr .atl ((crates.generateConsistencyProof fromCp.treeSize toCp.treeSize).eval fun level index =>
    if level = 0 then leafHashes[index]? else none)
  mapErr .atl (crates.verifyConsistency proof fromRoot toRoot)

section stored
variable (db : Db)

def holdsPrefix (treeSize : Nat) : MirrorResult Bool := do
  let count ← countEntriesRaw db 0 treeSize
  if count ≠ treeSize then .ok false
  else do
    requireSubtreeCacheRaw (H := H) db treeSize
    .ok true

def rootMatchesStored [DecidableEq H] (cp : Checkpoint) : MirrorResult Bool := do
  let claimed ← mapErr .ahl (crates.parseHashHex cp.rootHash)
  let root ← logRootRaw crates db cp.treeSize
  .ok (decide (root = claimed))

def seriesConsistencyStored (fromCp toCp : Checkpoint) : MirrorResult Bool := do
  let fromRoot ← mapErr .ahl (crates.parseHashHex fromCp.rootHash)
  let toRoot ← mapErr .ahl (crates.parseHashHex toCp.rootHash)
  let (proof, _) ← consistencyProofMeasuredRaw crates db fromCp.treeSize toCp.treeSize
  mapErr .atl (crates.verifyConsistency proof fromRoot toRoot)

def isStorageFault : MirrorError → Bool
  | .treeMaterialMissing _ _ => true
  | .treeMaterialCorrupt _ _ => true
  | .store _ => true
  | .storeInit _ => true
  | _ => false

def seriesUsableStored [DecidableEq H] (cp : Checkpoint) (pred : Option Checkpoint) : MirrorResult Bool := do
  let held ← holdsPrefix (H := H) db cp.treeSize
  if held = false then .ok false
  else do
    let matches_ ← rootMatchesStored crates db cp
    if matches_ = false then .ok false
    else
      match pred with
      | none => .ok true
      | some pred => seriesConsistencyStored crates db pred cp

/-! ### The visible prefix -/

/-- The overlay of `build_visible_prefix`, a `BTreeMap` from leaf index. -/
abbrev Overlay := List (Nat × Bytes)

def Overlay.get (overlay : Overlay) (index : Nat) : Option Bytes :=
  (overlay.find? fun slot => slot.1 == index).map (·.2)

def Overlay.remove (overlay : Overlay) (index : Nat) : Overlay := overlay.filter fun slot => slot.1 != index

/-- One turn of the loop that fills the overlay. -/
def overlayPending (canonicalLen targetTreeSize : Nat) (claimedRoot : H) (overlay : Overlay)
    (p : PendingPromotion) : MirrorResult Overlay :=
  if p.leafIndex ≥ targetTreeSize then .ok overlay
  else if p.leafIndex < canonicalLen then .ok overlay
  else if (overlay.get p.leafIndex).isSome then .ok overlay
  else do
    let bytes ← okOr (.notStaged p.entryId) (getStagedRaw db p.entryId)
    let included ← verifyInclusionFor crates bytes p.leafIndex targetTreeSize p.inclusionPath claimedRoot
    if included = false then .error (.inclusionProofInvalid p.entryId p.leafIndex targetTreeSize)
    else .ok (overlay ++ [(p.leafIndex, bytes)])

/-- The loop that extends the canonical run; each turn takes a slot, so the slots bound the turns. -/
def extendPrefix (targetTreeSize : Nat) : Nat → Nat → Overlay → List Bytes → List Bytes
  | 0, _, _, entries => entries
  | fuel + 1, next, overlay, entries =>
    if next < targetTreeSize then
      match overlay.get next with
      | none => entries
      | some bytes => extendPrefix targetTreeSize fuel (next + 1) (overlay.remove next) (entries ++ [bytes])
    else entries

def buildVisiblePrefix (pending : List PendingPromotion) (targetTreeSize : Nat) (claimedRoot : H) :
    MirrorResult (List Bytes) := do
  let canonical ← getEntriesRangeRaw db 0 targetTreeSize
  let overlay ← pending.foldlM (overlayPending crates db canonical.length targetTreeSize claimedRoot) []
  .ok (extendPrefix targetTreeSize overlay.length canonical.length overlay canonical)

end stored

/-! ### Rotations -/

structure Admission where
  seriesMember : Bool
  rotationAnchors : List Nat
deriving DecidableEq, Repr

structure Rotation (K : Type) where
  manifestEntryIndex : Nat
  outgoing : GovernanceState K

/-- Every governance-key rotation in `versions`, with the predecessor it retires. -/
def rotationsIn : List (GovernanceState K) → List (Rotation K)
  | outgoing :: incoming :: rest =>
    (if incoming.rotates outgoing then [⟨incoming.governingManifestEntryIndex, outgoing⟩] else []) ++
      rotationsIn (incoming :: rest)
  | _ => []

variable (config : Config K)

/-- The signature check under a state: the key active for the checkpoint's own `tree_size`, then the
signature. -/
def verifiesUnder (state : GovernanceState K) (cp : Checkpoint) (raw : Option Bytes) : MirrorResult Unit := do
  let key ← state.resolveLogKey cp.keyId cp.treeSize
  verifyCheckpointSignature crates cp raw config.logId key

/-- Whether a checkpoint anchors a rotation, or the reason it does not. -/
def qualifiesFor (cp : Checkpoint) (raw : Option Bytes) (rotation : Rotation K) : Except String Unit :=
  if cp.treeSize ≤ rotation.manifestEntryIndex then
    .error "the checkpoint's tree_size is not greater than the manifest entry index"
  else
    match verifiesUnder crates config rotation.outgoing cp raw with
    | .error _ => .error
        "the checkpoint does not verify under a log key of the version preceding the rotating one"
    | .ok () => .ok ()

/-- The loop over the rotations: the anchored indices and the reason the named one failed. -/
def anchorRotations (cp : Checkpoint) (raw : Option Bytes) (named : Option Nat) :
    List (Rotation K) → List Nat → Option String → List Nat × Option String
  | [], anchored, namedFailure => (anchored, namedFailure)
  | rotation :: rest, anchored, namedFailure =>
    match qualifiesFor crates config cp raw rotation with
    | .ok () => anchorRotations cp raw named rest (anchored ++ [rotation.manifestEntryIndex]) namedFailure
    | .error reason =>
      if named = some rotation.manifestEntryIndex then anchorRotations cp raw named rest anchored (some reason)
      else anchorRotations cp raw named rest anchored namedFailure

def rotationAnchorsFor (versions : List (GovernanceState K)) (cp : Checkpoint) (raw : Option Bytes)
    (named : Option Nat) : MirrorResult (List Nat) :=
  let (anchored, namedFailure) := anchorRotations crates config cp raw named (rotationsIn versions) [] none
  match named with
  | none => .ok anchored
  | some manifestEntryIndex =>
    if manifestEntryIndex ∈ anchored then .ok anchored
    else .error (.notRotationMaterial cp.treeSize manifestEntryIndex (namedFailure.getD
      "the manifest version at that entry index is not a governance-key rotation of its predecessor"))

/-! ### Admission -/

/-- The promotions of a batch, in order. -/
def promoteBatch (cp : Checkpoint) : List PendingPromotion → Db → MirrorResult Db
  | [], db => .ok db
  | pending :: rest, db => do
    let (_, db) ← promoteEntryIn crates db cp pending.entryId pending.leafIndex pending.inclusionPath
    promoteBatch cp rest db

/-- The rotation rows of an admission, in order. -/
def insertRotationCheckpoints (cp : Checkpoint) : List Nat → Db → MirrorResult Db
  | [], db => .ok db
  | manifestEntryIndex :: rest, db => do
    let (_, db) ← insertRotationCheckpointRaw db manifestEntryIndex cp
    insertRotationCheckpoints cp rest db

/-- The verdict on a checkpoint, from the entries in view. -/
def judgePrefix (cp : Checkpoint) (raw : Option Bytes) (rotationFor : Option Nat) (entriesPrefix : List Bytes) :
    MirrorResult Admission := do
  let versions ← versions crates config entriesPrefix
  let governance ← okOr (.governanceChainUnresolvable cp.treeSize) versions.getLast?
  let underActiveVersion := verifiesUnder crates config governance cp raw
  let seriesMember := underActiveVersion.isOk
  let rotationAnchors ← rotationAnchorsFor crates config versions cp raw rotationFor
  if seriesMember = false ∧ rotationAnchors = [] then do
    underActiveVersion
    .ok ⟨true, []⟩
  else .ok ⟨seriesMember, rotationAnchors⟩

/-- What admission decides before it writes: the claimed root and the admission. -/
def judgeCheckpoint (db : Db) (cp : Checkpoint) (raw : Option Bytes)
    (entriesToPromote : List PendingPromotion) (rotationFor : Option Nat) : MirrorResult (H × Admission) :=
  if cp.treeSize > MAX_TREE_SIZE then .error (.treeSizeUnrepresentable cp.treeSize MAX_TREE_SIZE)
  else do
    let claimedRoot ← mapErr .ahl (crates.parseHashHex cp.rootHash)
    let entriesPrefix ← buildVisiblePrefix crates db entriesToPromote cp.treeSize claimedRoot
    let admission ← judgePrefix crates config cp raw rotationFor entriesPrefix
    .ok (claimedRoot, admission)

/-- The store holds the whole prefix, and its root is not the claimed one. -/
def contradictsStored [DecidableEq H] (db : Db) (treeSize : Nat) (claimedRoot : H) : MirrorResult Bool :=
  holdsPrefix (H := H) db treeSize >>= fun held =>
    if held = false then .ok false
    else logRootRaw crates db treeSize >>= fun root => .ok (decide (root ≠ claimedRoot))

def recordSeriesMember (cp : Checkpoint) (seriesMember : Bool) (db : Db) : MirrorResult Db :=
  if seriesMember = false then .ok db else insertCheckpointRaw db cp >>= fun inserted => .ok inserted.2

/-- The transaction of an admission. -/
def commitAdmission [DecidableEq H] (cp : Checkpoint) (entriesToPromote : List PendingPromotion)
    (claimedRoot : H) (admission : Admission) (db : Db) : MirrorResult (Admission × Db) := do
  let db ← promoteBatch crates cp entriesToPromote db
  let contradicts ← contradictsStored crates db cp.treeSize claimedRoot
  if contradicts then .error (.checkpointRootMismatch cp.treeSize)
  else do
    let db ← recordSeriesMember cp admission.seriesMember db
    let db ← insertRotationCheckpoints cp admission.rotationAnchors db
    .ok (admission, db)

def ingestCheckpoint [DecidableEq H] (db : Db) (cp : Checkpoint) (raw : Option Bytes)
    (entriesToPromote : List PendingPromotion) (rotationFor : Option Nat) : Db × MirrorResult Admission :=
  match judgeCheckpoint crates config db cp raw entriesToPromote rotationFor with
  | .error e => (db, .error e)
  | .ok (claimedRoot, admission) =>
    withTransaction db (commitAdmission crates cp entriesToPromote claimedRoot admission)

/-! ### The series view -/

section view
variable (db : Db)

def resolveGovernanceFor (treeSize : Nat) : MirrorResult (Option (GovernanceState K)) := do
  let entries ← getEntriesRangeRaw db 0 treeSize
  if entries.length ≠ treeSize then .ok none
  else
    match resolve crates config entries with
    | .ok state => .ok (some state)
    | .error (.governanceChainUnresolvable _) => .ok none
    | .error other => .error other

structure GapFreeResult where
  frontier : Option Nat
  stop : Option FrontierStop
deriving DecidableEq, Repr

/-- The loop of `compute_gap_free_frontier`, from the member `prev` on. -/
def extendFrontier (equivocationFloor : Option Nat) (frontier : Nat) (prev : Checkpoint) (prevTime : Nat) :
    List Checkpoint → MirrorResult GapFreeResult
  | [] => .ok ⟨some frontier, equivocationFloor.map .equivocation⟩
  | cp :: rest =>
    if equivocationFloor.any (fun floor => decide (floor ≤ cp.treeSize)) then
      .ok ⟨some frontier, equivocationFloor.map .equivocation⟩
    else do
      let cpTime ← parseCheckpointTime crates cp.checkpointTime
      match checkedSub cpTime prevTime with
      | none => .ok ⟨some frontier, some (.decreasingTime prev.treeSize)⟩
      | some delta => do
        match ← resolveGovernanceFor crates config db prev.treeSize with
        | none => .ok ⟨some frontier, some (.governanceUnresolvable prev.treeSize)⟩
        | some prevGovernance =>
          if delta > prevGovernance.cadenceNanos then
            .ok ⟨some frontier, some (.cadenceExceeded prev.treeSize)⟩
          else extendFrontier equivocationFloor cp.treeSize cp cpTime rest

def computeGapFreeFrontier (usable : List Checkpoint) (equivocationFloor : Option Nat) :
    MirrorResult GapFreeResult :=
  match usable with
  | [] => .ok ⟨none, equivocationFloor.map .equivocation⟩
  | first :: rest =>
    if equivocationFloor.any (fun floor => decide (floor ≤ first.treeSize)) then
      .ok ⟨none, equivocationFloor.map .equivocation⟩
    else do
      match ← resolveGovernanceFor crates config db first.treeSize with
      | none => .ok ⟨none, some (.governanceUnresolvable first.treeSize)⟩
      | some firstGovernance => do
        let genesisTreeSize ← okOr (.indexOverflow "genesis_entry_index")
          (checkedAdd firstGovernance.genesisEntryIndex 1)
        match ← resolveGovernanceFor crates config db genesisTreeSize with
        | none => .ok ⟨none, some (.governanceUnresolvable genesisTreeSize)⟩
        | some genesisGovernance => do
          let firstTime ← parseCheckpointTime crates first.checkpointTime
          if (checkedSub firstTime genesisGovernance.cadenceEpochNanos).any
              fun since => decide (since ≤ genesisGovernance.cadenceNanos) then
            extendFrontier crates config db equivocationFloor first.treeSize first firstTime rest
          else .ok ⟨none, some .noValidStart⟩

/-- Whether one member is usable; a check that fails for any reason but the storage says it is not. -/
def judgeMember [DecidableEq H] (cp : Checkpoint) (lastUsable : Option Checkpoint) : MirrorResult Bool :=
  match seriesUsableStored crates db cp lastUsable with
  | .ok usable => .ok usable
  | .error err => if isStorageFault err then .error err else .ok false

/-- The member loop of `series_view`: each checkpoint judged against the last usable one. -/
def judgeMembers [DecidableEq H] : Option Checkpoint → List Checkpoint → MirrorResult (List ReportedCheckpoint)
  | _, [] => .ok []
  | lastUsable, cp :: rest => do
    let usable ← judgeMember crates db cp lastUsable
    let members ← judgeMembers (if usable then some cp else lastUsable) rest
    .ok (⟨cp, if usable then .seriesUsable else .authenticated⟩ :: members)

/-- Every checkpoint the log is held to, of both tables, in series order. -/
def authenticatedCheckpoints : List Checkpoint :=
  (allCheckpoints db ++ (allRotationCheckpoints db).map (·.2)).insertionSort seriesLE

def usableCheckpoints (members : List ReportedCheckpoint) : List Checkpoint :=
  (members.filter fun m => m.state == .seriesUsable).map (·.checkpoint)

def seriesView [DecidableEq H] : MirrorResult SeriesView := do
  let members ← judgeMembers crates db none (allCheckpoints db)
  let rootDivergences := findRootDivergences (authenticatedCheckpoints db)
  let equivocationFloor := rootDivergences.min?
  let result ← computeGapFreeFrontier crates config db (usableCheckpoints members) equivocationFloor
  .ok ⟨members, result.frontier, result.stop, rootDivergences, equivocationFloor⟩

def itub (view : SeriesView) (index : Nat) : Option Checkpoint :=
  match view.gapFreeFrontier with
  | none => none
  | some frontier =>
    (usableCheckpoints view.members).find? fun cp => decide (index < cp.treeSize) && decide (cp.treeSize ≤ frontier)

end view

end AhlMirror
