import AhlMirror.Core.Reading
import AhlMirror.Model.Run

/-!
# The series view, lock by lock

`series_view` as it takes the store's lock: once for the list of checkpoints, once for each member's check,
once for the rotation rows and once for each prefix governance is resolved from. Between two of these
locks other requests may commit their transactions (`Transaction`).
-/

namespace AhlMirror

open AhlMirror.Core (Reading)
open AhlMirror.Core.Reading (query lift)

variable {H K : Type} [HashOctets H] (crates : Crates H K) (config : Config K)

namespace Locked

/-- A computation that takes the lock for one read at a time. -/
abbrev Reads (α : Type) := Reading Db MirrorError α

def resolveGovernanceFor (treeSize : Nat) : Reads (Option (GovernanceState K)) :=
  query fun db => AhlMirror.resolveGovernanceFor crates config db treeSize

/-- The loop of `compute_gap_free_frontier`, from the member `prev` on. -/
def extendFrontier (equivocationFloor : Option Nat) (frontier : Nat) (prev : Checkpoint) (prevTime : Nat) :
    List Checkpoint → Reads GapFreeResult
  | [] => pure ⟨some frontier, equivocationFloor.map .equivocation⟩
  | cp :: rest =>
    if equivocationFloor.any (fun floor => decide (floor ≤ cp.treeSize)) then
      pure ⟨some frontier, equivocationFloor.map .equivocation⟩
    else do
      let cpTime ← lift (parseCheckpointTime crates cp.checkpointTime)
      match checkedSub cpTime prevTime with
      | none => pure ⟨some frontier, some (.decreasingTime prev.treeSize)⟩
      | some delta => do
        match ← resolveGovernanceFor crates config prev.treeSize with
        | none => pure ⟨some frontier, some (.governanceUnresolvable prev.treeSize)⟩
        | some prevGovernance =>
          if delta > prevGovernance.cadenceNanos then
            pure ⟨some frontier, some (.cadenceExceeded prev.treeSize)⟩
          else extendFrontier equivocationFloor cp.treeSize cp cpTime rest

def computeGapFreeFrontier (usable : List Checkpoint) (equivocationFloor : Option Nat) : Reads GapFreeResult :=
  match usable with
  | [] => pure ⟨none, equivocationFloor.map .equivocation⟩
  | first :: rest =>
    if equivocationFloor.any (fun floor => decide (floor ≤ first.treeSize)) then
      pure ⟨none, equivocationFloor.map .equivocation⟩
    else do
      match ← resolveGovernanceFor crates config first.treeSize with
      | none => pure ⟨none, some (.governanceUnresolvable first.treeSize)⟩
      | some firstGovernance => do
        let genesisTreeSize ← lift (okOr (.indexOverflow "genesis_entry_index")
          (checkedAdd firstGovernance.genesisEntryIndex 1))
        match ← resolveGovernanceFor crates config genesisTreeSize with
        | none => pure ⟨none, some (.governanceUnresolvable genesisTreeSize)⟩
        | some genesisGovernance => do
          let firstTime ← lift (parseCheckpointTime crates first.checkpointTime)
          if (checkedSub firstTime genesisGovernance.cadenceEpochNanos).any
              fun since => decide (since ≤ genesisGovernance.cadenceNanos) then
            extendFrontier crates config equivocationFloor first.treeSize first firstTime rest
          else pure ⟨none, some .noValidStart⟩

variable [DecidableEq H]

/-- The member loop of `series_view`: one lock for each member. -/
def judgeMembers : Option Checkpoint → List Checkpoint → Reads (List ReportedCheckpoint)
  | _, [] => pure []
  | lastUsable, cp :: rest => do
    let usable ← query fun db => judgeMember crates db cp lastUsable
    let members ← judgeMembers (if usable then some cp else lastUsable) rest
    pure (⟨cp, if usable then .seriesUsable else .authenticated⟩ :: members)

def seriesView : Reads SeriesView := do
  let all ← query fun db => .ok (allCheckpoints db)
  let members ← judgeMembers crates none all
  let rotations ← query fun db => .ok (allRotationCheckpoints db)
  let rootDivergences := findRootDivergences ((all ++ rotations.map (·.2)).insertionSort seriesLE)
  let equivocationFloor := rootDivergences.min?
  let result ← computeGapFreeFrontier crates config (usableCheckpoints members) equivocationFloor
  pure ⟨members, result.frontier, result.stop, rootDivergences, equivocationFloor⟩

end Locked

variable [DecidableEq H]

/-- What a request commits in one transaction. An admission was judged before, on whatever state its own
reads saw; a promotion names a checkpoint read before. -/
inductive Transaction : Db → Db → Prop
  | staged {db after : Db} {claimedEntryId : String} {bytes : Bytes} {atlMetadata : Value} {outcome : InsertOutcome} :
      stageEntry crates db claimedEntryId bytes atlMetadata = .ok (outcome, after) → Transaction db after
  | promoted {db after : Db} {cp : Checkpoint} {entryId : String} {leafIndex : Nat} {inclusionPath : List String}
      {outcome : InsertOutcome} :
      promoteEntryIn crates db cp entryId leafIndex inclusionPath = .ok (outcome, after) → Transaction db after
  | admitted {judged db after : Db} {cp : Checkpoint} {raw : Option Bytes} {batch : List PendingPromotion}
      {rotationFor : Option Nat} {claimedRoot : H} {admission outcome : Admission} :
      judgeCheckpoint crates config judged cp raw batch rotationFor = .ok (claimedRoot, admission) →
      commitAdmission crates cp batch claimedRoot admission db = .ok (outcome, after) → Transaction db after

/-- The stores that transactions lead to from the empty one. -/
def Written (db : Db) : Prop := Relation.ReflTransGen (Transaction crates config) Db.empty db

end AhlMirror
