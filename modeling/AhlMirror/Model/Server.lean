import AhlMirror.Model.Run

/-!
# The server under load

Requests that write, each cut at the locks it takes. A staging takes one; a promotion reads its checkpoint
under one and promotes under another. An admission reads the canonical entries under one, looks up each
entry of its batch under one more, and commits under the last. No `Event` takes more than one, so a list of
events is an interleaving. A restart loses what is in flight and opens the store again.
-/

namespace AhlMirror

open AhlMirror.Core (Machine)

/-- A request between two of its locks. -/
inductive InFlight (H : Type) where
  | promoting (checkpoint : Checkpoint) (req : PromoteRequest)
  /-- `build_visible_prefix` has read `canonical` and has `rest` of the batch to go through. -/
  | judging (cp : Checkpoint) (raw : Option Bytes) (entriesToPromote : List PendingPromotion)
      (rotationFor : Option Nat) (claimedRoot : H) (canonical : List Bytes) (overlay : Overlay)
      (rest : List PendingPromotion)
  | admitting (cp : Checkpoint) (raw : Option Bytes) (entriesToPromote : List PendingPromotion)
      (rotationFor : Option Nat) (claimedRoot : H) (admission : Admission)
deriving DecidableEq

/-- The call the request makes. -/
def InFlight.call {H : Type} : InFlight H → Call
  | .promoting _ req => .promote req
  | .judging cp raw entriesToPromote rotationFor _ _ _ _ => .ingest cp raw entriesToPromote rotationFor
  | .admitting cp raw entriesToPromote rotationFor _ _ => .ingest cp raw entriesToPromote rotationFor

structure Server (H : Type) where
  db : Db
  inFlight : List (InFlight H)

inductive Event where
  /-- A request arrives and takes its first lock. -/
  | arrive (call : Call)
  /-- The request at a position goes on by a turn of its loop, or by its last lock. -/
  | advance (position : Nat)
  | restart

variable {H K : Type} [HashOctets H] [DecidableEq H] (crates : Crates H K) (config : Config K)

/-- The database a restart finds: what the opening leaves, or what it had committed where it fails. -/
def reopened (db : Db) : Db :=
  match (openStore crates db).result with
  | .ok ((), after) => after
  | .error _ => ((openStore crates db).committed.getLast?).getD db

/-- An admission up to its first lock. -/
def beginAdmission (db : Db) (cp : Checkpoint) (raw : Option Bytes) (entriesToPromote : List PendingPromotion)
    (rotationFor : Option Nat) : MirrorResult (InFlight H) :=
  if cp.treeSize > MAX_TREE_SIZE then .error (.treeSizeUnrepresentable cp.treeSize MAX_TREE_SIZE)
  else do
    let claimedRoot ← mapErr .ahl (crates.parseHashHex cp.rootHash)
    let canonical ← getEntriesRangeRaw db 0 cp.treeSize
    .ok (.judging cp raw entriesToPromote rotationFor claimedRoot canonical [] entriesToPromote)

/-- A turn at what is left of the batch, and where nothing is, the verdict. -/
def continueAdmission (db : Db) (cp : Checkpoint) (raw : Option Bytes) (entriesToPromote : List PendingPromotion)
    (rotationFor : Option Nat) (claimedRoot : H) (canonical : List Bytes) (overlay : Overlay) :
    List PendingPromotion → MirrorResult (InFlight H)
  | p :: rest => do
    let overlay ← overlayPending crates db canonical.length cp.treeSize claimedRoot overlay p
    .ok (.judging cp raw entriesToPromote rotationFor claimedRoot canonical overlay rest)
  | [] => do
    let admission ← judgePrefix crates config cp raw rotationFor
      (extendPrefix cp.treeSize overlay.length canonical.length overlay canonical)
    .ok (.admitting cp raw entriesToPromote rotationFor claimedRoot admission)

namespace Server

def init : Server H := ⟨Db.empty, []⟩

def arrive (server : Server H) : Call → Server H × Option Answer
  | .stage claimedEntryId bytes atlMetadata =>
    let result := withTransaction server.db (stageEntry crates · claimedEntryId bytes atlMetadata)
    (⟨result.1, server.inFlight⟩, some (.stored result.2))
  | .ingest cp raw entriesToPromote rotationFor =>
    match beginAdmission crates server.db cp raw entriesToPromote rotationFor with
    | .error e => (server, some (.admitted (.error e)))
    | .ok request => (⟨server.db, server.inFlight ++ [request]⟩, none)
  | .promote req =>
    match getCheckpoint server.db req.treeSize with
    | .error e => (server, some (.stored (.error e)))
    | .ok none => (server, some (.stored (.error (.unknownCheckpoint req.treeSize))))
    | .ok (some checkpoint) => (⟨server.db, server.inFlight ++ [.promoting checkpoint req]⟩, none)

def advance (server : Server H) (position : Nat) : Server H × Option Answer :=
  match server.inFlight[position]? with
  | none => (server, none)
  | some (.promoting checkpoint req) =>
    let result := promoteEntry crates server.db checkpoint req.entryId req.leafIndex req.inclusionPath
    (⟨result.1, server.inFlight.eraseIdx position⟩, some (.stored result.2))
  | some (.judging cp raw entriesToPromote rotationFor claimedRoot canonical overlay rest) =>
    match continueAdmission crates config server.db cp raw entriesToPromote rotationFor claimedRoot canonical overlay rest with
    | .error e => (⟨server.db, server.inFlight.eraseIdx position⟩, some (.admitted (.error e)))
    | .ok request => (⟨server.db, server.inFlight.set position request⟩, none)
  | some (.admitting cp _ entriesToPromote _ claimedRoot admission) =>
    let result := withTransaction server.db (commitAdmission crates cp entriesToPromote claimedRoot admission)
    (⟨result.1, server.inFlight.eraseIdx position⟩, some (.admitted result.2))

def step (server : Server H) : Event → Server H × Option Answer
  | .arrive call => server.arrive crates call
  | .advance position => server.advance crates config position
  | .restart => (⟨reopened crates server.db, []⟩, none)

end Server

/-- The server as a machine over its locks. -/
def server : Machine (Server H) Event (Option Answer) := ⟨Server.step crates config⟩

/-- The server after a schedule, from an empty store. -/
abbrev serverAfter (schedule : List Event) : Server H := (server crates config).exec Server.init schedule

/-- How often a call goes on after it arrived, if it comes to its last lock. -/
def Call.advances : Call → Nat
  | .stage _ _ _ => 0
  | .ingest _ _ entriesToPromote _ => entriesToPromote.length + 2
  | .promote _ => 1

/-- Every request runs to its end before the next arrives. -/
def oneAtATime (calls : List Call) : List Event :=
  calls.flatMap fun call => .arrive call :: List.replicate call.advances (.advance 0)

end AhlMirror
