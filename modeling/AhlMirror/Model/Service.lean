import AhlMirror.Model.Run

/-!
# The HTTP surface

`http.rs`, from a parsed request to the status and the value its body is rendered from. Routing, the parsing of
paths, queries and JSON bodies, and the JSON text of a body are axum's and serde's. The base64 engine is the
parameter `Base64`.
-/

namespace AhlMirror

open AhlMirror.Core (Machine)

/-! ### Statuses -/

inductive StatusCode where
  | ok
  | created
  | badRequest
  | notFound
  | conflict
  | internalServerError
deriving DecidableEq, Repr

/-- `ApiError::into_response`: the status of an error. -/
def MirrorError.status : MirrorError → StatusCode
  | .unknownCheckpoint _ => .notFound
  | .unknownRotationProof _ => .notFound
  | .notStaged _ => .notFound
  | .incompleteEntries _ _ => .conflict
  | .checkpointNotSeriesUsable _ => .conflict
  | .seriesEquivocated _ _ => .conflict
  | .storedEntryCorrupt _ => .internalServerError
  | .treeMaterialMissing _ _ => .internalServerError
  | .treeMaterialCorrupt _ _ => .internalServerError
  | .checkpointRootMismatch _ => .internalServerError
  | .indexOverflow _ => .internalServerError
  | .atl _ => .internalServerError
  | .store _ => .internalServerError
  | .storeInit _ => .internalServerError
  | _ => .badRequest

/-! ### Requests -/

structure StageRequest where
  entryId : String
  envelopeBase64 : String
  atlMetadata : Value

structure CheckpointIngestRequest where
  checkpoint : Checkpoint
  raw : Option String
  entriesToPromote : List PendingPromotion
  rotationFor : Option Nat

inductive Request where
  | health
  | stage (req : StageRequest)
  | promote (req : PromoteRequest)
  | retrieve (entryId : String) (encoding : Option String)
  | range (req : RangeRequest)
  | ingestCheckpoint (req : CheckpointIngestRequest)
  | listCheckpoints
  | getCheckpoint (treeSize : Nat)
  | rotationProof (manifestEntryIndex : Nat)
  | itub (index : Nat)
  | consistency (fromSize toSize : Nat)

/-- The request is on a route that writes nothing. -/
def Request.Reads : Request → Prop
  | .stage _ => False
  | .promote _ => False
  | .ingestCheckpoint _ => False
  | _ => True

/-! ### Responses -/

inductive Body where
  | healthy
  /-- `{"error": e.to_string()}`. -/
  | error (e : MirrorError)
  | staged (status entryId : String)
  | empty
  | absent (entryId : String)
  | base64 (entryId : String) (entryIndex : Nat) (envelope : String)
  /-- The stored bytes, with the header `x-ahl-entry-index`. -/
  | raw (entryIndex : Nat) (envelope : Bytes)
  | range (response : RangeResponse)
  | admission (seriesMember : Bool) (rotationAnchors : List Nat)
  | checkpoints (members : List ReportedCheckpoint)
  | checkpoint (reported : ReportedCheckpoint)
  | rotationProof (element : RotationProofElement)
  | itub (index : Nat) (checkpoint : Checkpoint)
  | itubUndefined (index : Nat) (frontierStop : Option FrontierStop)
  | consistencyPath (fromSize toSize : Nat) (path : List String)

structure Response where
  status : StatusCode
  body : Body

def Response.refused (e : MirrorError) : Response := ⟨e.status, .error e⟩

/-- A handler's result, its error rendered by `ApiError`. -/
def Response.of {α : Type} (f : α → Response) : MirrorResult α → Response
  | .ok value => f value
  | .error e => .refused e

/-! ### Base64 fields -/

/-- `base64::engine::general_purpose::STANDARD`. -/
structure Base64 where
  encode : Bytes → String
  decode : String → Option Bytes

/-- The engine is strict: it decodes the texts it encodes to, and no other. -/
structure Base64Laws (base64 : Base64) : Prop where
  decode_encode : ∀ bytes, base64.decode (base64.encode bytes) = some bytes
  encode_decode : ∀ {text bytes}, base64.decode text = some bytes → base64.encode bytes = text

/-- `str::strip_prefix`. -/
def stripPrefix (start value : String) : Option String :=
  if start.toList <+: value.toList then some (String.ofList (value.toList.drop start.length)) else none

def decodeBase64Field (base64 : Base64) (value reason : String) : MirrorResult Bytes :=
  match stripPrefix "base64:" value with
  | none => .error (.malformedEnvelope reason)
  | some stripped => okOr (.malformedEnvelope reason) (base64.decode stripped)

/-- `Option::transpose` over a field that may be left out. -/
def decodeOptionalField (base64 : Base64) (value : Option String) (reason : String) : MirrorResult (Option Bytes) :=
  match value with
  | none => .ok none
  | some value => do
    let bytes ← decodeBase64Field base64 value reason
    .ok (some bytes)

/-! ### Handlers -/

variable {H K : Type} [HashOctets H] [DecidableEq H] (base64 : Base64) (crates : Crates H K) (config : Config K) (db : Db)

def stageHandler (req : StageRequest) : Db × Response :=
  match decodeBase64Field base64 req.envelopeBase64 "envelope_base64 must be `base64:...`" with
  | .error e => (db, .refused e)
  | .ok bytes =>
    let result := withTransaction db (stageEntry crates · req.entryId bytes req.atlMetadata)
    (result.1, .of (fun
      | .inserted => ⟨.created, .staged "staged" req.entryId⟩
      | .alreadyPresent => ⟨.ok, .staged "already_staged" req.entryId⟩) result.2)

def promoteResponse (req : PromoteRequest) : Db × Response :=
  let result := promoteHandler crates db req
  (result.1, .of (fun
    | .inserted => ⟨.created, .empty⟩
    | .alreadyPresent => ⟨.ok, .empty⟩) result.2)

def retrieveHandler (entryId : String) (encoding : Option String) : Response :=
  .of (fun
    | .absent => ⟨.notFound, .absent entryId⟩
    | .present entryIndex envelope =>
      if encoding = some "base64" then ⟨.ok, .base64 entryId entryIndex ("base64:" ++ base64.encode envelope)⟩
      else ⟨.ok, .raw entryIndex envelope⟩) (retrieveById crates db entryId)

def checkpointIngestHandler (req : CheckpointIngestRequest) : Db × Response :=
  match decodeOptionalField base64 req.raw "raw must be `base64:...`" with
  | .error e => (db, .refused e)
  | .ok raw =>
    let result := ingestCheckpoint crates config db req.checkpoint raw req.entriesToPromote req.rotationFor
    (result.1, .of (fun admission => ⟨.created, .admission admission.seriesMember admission.rotationAnchors⟩) result.2)

def listCheckpointsHandler : Response :=
  .of (fun view => ⟨.ok, .checkpoints view.members⟩) (seriesView crates config db)

def itubResponse (index : Nat) : Response :=
  .of (fun
    | (none, frontierStop) => ⟨.notFound, .itubUndefined index frontierStop⟩
    | (some cp, _) => ⟨.ok, .itub index cp⟩) (itubHandler crates config db index)

/-- A node of a path as text. -/
def hashText (hash : H) : String := "sha256:" ++ hexEncode (asSlice hash)

def consistencyResponse (fromSize toSize : Nat) : Response :=
  .of (fun path => ⟨.ok, .consistencyPath fromSize toSize (path.map hashText)⟩)
    (consistencyHandler crates config db fromSize toSize)

/-- The router: the store after a request, and its response. -/
def respond : Request → Db × Response
  | .health => (db, ⟨.ok, .healthy⟩)
  | .stage req => stageHandler base64 crates db req
  | .promote req => promoteResponse crates db req
  | .retrieve entryId encoding => (db, retrieveHandler base64 crates db entryId encoding)
  | .range req => (db, .of (fun response => ⟨.ok, .range response⟩) (rangeHandler crates config db req))
  | .ingestCheckpoint req => checkpointIngestHandler base64 crates config db req
  | .listCheckpoints => (db, listCheckpointsHandler crates config db)
  | .getCheckpoint treeSize =>
    (db, .of (fun reported => ⟨.ok, .checkpoint reported⟩) (getCheckpointHandler crates config db treeSize))
  | .rotationProof manifestEntryIndex =>
    (db, .of (fun element => ⟨.ok, .rotationProof element⟩) (rotationProofElement crates config db manifestEntryIndex))
  | .itub index => (db, itubResponse crates config db index)
  | .consistency fromSize toSize => (db, consistencyResponse crates config db fromSize toSize)

/-- The service as a machine over its database. -/
def service : Machine Db Request Response := ⟨respond base64 crates config⟩

/-- The store after a run of requests from the empty one. -/
abbrev servedAfter (requests : List Request) : Db := (service base64 crates config).exec Db.empty requests

end AhlMirror
