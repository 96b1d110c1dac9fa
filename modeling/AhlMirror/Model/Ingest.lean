import AhlMirror.Model.Store

/-!
# Staging, promotion and retrieval

`ingest.rs` and `retrieval.rs`: bytes are staged once they hash to the id they are filed under and
are the canonical serialization of an envelope, and a staged entry becomes canonical with an
inclusion proof under a checkpoint.
-/

namespace AhlMirror

variable {H K : Type} [HashOctets H] (crates : Crates H K)

/-- `"sha256:" || hex(SHA-256(bytes))`. -/
def sha256Id (bytes : Bytes) : String := "sha256:" ++ hexEncode (asSlice (crates.digest bytes))

/-- The envelope shape of core spec §2.1. -/
def checkEnvelopeShape (value : Value) : MirrorResult Unit :=
  if value.isObject = false then .error (.malformedEnvelope "not a JSON object")
  else if ((value.get "payload").map Value.isObject).getD false = false then
    .error (.malformedEnvelope "missing object field `payload`")
  else if (((value.get "signatures").bind Value.asArray).map List.isEmpty).getD true then
    .error (.malformedEnvelope "missing non-empty array field `signatures`")
  else .ok ()

/-- `ingest::stage_entry`. -/
def stageEntry (db : Db) (claimedEntryId : String) (bytes : Bytes) (atlMetadata : Value) :
    MirrorResult (InsertOutcome × Db) :=
  let computedId := sha256Id crates bytes
  if computedId ≠ claimedEntryId then .error (.entryIdMismatch claimedEntryId computedId)
  else do
    let value ← mapErr .json (crates.fromSlice bytes)
    checkEnvelopeShape value
    if crates.jcs value ≠ bytes then .error .notCanonical
    else
      let metadataCanonical := crates.jcs atlMetadata
      if metadataCanonical ≠ adaptorMetadataBytes crates then .error (.wrongAdaptorMetadata metadataCanonical)
      else storeStageEntry db computedId bytes

def verifyInclusionFor (bytes : Bytes) (leafIndex treeSize : Nat) (inclusionPath : List String) (root : H) :
    MirrorResult Bool := do
  let leaf := logLeafHash crates bytes
  let proof ← mapErr .ahl (crates.proofFromHex leafIndex treeSize inclusionPath)
  mapErr .atl (crates.verifyInclusion leaf proof root)

def promoteEntryIn (db : Db) (checkpoint : Checkpoint) (entryId : String) (leafIndex : Nat)
    (inclusionPath : List String) : MirrorResult (InsertOutcome × Db) := do
  let bytes ← okOr (.notStaged entryId) (getStagedRaw db entryId)
  let root ← mapErr .ahl (crates.parseHashHex checkpoint.rootHash)
  let included ← verifyInclusionFor crates bytes leafIndex checkpoint.treeSize inclusionPath root
  if included = false then .error (.inclusionProofInvalid entryId leafIndex checkpoint.treeSize)
  else promoteEntryRaw crates db leafIndex entryId

/-- `ingest::promote_entry`. -/
def promoteEntry (db : Db) (checkpoint : Checkpoint) (entryId : String) (leafIndex : Nat)
    (inclusionPath : List String) : Db × MirrorResult InsertOutcome :=
  withTransaction db fun db => promoteEntryIn crates db checkpoint entryId leafIndex inclusionPath

/-! ### Retrieval by entry id -/

inductive Retrieved where
  | present (entryIndex : Nat) (envelope : Bytes)
  | absent
deriving DecidableEq, Repr

def retrieveById (db : Db) (entryId : String) : MirrorResult Retrieved :=
  match getEntryById db entryId with
  | none => .ok .absent
  | some stored =>
    if sha256Id crates stored.envelope ≠ entryId then .error (.storedEntryCorrupt entryId)
    else .ok (.present stored.entryIndex stored.envelope)

end AhlMirror
