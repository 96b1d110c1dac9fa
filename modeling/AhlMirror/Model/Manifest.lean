import Mathlib.Data.Finset.Basic
import AhlMirror.Model.Duration

/-!
# Governance

`config.rs` and `manifest.rs`: the configured genesis anchor, and the walk of an entry prefix that
verifies the `manifest`/`key` chain rooted in it. `resolve` and `versions` are two views of the one
`walk`: the state at the end of the prefix, and the state as each manifest version leaves it.

A `HashMap` is its association list with at most one pair a key (`KeyMap`). `serde`'s derived
`Deserialize` reads a struct from an object by name or from an array by position (`structFields`).
-/

namespace AhlMirror

/-! ### Configuration -/

structure KeyObjectSpec where
  keyId : String
  pubkey : String
  validFromIndex : Nat
deriving DecidableEq, Repr

structure ResolvedKeyObject (K : Type) where
  keyId : String
  verifyingKey : K
  pubkey : String
  validFromIndex : Nat
deriving DecidableEq

/-- The members of `Config` the mirror's logic reads. -/
structure Config (K : Type) where
  logId : String
  genesisManifestEntryId : String
  genesisProducerKeys : List (ResolvedKeyObject K)

variable {H K : Type} [HashOctets H] (crates : Crates H K)

def ResolvedKeyObject.resolve (spec : KeyObjectSpec) : MirrorResult (ResolvedKeyObject K) := do
  let verifyingKey ← mapErr .ahl (crates.decodePubkey spec.pubkey)
  let computed := "sha256:" ++ hexEncode (asSlice (crates.computeKeyId (crates.keyBytes verifyingKey)))
  if computed ≠ spec.keyId then .error (.configKeyIdMismatch spec.keyId computed)
  else .ok ⟨spec.keyId, verifyingKey, spec.pubkey, spec.validFromIndex⟩

def Config.resolve (logId genesisManifestEntryId : String) (genesisProducerKeys : List KeyObjectSpec) :
    MirrorResult (Config K) :=
  if genesisProducerKeys = [] then .error .noGenesisProducerKeys
  else do
    let keys ← genesisProducerKeys.mapM (ResolvedKeyObject.resolve crates)
    .ok ⟨logId, genesisManifestEntryId, keys⟩

/-! ### Deserialization -/

/-- The declared fields of a derived struct, each with the value given for it, if any. -/
def structFields (names : List String) : Value → Option (List (Option Value))
  | .object members => some (names.map fun name => (Value.object members).get name)
  | .array items =>
    if items.length ≤ names.length then some ((List.range names.length).map fun i => items[i]?) else none
  | _ => none

def KeyObjectSpec.fromValue (value : Value) : Option KeyObjectSpec :=
  match structFields ["key_id", "pubkey", "valid_from_index"] value with
  | some [some keyId, some pubkey, validFromIndex] => do
    let keyId ← keyId.asStr
    let pubkey ← pubkey.asStr
    let validFromIndex ← match validFromIndex with
      | none => some 0
      | some index => index.asU64
    some ⟨keyId, pubkey, validFromIndex⟩
  | _ => none

/-- `Vec<T>`: an array, every item of which reads. -/
def vecFromValue {α : Type} (item : Value → Option α) (value : Value) : Option (List α) :=
  value.asArray.bind fun items => items.mapM item

/-- The manifest's `log` object; `operator`, `adaptor` are required and not used. -/
structure LogBlock where
  logId : String
  checkpointCadence : String
  cadenceEpoch : String
  witnessGracePeriod : String
  keys : List KeyObjectSpec

/-- The `adaptor` member reads as `{ id, hash }`. -/
def adaptorBlockReads (value : Value) : Option Unit :=
  match structFields ["id", "hash"] value with
  | some [some id, some hash] => do
    let _ ← id.asStr
    let _ ← hash.asStr
    some ()
  | _ => none

def LogBlock.fromValue (value : Value) : Option LogBlock :=
  match structFields ["log_id", "operator", "adaptor", "checkpoint_cadence", "cadence_epoch",
      "witness_grace_period", "keys"] value with
  | some [some logId, some operator, some adaptor, some cadence, some epoch, some grace, some keys] => do
    let logId ← logId.asStr
    let _ ← operator.asStr
    let _ ← adaptorBlockReads adaptor
    let cadence ← cadence.asStr
    let epoch ← epoch.asStr
    let grace ← grace.asStr
    let keys ← vecFromValue KeyObjectSpec.fromValue keys
    some ⟨logId, cadence, epoch, grace, keys⟩
  | _ => none

structure WitnessBlock where
  witnessId : String
  keys : List KeyObjectSpec

def WitnessBlock.fromValue (value : Value) : Option WitnessBlock :=
  match structFields ["witness_id", "keys"] value with
  | some [some witnessId, some keys] => do
    let witnessId ← witnessId.asStr
    let keys ← vecFromValue KeyObjectSpec.fromValue keys
    some ⟨witnessId, keys⟩
  | _ => none

/-! ### Governance state -/

/-- A `HashMap` from key id. -/
abbrev KeyMap (K : Type) := List (String × ResolvedKeyObject K)

namespace KeyMap

def get (keys : KeyMap K) (keyId : String) : Option (ResolvedKeyObject K) :=
  (keys.find? fun pair => pair.1 == keyId).map (·.2)

def remove (keys : KeyMap K) (keyId : String) : KeyMap K := keys.filter fun pair => pair.1 != keyId

def insert (keys : KeyMap K) (keyId : String) (key : ResolvedKeyObject K) : KeyMap K :=
  (keyId, key) :: keys.remove keyId

end KeyMap

structure GovernanceState (K : Type) where
  producerKeys : KeyMap K
  logKeys : List (ResolvedKeyObject K)
  witnessKeys : List (String × ResolvedKeyObject K)
  cadenceNanos : Nat
  cadenceEpochNanos : Nat
  governingManifestEntryIndex : Nat
  governingManifestEntryId : String
  genesisEntryIndex : Nat
deriving DecidableEq

namespace GovernanceState
variable (state : GovernanceState K)

def resolveLogKey (keyId : String) (treeSize : Nat) : MirrorResult K :=
  match state.logKeys.find? fun key => key.keyId == keyId with
  | none => .error (.unknownSigningKey keyId)
  | some key =>
    if treeSize < key.validFromIndex then .error (.keyNotYetActive keyId key.validFromIndex treeSize)
    else .ok key.verifyingKey

def logKeySet : Finset (String × String × Nat) :=
  (state.logKeys.map fun key => (key.keyId, key.pubkey, key.validFromIndex)).toFinset

def witnessKeySet : Finset (String × String × String × Nat) :=
  (state.witnessKeys.map fun w => (w.1, w.2.keyId, w.2.pubkey, w.2.validFromIndex)).toFinset

def rotates (predecessor : GovernanceState K) : Bool :=
  decide (state.logKeySet ≠ predecessor.logKeySet) || decide (state.witnessKeySet ≠ predecessor.witnessKeySet)

end GovernanceState

/-- The key resolver `verify_envelope` is given, over a lookup. -/
def resolver (lookup : String → Option (ResolvedKeyObject K)) (atIndex : Nat) (keyId : String) : Option String :=
  (lookup keyId).bind fun key => if key.validFromIndex ≤ atIndex then some key.pubkey else none

def resolverFromMap (keys : KeyMap K) (atIndex : Nat) : String → Option String := resolver keys.get atIndex

def resolverFromSlice (keys : List (ResolvedKeyObject K)) (atIndex : Nat) : String → Option String :=
  resolver (fun keyId => keys.find? fun key => key.keyId == keyId) atIndex

def parseRfc3339Nanos (value : String) : MirrorResult Nat :=
  match crates.parseRfc3339 value with
  | none => .error (.badCadenceEpoch value)
  | some nanos =>
    if 0 ≤ nanos ∧ nanos < u64Bound then .ok nanos.toNat else .error (.badCadenceEpoch value)

/-- The witness key objects, each with the identity it is declared under. -/
def resolveWitnessKeys (blocks : List WitnessBlock) : Option (List (String × ResolvedKeyObject K)) := do
  let perBlock ← blocks.mapM fun block =>
    block.keys.mapM fun spec => (ResolvedKeyObject.resolve crates spec).toOption.map fun key => (block.witnessId, key)
  some perBlock.flatten

/-- A `GovernanceState` from a candidate manifest payload; `none` for any schema or content defect. -/
def parseGovernance (payload : Value) (entryIndex : Nat) (entryId logId : String) (genesisEntryIndex : Nat)
    (requiredEpochNanos : Option Nat) : Option (GovernanceState K) := do
  let producerKeySpecs ← vecFromValue KeyObjectSpec.fromValue (← payload.get "keys")
  let resolved ← producerKeySpecs.mapM fun spec => (ResolvedKeyObject.resolve crates spec).toOption
  let producerKeys : KeyMap K := resolved.foldl (fun keys key => keys.insert key.keyId key) []
  let logBlock ← LogBlock.fromValue (← payload.get "log")
  if logBlock.logId ≠ logId then none
  else do
    let cadenceNanos ← (parseCheckpointCadenceNanos logBlock.checkpointCadence).toOption
    let _ ← (parseIso8601DurationNanos logBlock.witnessGracePeriod).toOption
    let cadenceEpochNanos ← (parseRfc3339Nanos crates logBlock.cadenceEpoch).toOption
    if requiredEpochNanos ≠ none ∧ requiredEpochNanos ≠ some cadenceEpochNanos then none
    else do
      let logKeys ← logBlock.keys.mapM fun spec => (ResolvedKeyObject.resolve crates spec).toOption
      let witnessKeys ← match payload.get "witnesses" with
        | none => some []
        | some value => (vecFromValue WitnessBlock.fromValue value).bind (resolveWitnessKeys crates)
      some ⟨producerKeys, logKeys, witnessKeys, cadenceNanos, cadenceEpochNanos, entryIndex, entryId,
        genesisEntryIndex⟩

/-! ### The walk -/

def checkStatementVersion (payload : Value) (entryIndex : Nat) : MirrorResult Unit :=
  let declared := (payload.get "ahl_version").bind Value.asStr
  if declared = some crates.ahlVersion then .ok ()
  else .error (.unsupportedStatementVersion entryIndex declared crates.ahlVersion)

variable (config : Config K)

def tryApplyManifest (state : Option (GovernanceState K)) (envelope payload : Value) (entryIndex : Nat) :
    MirrorResult (Option (GovernanceState K)) :=
  let entryId := crates.entryId envelope
  match state with
  | none =>
    if entryId ≠ config.genesisManifestEntryId then .ok none
    else do
      let verified ← mapErr .ahl
        (crates.verifyEnvelope envelope (resolverFromSlice config.genesisProducerKeys entryIndex))
      if verified = false then .ok none
      else do
        checkStatementVersion crates payload entryIndex
        if (payload.get "predecessor").isSome then .ok none
        else .ok (parseGovernance crates payload entryIndex entryId config.logId entryIndex none)
  | some current => do
    let verified ← mapErr .ahl
      (crates.verifyEnvelope envelope (resolverFromMap current.producerKeys entryIndex))
    if verified = false then .ok (some current)
    else do
      checkStatementVersion crates payload entryIndex
      match (payload.get "predecessor").bind Value.asStr with
      | none => .ok (some current)
      | some predecessor =>
        if predecessor ≠ current.governingManifestEntryId then .ok (some current)
        else
          match parseGovernance crates payload entryIndex entryId config.logId current.genesisEntryIndex
              (some current.cadenceEpochNanos) with
          | some next => .ok (some next)
          | none => .ok (some current)

/-- The producer keys after an authenticated `key` statement's payload. -/
def applyKeyAction (keys : KeyMap K) (payload : Value) : KeyMap K :=
  match (payload.get "action").bind Value.asStr, (payload.get "key").bind KeyObjectSpec.fromValue with
  | some action, some keySpec =>
    if action = "add" then
      match ResolvedKeyObject.resolve crates keySpec with
      | .ok resolved => keys.insert resolved.keyId resolved
      | .error _ => keys
    else if action = "retire" then keys.remove keySpec.keyId
    else keys
  | _, _ => keys

def tryApplyKey (state : GovernanceState K) (envelope payload : Value) (entryIndex : Nat) :
    MirrorResult (GovernanceState K) := do
  let verified ← mapErr .ahl (crates.verifyEnvelope envelope (resolverFromMap state.producerKeys entryIndex))
  if verified = false then .ok state
  else do
    checkStatementVersion crates payload entryIndex
    .ok { state with producerKeys := applyKeyAction crates state.producerKeys payload }

/-- What `walk` carries from entry to entry: the running state, and the snapshots where asked for. -/
structure WalkState (K : Type) where
  state : Option (GovernanceState K)
  snapshots : Option (List (GovernanceState K))

/-- An entry's envelope, payload and declared type, where it has them. -/
def readStatement (bytes : Bytes) : Option (Value × Value × String) := do
  let envelope ← (crates.fromSlice bytes).toOption
  let payload ← envelope.get "payload"
  let kind ← (payload.get "type").bind Value.asStr
  some (envelope, payload, kind)

/-- One turn of the walk's loop. -/
def walkEntry (w : WalkState K) (index : Nat) (bytes : Bytes) : MirrorResult (WalkState K) :=
  match readStatement crates bytes with
  | none => .ok w
  | some (envelope, payload, kind) =>
    if kind = "manifest" then do
      let after ← tryApplyManifest crates config w.state envelope payload index
      if w.state.map (·.governingManifestEntryIndex) ≠ after.map (·.governingManifestEntryIndex) then
        match w.snapshots, after with
        | some list, some current => .ok ⟨after, some (list ++ [current])⟩
        | _, _ => .ok ⟨after, w.snapshots⟩
      else .ok ⟨after, w.snapshots⟩
    else if kind = "key" then
      match w.state with
      | none => .ok w
      | some current => do
        let next ← tryApplyKey crates current envelope payload index
        .ok ⟨some next, w.snapshots⟩
    else .ok w

/-- The walk from entry `index` on. -/
def walkFrom (index : Nat) (w : WalkState K) : List Bytes → MirrorResult (WalkState K)
  | [] => .ok w
  | bytes :: rest => do
    let next ← walkEntry crates config w index bytes
    walkFrom (index + 1) next rest

def walk (entriesPrefix : List Bytes) (snapshots : Option (List (GovernanceState K))) :
    MirrorResult (WalkState K) := walkFrom crates config 0 ⟨none, snapshots⟩ entriesPrefix

def resolve (entriesPrefix : List Bytes) : MirrorResult (GovernanceState K) := do
  let w ← walk crates config entriesPrefix none
  okOr (.governanceChainUnresolvable entriesPrefix.length) w.state

def versions (entriesPrefix : List Bytes) : MirrorResult (List (GovernanceState K)) := do
  let w ← walk crates config entriesPrefix (some [])
  match w.snapshots with
  | some (first :: rest) => .ok (first :: rest)
  | _ => .error (.governanceChainUnresolvable entriesPrefix.length)

end AhlMirror
