import AhlMirror.Merkle.Walk

/-!
# Values, errors and the crates the mirror calls

`Bytes` is `Vec<u8>`, `Value` is `serde_json::Value`, and `MirrorError` is `error.rs`. A `u64` is a
`Nat` that the code's own conversions and checked operations bound (`toI64`, `checkedAdd`, ...).

What the mirror takes from crates outside the repository (`ahl-core`, `atl-core`, `sha2`,
`serde_json`, `time`, `ed25519-dalek`) is the record `Crates`, over an abstract hash type `H` and
verifying-key type `K`; a proof that relies on one of these functions names what it relies on. The
`atl-core` builders take a node callback, so they are `NodeQuery` programs.
-/

namespace AhlMirror

open Merkle (NodeQuery)

abbrev Bytes := List UInt8

/-! ### JSON -/

inductive Number where
  | posInt (n : Nat)
  | negInt (n : Int)
  | float (literal : String)
deriving DecidableEq, Repr

/-- `serde_json::Value`; an object is its member list. -/
inductive Value where
  | null
  | bool (b : Bool)
  | number (n : Number)
  | string (s : String)
  | array (items : List Value)
  | object (members : List (String × Value))

namespace Value

def get (value : Value) (key : String) : Option Value :=
  match value with
  | object members => (members.find? fun member => member.1 == key).map (·.2)
  | _ => none

def asStr : Value → Option String
  | string s => some s
  | _ => none

def asArray : Value → Option (List Value)
  | array items => some items
  | _ => none

def asU64 : Value → Option Nat
  | number (.posInt n) => some n
  | _ => none

def isObject : Value → Bool
  | object _ => true
  | _ => false

end Value

/-! ### Errors -/

/-- `ahl_core::AhlError`, of which only the variant the repository's tests name is told apart. -/
inductive AhlError where
  | field (name : String)
  | other (text : String)
deriving DecidableEq, Repr

/-- `atl_core::AtlError`. -/
structure AtlError where
  text : String
deriving DecidableEq, Repr

/-- `serde_json::Error`. -/
structure JsonError where
  text : String
deriving DecidableEq, Repr

inductive MirrorError where
  | entryIdMismatch (claimed computed : String)
  | malformedEnvelope (reason : String)
  | notCanonical
  /-- The bytes `from_utf8_lossy` renders. -/
  | wrongAdaptorMetadata (got : Bytes)
  | outOfOrderIndex (expected got : Nat)
  | indexConflict (index : Nat) (existingEntryId newEntryId : String)
  | entryIdAtDifferentIndex (entryId : String) (existingIndex requestedIndex : Nat)
  | notStaged (entryId : String)
  | inclusionProofInvalid (entryId : String) (leafIndex treeSize : Nat)
  | storedEntryCorrupt (entryId : String)
  | invalidRange (fromIndex toIndex treeSize : Nat)
  | consistencyOrder (fromSize toSize : Nat)
  | unknownCheckpoint (treeSize : Nat)
  | checkpointNotSeriesUsable (treeSize : Nat)
  | seriesEquivocated (treeSize floor : Nat)
  | incompleteEntries (have_ need : Nat)
  | treeMaterialMissing (level nodeIndex : Nat)
  | treeMaterialCorrupt (level nodeIndex : Nat)
  | checkpointRootMismatch (treeSize : Nat)
  | treeSizeUnrepresentable (treeSize max : Nat)
  | badCheckpointTime (value : String)
  | wrongLogId (expected got : String)
  | unknownSigningKey (keyId : String)
  | keyNotYetActive (keyId : String) (validFromIndex treeSize : Nat)
  | governanceChainUnresolvable (treeSize : Nat)
  | unsupportedStatementVersion (entryIndex : Nat) (declared : Option String) (expected : String)
  | badDuration (value : String)
  | prohibitedDurationComponent (value : String) (component : Char)
  | durationFractionTooLong (value : String)
  | nonPositiveCadence (value : String)
  | badCadenceEpoch (value : String)
  | noGenesisProducerKeys
  | notRotationMaterial (treeSize manifestEntryIndex : Nat) (reason : String)
  | unknownRotationProof (manifestEntryIndex : Nat)
  | signatureInvalid (keyId : String)
  | rawBlobMismatch
  | seriesMemberConflict (treeSize : Nat) (checkpointTime : String)
  | configKeyIdMismatch (configured computed : String)
  | indexOverflow (what : String)
  | json (e : JsonError)
  | ahl (e : AhlError)
  | atl (e : AtlError)
  | store (text : String)
  | storeInit (text : String)
deriving DecidableEq, Repr

abbrev MirrorResult (α : Type) := Except MirrorError α

/-- `Option::ok_or`. -/
def okOr {α : Type} (e : MirrorError) : Option α → MirrorResult α
  | some a => .ok a
  | none => .error e

/-- `Result::map_err`. -/
def mapErr {ε α : Type} (f : ε → MirrorError) : Except ε α → MirrorResult α
  | .ok a => .ok a
  | .error e => .error (f e)

section results
variable {ε α β : Type}

@[simp] theorem okOr_eq_ok {e : MirrorError} {o : Option α} {a : α} : okOr e o = .ok a ↔ o = some a := by
  cases o <;> simp [okOr]

@[simp] theorem mapErr_eq_ok {f : ε → MirrorError} {r : Except ε α} {a : α} : mapErr f r = .ok a ↔ r = .ok a := by
  cases r <;> simp [mapErr]

theorem bind_eq_ok {x : Except ε α} {f : α → Except ε β} {b : β} :
    x >>= f = .ok b ↔ ∃ a, x = .ok a ∧ f a = .ok b := by
  cases x <;> simp [bind, Except.bind]

theorem map_eq_ok {x : Except ε α} {f : α → β} {b : β} : f <$> x = .ok b ↔ ∃ a, x = .ok a ∧ f a = b := by
  cases x <;> simp [Functor.map, Except.map]

theorem bind_eq_error {x : Except ε α} {f : α → Except ε β} {e : ε} :
    (x >>= f) = .error e ↔ x = .error e ∨ ∃ a, x = .ok a ∧ f a = .error e := by
  cases x with
  | error other => simp [Bind.bind, Except.bind]
  | ok a => simp [Bind.bind, Except.bind]

theorem bind_ne_error {x : Except ε α} {f : α → Except ε β} {e : ε} (hx : x ≠ .error e) (hf : ∀ a, f a ≠ .error e) :
    (x >>= f) ≠ .error e := by
  cases x with
  | error other => exact fun h => hx (congrArg Except.error (Except.error.inj h))
  | ok a => exact hf a

theorem isOk_eq_true {x : Except ε Unit} : x.isOk = true ↔ x = .ok () := by
  cases x with
  | error e => exact iff_of_false (by simp [Except.isOk, Except.toBool]) (by simp)
  | ok value => exact iff_of_true rfl rfl

theorem ite_error_eq_ok {p : Prop} [Decidable p] {x : Except ε α} {e : ε} {a : α} :
    (if p then .error e else x) = .ok a ↔ ¬ p ∧ x = .ok a := by
  by_cases hp : p <;> simp [hp]

/-- A condition on the value of a computation, where it has one. -/
instance decidableForallOk (x : Except ε α) (p : α → Prop) [DecidablePred p] : Decidable (∀ a, x = .ok a → p a) :=
  match x with
  | .error _ => isTrue fun _ h => by cases h
  | .ok a => decidable_of_iff (p a) ⟨fun h _ hok => Except.ok.inj hok ▸ h, fun h => h a rfl⟩

@[simp] theorem ok_bind (a : α) (f : α → Except ε β) : (Except.ok a >>= f) = f a := rfl

@[simp] theorem error_bind (e : ε) (f : α → Except ε β) : (Except.error e >>= f) = .error e := rfl

@[simp] theorem pure_eq_ok (a : α) : (pure a : Except ε α) = .ok a := rfl

end results

/-! ### Integers -/

/-- One past the largest `u64`. -/
def u64Bound : Nat := 2 ^ 64

/-- One past the largest `i64`. -/
def i64Bound : Nat := 2 ^ 63

def checkedAdd (a b : Nat) : Option Nat := if a + b < u64Bound then some (a + b) else none
def checkedMul (a b : Nat) : Option Nat := if a * b < u64Bound then some (a * b) else none
def checkedSub (a b : Nat) : Option Nat := if b ≤ a then some (a - b) else none
def checkedDiv (a b : Nat) : Option Nat := if b = 0 then none else some (a / b)
def checkedRem (a b : Nat) : Option Nat := if b = 0 then none else some (a % b)

/-- `1_u64.checked_shl(level)`. -/
def checkedShlOne (level : Nat) : Option Nat := if level < 64 then some (2 ^ level) else none

def saturatingAdd (a b : Nat) : Nat := min (a + b) (u64Bound - 1)
def saturatingMul (a b : Nat) : Nat := min (a * b) (u64Bound - 1)

/-- Convert a domain `u64` to `SQLite`'s `i64`; a stored index is the `Nat` it stands for. -/
def toI64 (what : String) (value : Nat) : MirrorResult Nat :=
  if value < i64Bound then .ok value else .error (.indexOverflow what)

/-- One past a stored `MAX(entry_index)`. -/
def nextAfter (what : String) (value : Nat) : MirrorResult Nat :=
  okOr (.indexOverflow what) (checkedAdd value 1)

section integers

theorem toI64_eq_ok {what : String} {value n : Nat} : toI64 what value = .ok n ↔ value < i64Bound ∧ n = value := by
  unfold toI64
  split_ifs with h
  · simp [h, eq_comm]
  · simp [h]

theorem toI64_of_lt {what : String} {value : Nat} (h : value < i64Bound) : toI64 what value = .ok value := by
  rw [toI64, if_pos h]

theorem checkedAdd_of_lt {a b : Nat} (h : a + b < u64Bound) : checkedAdd a b = some (a + b) := if_pos h

theorem checkedAdd_eq_some {a b c : Nat} : checkedAdd a b = some c ↔ a + b < u64Bound ∧ c = a + b := by
  unfold checkedAdd
  split_ifs with h
  · simp [h, eq_comm]
  · simp [h]

theorem checkedMul_eq_some {a b c : Nat} : checkedMul a b = some c ↔ a * b < u64Bound ∧ c = a * b := by
  unfold checkedMul
  split_ifs with h
  · simp [h, eq_comm]
  · simp [h]

theorem checkedMul_of_lt {a b : Nat} (h : a * b < u64Bound) : checkedMul a b = some (a * b) := if_pos h

theorem checkedSub_of_le {a b : Nat} (h : b ≤ a) : checkedSub a b = some (a - b) := if_pos h

theorem checkedSub_eq_some {a b c : Nat} : checkedSub a b = some c ↔ b ≤ a ∧ c = a - b := by
  unfold checkedSub
  split_ifs with h
  · simp [h, eq_comm]
  · simp [h]

theorem checkedDiv_of_pos {a b : Nat} (h : 0 < b) : checkedDiv a b = some (a / b) := if_neg (by omega)

theorem checkedRem_of_pos {a b : Nat} (h : 0 < b) : checkedRem a b = some (a % b) := if_neg (by omega)

theorem checkedShlOne_of_lt {level : Nat} (h : level < 64) : checkedShlOne level = some (2 ^ level) := if_pos h

theorem saturatingAdd_of_lt {a b : Nat} (h : a + b < u64Bound) : saturatingAdd a b = a + b := by
  unfold saturatingAdd
  omega

end integers

/-! ### Hashes and proofs -/

/-- A hash stored as a `BLOB`: `as_slice`, and `Hash::try_from` that reads it back. -/
class HashOctets (H : Type) where
  asSlice : H → Bytes
  tryFrom : Bytes → Option H
  tryFrom_asSlice : ∀ hash, tryFrom (asSlice hash) = some hash

export HashOctets (asSlice tryFrom tryFrom_asSlice)

attribute [simp] tryFrom_asSlice

/-- `hex::encode`. -/
def hexEncode (bytes : Bytes) : String :=
  String.ofList (bytes.flatMap fun byte => [Nat.digitChar (byte.toNat / 16), Nat.digitChar (byte.toNat % 16)])

theorem hexEncode_injective : Function.Injective hexEncode := by
  have hdigit : ∀ a < 16, ∀ b < 16, Nat.digitChar a = Nat.digitChar b → a = b := by decide
  have hlist : ∀ a b : Bytes, (a.flatMap fun byte => [Nat.digitChar (byte.toNat / 16), Nat.digitChar (byte.toNat % 16)]) =
      (b.flatMap fun byte => [Nat.digitChar (byte.toNat / 16), Nat.digitChar (byte.toNat % 16)]) → a = b := by
    intro a
    induction a with
    | nil =>
      intro b h
      cases b with
      | nil => rfl
      | cons y b => simp at h
    | cons x a ih =>
      intro b h
      cases b with
      | nil => simp at h
      | cons y b =>
        simp only [List.flatMap_cons, List.cons_append, List.nil_append, List.cons.injEq] at h
        obtain ⟨hhigh, hlow, hrest⟩ := h
        have hx := x.toNat_lt
        have hy := y.toNat_lt
        have hhigh := hdigit _ (by omega) _ (by omega) hhigh
        have hlow := hdigit _ (by omega) _ (by omega) hlow
        rw [ih b hrest, UInt8.toNat_inj.1 (show x.toNat = y.toNat by omega)]
  intro a b h
  exact hlist a b (String.ofList_injective h)

/-- `atl_core::InclusionProof`. -/
structure InclusionProof (H : Type) where
  leafIndex : Nat
  treeSize : Nat
  path : List H
deriving DecidableEq

/-- `atl_core::ConsistencyProof`. -/
structure ConsistencyProof (H : Type) where
  fromSize : Nat
  toSize : Nat
  path : List H
deriving DecidableEq

/-- `ahl_core::range_proof::RangeProof`. -/
structure RangeProof (H : Type) where
  treeSize : Nat
  fromIndex : Nat
  toIndex : Nat
  nodes : List H
deriving DecidableEq

/-- The functions the mirror takes from crates outside the repository. -/
structure Crates (H K : Type) where
  /-- `Sha256::digest`. -/
  digest : Bytes → H
  /-- `serde_json::from_slice::<Value>`. -/
  fromSlice : Bytes → Except JsonError Value
  /-- `ahl_core::AHL_VERSION`. -/
  ahlVersion : String
  /-- `ahl_core::parse_hash_hex`. -/
  parseHashHex : String → Except AhlError H
  /-- `ahl_core::jcs`. -/
  jcs : Value → Bytes
  /-- `ahl_core::entry_id`, of a parsed envelope. -/
  entryId : Value → String
  /-- `ahl_core::decode_pubkey`. -/
  decodePubkey : String → Except AhlError K
  /-- `VerifyingKey::as_bytes`. -/
  keyBytes : K → Bytes
  /-- `ahl_core::verify_signature`. -/
  verifySignature : K → Bytes → String → Except AhlError Bool
  /-- `ahl_core::verify_envelope`, with its key resolver. -/
  verifyEnvelope : Value → (String → Option String) → Except AhlError Bool
  /-- `ahl_core::proof_from_hex`. -/
  proofFromHex : Nat → Nat → List String → Except AhlError (InclusionProof H)
  /-- `ahl_core::proof_path_hex`. -/
  proofPathHex : InclusionProof H → List String
  /-- `ahl_core::range_proof::generate`. -/
  rangeProofGenerate : List H → Nat → Nat → Except AhlError (RangeProof H)
  /-- `ahl_core::range_proof::verify`. -/
  rangeProofVerify : RangeProof H → List H → H → Except AhlError Bool
  /-- `ahl_core::range_proof::encode`. -/
  rangeProofEncode : RangeProof H → String
  /-- `ahl_core::range_proof::decode`. -/
  rangeProofDecode : String → Except AhlError (RangeProof H)
  /-- `atl_core::compute_key_id`. -/
  computeKeyId : Bytes → H
  /-- `atl_core::core::merkle::compute_leaf_hash`. -/
  computeLeafHash : H → H → H
  /-- `atl_core::core::merkle::hash_children`. -/
  hashChildren : H → H → H
  /-- `atl_core::core::merkle::largest_power_of_2_less_than`. -/
  largestPowerOf2LessThan : Nat → Nat
  /-- `atl_core::core::merkle::compute_root`. -/
  computeRoot : List H → H
  /-- `atl_core::core::merkle::compute_subtree_root`. -/
  computeSubtreeRoot : Nat → Nat → NodeQuery H (Except AtlError H)
  /-- `atl_core::core::merkle::generate_inclusion_proof`. -/
  generateInclusionProof : Nat → Nat → NodeQuery H (Except AtlError (InclusionProof H))
  /-- `atl_core::core::merkle::generate_consistency_proof`. -/
  generateConsistencyProof : Nat → Nat → NodeQuery H (Except AtlError (ConsistencyProof H))
  /-- `atl_core::core::merkle::verify_inclusion`. -/
  verifyInclusion : H → InclusionProof H → H → Except AtlError Bool
  /-- `atl_core::core::merkle::verify_consistency`. -/
  verifyConsistency : ConsistencyProof H → H → H → Except AtlError Bool
  /-- `PrimitiveDateTime::parse` under the checkpoint format, as UTC unix nanoseconds. -/
  parsePrimitiveDateTime : String → Option Int
  /-- `OffsetDateTime::from_unix_timestamp_nanos` rendered under the checkpoint format. -/
  formatUnixNanos : Int → Option String
  /-- `OffsetDateTime::parse` under RFC 3339, as unix nanoseconds. -/
  parseRfc3339 : String → Option Int

end AhlMirror
