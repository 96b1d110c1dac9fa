import AhlMirror.Model.Laws
import AhlMirror.Model.Run

/-!
# The crates as symbols

A concrete instance of `Crates` to run the model on. A hash is what it hashes, a tree in prefix order; a
key is its name, and signs by naming itself before the blob; a document parses to the value a table
gives for its octets, and serializes to the octets it says it has. The instance satisfies the laws of
the builders, `SpanLaws`, `InclusionLaws`, `PathLaws`, `ConsistencyLaws` and `RangeLaws`, whatever the table; with
keys spelled out in full it satisfies `KeyIdLaws` too. `documents` is the table of one small log, which the concrete
runs of the development use.
-/

namespace AhlMirror.Symbolic

open AhlMirror.Core Merkle
open Merkle.NodeQuery (done)

instance : HashOctets Bytes := ⟨id, some, fun _ => rfl⟩

/-! ### Octets and strings -/

def hexValue (char : Char) : Option Nat :=
  if char.isDigit then some (char.toNat - '0'.toNat)
  else if 'a' ≤ char ∧ char ≤ 'f' then some (char.toNat - 'a'.toNat + 10)
  else none

def hexDecode : List Char → Option Bytes
  | high :: low :: rest => do
    let high ← hexValue high
    let low ← hexValue low
    let bytes ← hexDecode rest
    some (UInt8.ofNat (high * 16 + low) :: bytes)
  | [] => some []
  | _ => none

/-- `"sha256:" || hex(hash)`. -/
def hashText (hash : Bytes) : String := "sha256:" ++ hexEncode hash

def parseHashHex (text : String) : Except AhlError Bytes :=
  if text.toList.take 7 = "sha256:".toList then
    match hexDecode (text.toList.drop 7) with
    | some bytes => .ok bytes
    | none => .error (.other "hex")
  else .error (.other "family")

def keyBytes (key : String) : Bytes := key.toList.map fun char => UInt8.ofNat char.toNat

/-- The decimal digits of a number, padded. -/
def padded (width n : Nat) : String :=
  String.ofList ((List.range width).reverse.map fun i => Nat.digitChar (n / 10 ^ i % 10))

def number (digits : List Char) : Nat := digits.foldl (fun n char => 10 * n + (char.toNat - '0'.toNat)) 0

/-- Only the first minute of the epoch has a rendering. -/
def formatUnixNanos (nanos : Int) : Option String :=
  if 0 ≤ nanos ∧ nanos < 60000000000 then
    some ("1970-01-01T00:00:" ++ padded 2 (nanos.toNat / 1000000000) ++ "." ++ padded 9 (nanos.toNat % 1000000000) ++ "Z")
  else none

def parsePrimitiveDateTime (value : String) : Option Int :=
  some (number ((value.toList.drop 17).take 2) * 1000000000 + number ((value.toList.drop 20).take 9))

/-- The civil time of unix nanoseconds, in years of four digits. -/
def formatCivil (nanos : Int) : Option String :=
  if 0 ≤ nanos + unixEpoch ∧ (CivilTime.ofInstant (nanos + unixEpoch).toNat).year ≤ 9999 then
    some (profileText (CivilTime.ofInstant (nanos + unixEpoch).toNat))
  else none

/-- The fields at their places, where the calendar has that time. -/
def parseCivil (value : String) : Option Int :=
  let field (position width : Nat) : Nat := number ((value.toList.drop position).take width)
  if h : (1 ≤ field 5 2 ∧ field 5 2 ≤ 12) ∧ (1 ≤ field 8 2 ∧ field 8 2 ≤ monthLength (field 0 4) (field 5 2)) ∧
      field 11 2 < 24 ∧ field 14 2 < 60 ∧ field 17 2 < 60 ∧ field 20 9 < 1000000000 then
    let t : CivilTime := ⟨field 0 4, field 5 2, field 8 2, field 11 2, field 14 2, field 17 2, field 20 9,
      h.1.1, h.1.2, h.2.1.1, h.2.1.2, h.2.2.1, h.2.2.2.1, h.2.2.2.2.1, h.2.2.2.2.2⟩
    some ((t.instant : Int) - unixEpoch)
  else none

/-! ### Documents -/

/-- The octets a document serializes to. -/
def octetsOf (value : Value) : Bytes :=
  match (value.get "octets").bind Value.asArray with
  | some items => items.map fun item => UInt8.ofNat (item.asU64.getD 0)
  | none => [0]

/-- The first signature's key verifies where it resolves and its name is the signature. -/
def verifyEnvelope (envelope : Value) (resolve : String → Option String) : Except AhlError Bool :=
  match (((envelope.get "signatures").bind Value.asArray).bind List.head?) with
  | none => .ok false
  | some signature =>
    match (signature.get "key_id").bind Value.asStr with
    | none => .error (.field "key_id")
    | some keyId =>
      match resolve keyId with
      | none => .ok false
      | some pubkey => .ok (decide ((signature.get "sig").bind Value.asStr = some pubkey))

/-! ### Trees -/

/-- A node in prefix order, behind an octet no leaf has. -/
def hashChildren (left right : Bytes) : Bytes := 255 :: left ++ right

def miss (offset : Nat) : AtlError := ⟨"leaf " ++ toString offset⟩

/-- The leaf at a position of a leaf list. -/
def leafOf (leaves : List Bytes) (index : Nat) : Bytes := leaves[index]?.getD []

def verifyInclusion (leaf : Bytes) (proof : InclusionProof Bytes) (root : Bytes) : Except AtlError Bool :=
  .ok (decide (proof.leafIndex < proof.treeSize) &&
    decide (openPath hashChildren proof.treeSize proof.leafIndex leaf proof.path = some root))

def verifyConsistency (proof : ConsistencyProof Bytes) (fromRoot toRoot : Bytes) : Except AtlError Bool :=
  .ok (decide (openConsistency hashChildren fromRoot proof.fromSize proof.toSize proof.path = some (fromRoot, toRoot)))

def rangeProofGenerate (leaves : List Bytes) (start stop : Nat) : Except AhlError (RangeProof Bytes) :=
  if start < stop ∧ stop ≤ leaves.length then
    .ok ⟨leaves.length, start, stop, (outsideSpans start stop 0 leaves.length).map fun span =>
      spanRoot hashChildren (leafOf leaves) span.1 span.2⟩
  else .error (.other "range")

def rangeProofVerify (proof : RangeProof Bytes) (window : List Bytes) (root : Bytes) : Except AhlError Bool :=
  .ok (decide (rebuild hashChildren (fun i => leafOf window (i - proof.fromIndex)) proof.fromIndex proof.toIndex 0
    proof.treeSize proof.nodes = some (root, [])))

/-- A node as characters, none of them the separator. -/
def nodeText (node : Bytes) : List Char := node.map fun octet => Char.ofNat (256 + octet.toNat)

def nodeOfText (text : List Char) : Bytes := text.map fun char => UInt8.ofNat (char.toNat - 256)

def rangeProofEncode (proof : RangeProof Bytes) : String :=
  String.ofList (['/'].intercalate (List.replicate proof.treeSize '1' :: List.replicate proof.fromIndex '1' ::
    List.replicate proof.toIndex '1' :: proof.nodes.map nodeText))

def rangeProofDecode (text : String) : Except AhlError (RangeProof Bytes) :=
  match text.toList.splitOn '/' with
  | treeSize :: fromIndex :: toIndex :: nodes =>
    .ok ⟨treeSize.length, fromIndex.length, toIndex.length, nodes.map nodeOfText⟩
  | _ => .error (.other "range proof")

/-! ### The instance -/

def crates (documents : List (Bytes × Value)) : Crates Bytes String where
  digest := id
  fromSlice bytes :=
    match documents.find? fun document => document.1 == bytes with
    | some document => .ok document.2
    | none => .error ⟨"not a document"⟩
  ahlVersion := "1"
  parseHashHex := parseHashHex
  jcs := octetsOf
  entryId envelope := hashText (octetsOf envelope)
  decodePubkey text := .ok text
  keyBytes := keyBytes
  verifySignature key blob signature := .ok (decide (signature = key ++ ":" ++ hexEncode blob))
  verifyEnvelope := verifyEnvelope
  proofFromHex leafIndex treeSize path := (path.mapM parseHashHex).map fun path => ⟨leafIndex, treeSize, path⟩
  proofPathHex proof := proof.path.map hashText
  rangeProofGenerate := rangeProofGenerate
  rangeProofVerify := rangeProofVerify
  rangeProofEncode := rangeProofEncode
  rangeProofDecode := rangeProofDecode
  computeKeyId := id
  computeLeafHash payload _ := payload
  hashChildren := hashChildren
  largestPowerOf2LessThan := splitPoint
  computeRoot leaves := mth hashChildren [] leaves
  computeSubtreeRoot offset size := subtreeWalk hashChildren miss offset size
  generateInclusionProof leafIndex treeSize :=
    (pathWalk hashChildren miss 0 treeSize leafIndex).andThen fun path => done (.ok ⟨leafIndex, treeSize, path⟩)
  generateConsistencyProof fromSize toSize :=
    (consistencyWalk hashChildren miss fromSize toSize).andThen fun path => done (.ok ⟨fromSize, toSize, path⟩)
  verifyInclusion := verifyInclusion
  verifyConsistency := verifyConsistency
  parsePrimitiveDateTime := parsePrimitiveDateTime
  formatUnixNanos := formatUnixNanos
  parseRfc3339 text := if text = "1970-01-01T00:00:00Z" then some 0 else none

section laws
variable (documents : List (Bytes × Value))

theorem splitLaws : SplitLaws (crates documents) := ⟨fun _ _ => rfl⟩

theorem rootLaws : RootLaws (crates documents) := ⟨fun _ => rfl⟩

theorem subtreeLaws : SubtreeLaws (crates documents) := .of_walk fun _ _ => rfl

theorem inclusionProofLaws : InclusionProofLaws (crates documents) := .of_walk fun _ _ => rfl

theorem consistencyProofLaws : ConsistencyProofLaws (crates documents) := .of_walk fun _ _ => rfl

theorem viewLaws : ViewLaws (crates documents) := ⟨subtreeLaws documents, consistencyProofLaws documents⟩

theorem subtreeReadLaws : SubtreeReadLaws (crates documents) miss := ⟨fun _ _ _ => rfl⟩

theorem inclusionProofReadLaws : InclusionProofReadLaws (crates documents) miss := .of_walk fun _ _ => rfl

theorem consistencyProofReadLaws : ConsistencyProofReadLaws (crates documents) miss := .of_walk fun _ _ => rfl

theorem spanLaws : SpanLaws (crates documents) where
  computeSubtreeRoot offset size := by
    cases size with
    | zero => trivial
    | succ size => exact subtreeWalk_asks hashChildren miss (Nat.le_add_left 1 size)
  generateInclusionProof leafIndex treeSize :=
    NodeQuery.Asks.andThen (fun _ => NodeQuery.asks_done _ _) (pathWalk_asks hashChildren miss 0 treeSize leafIndex)
  generateConsistencyProof fromSize toSize :=
    NodeQuery.Asks.andThen (fun _ => NodeQuery.asks_done _ _) (consistencyWalk_asks hashChildren miss fromSize toSize)

theorem inclusionLaws : InclusionLaws (crates documents) where
  proofFromHex {leafIndex treeSize path proof} h := by
    obtain ⟨nodes, -, rfl⟩ : ∃ nodes, path.mapM parseHashHex = .ok nodes ∧
        (⟨leafIndex, treeSize, nodes⟩ : InclusionProof Bytes) = proof := map_eq_ok.1 h
    exact ⟨rfl, rfl⟩
  verifyInclusion {leaf root proof} h := by
    have h : (decide (proof.leafIndex < proof.treeSize) &&
        decide (openPath hashChildren proof.treeSize proof.leafIndex leaf proof.path = some root)) = true :=
      Except.ok.inj h
    rw [Bool.and_eq_true, decide_eq_true_eq] at h
    exact h.1

theorem hexDecode_hexEncode (bytes : Bytes) : hexDecode (hexEncode bytes).toList = some bytes := by
  have hdigit : ∀ n < 16, hexValue (Nat.digitChar n) = some n := by decide
  unfold hexEncode
  rw [String.toList_ofList]
  induction bytes with
  | nil => rfl
  | cons byte bytes ih =>
    have hlt := byte.toNat_lt
    rw [List.flatMap_cons, List.cons_append, List.cons_append, List.nil_append, hexDecode, ih,
      hdigit (byte.toNat / 16) (by omega), hdigit (byte.toNat % 16) (by omega)]
    show some (UInt8.ofNat (byte.toNat / 16 * 16 + byte.toNat % 16) :: bytes) = _
    rw [Nat.div_add_mod', UInt8.ofNat_toNat]

theorem parseHashHex_hashText (hash : Bytes) : parseHashHex (hashText hash) = .ok hash := by
  have hfamily : (hashText hash).toList = "sha256:".toList ++ (hexEncode hash).toList := String.toList_append
  have hlength : "sha256:".toList.length = 7 := rfl
  unfold parseHashHex
  rw [hfamily, List.take_left' hlength, List.drop_left' hlength, if_pos rfl, hexDecode_hexEncode]

theorem pathLaws : PathLaws (crates documents) where
  verifyInclusion leaf leafIndex treeSize hlt := by
    have hopens : openPath hashChildren treeSize leafIndex (leaf (0 + leafIndex)) _ = _ :=
      openPath_auditPath hashChildren leaf hlt
    rw [Nat.zero_add] at hopens
    simp only [crates, verifyInclusion, hopens, hlt, decide_true, Bool.and_self]
  proofFromHex proof := by
    obtain ⟨leafIndex, treeSize, path⟩ := proof
    have hparse : ∀ nodes : List Bytes, (nodes.map hashText).mapM parseHashHex = .ok nodes := by
      intro nodes
      induction nodes with
      | nil => rfl
      | cons node nodes ih =>
        rw [List.map_cons, List.mapM_cons, parseHashHex_hashText, ih]
        rfl
    show ((path.map hashText).mapM parseHashHex).map _ = _
    rw [hparse]
    rfl

theorem consistencyLaws : ConsistencyLaws (crates documents) where
  verifyConsistency leaf fromSize toSize hpos hle := by
    have h := openConsistency_consistencyPath hashChildren leaf hpos hle
    simp only [crates, verifyConsistency, h, decide_true]

theorem charOfNat_toNat {n : Nat} (h : n.isValidChar) : (Char.ofNat n).toNat = n := by
  rw [Char.ofNat, dif_pos h]
  rfl

theorem nodeOfText_nodeText (node : Bytes) : nodeOfText (nodeText node) = node := by
  have hoctet : ∀ octet : UInt8, UInt8.ofNat ((Char.ofNat (256 + octet.toNat)).toNat - 256) = octet := by
    intro octet
    have hlt := octet.toNat_lt
    have hvalid : (256 + octet.toNat).isValidChar := Or.inl (by omega)
    rw [charOfNat_toNat hvalid, Nat.add_sub_cancel_left, UInt8.ofNat_toNat]
  simp [nodeOfText, nodeText, Function.comp_def, hoctet]

theorem rangeLaws : RangeLaws (crates documents) where
  generate leaves leaf start stop hlt hle hleaf := by
    have hone : 1 ≤ leaves.length := by omega
    refine ⟨outsideSpans start stop 0 leaves.length, outsideSpans_sorted hone, mem_outsideSpans_iff hone, ?_⟩
    have hroots : ∀ span ∈ outsideSpans start stop 0 leaves.length,
        spanRoot hashChildren (leafOf leaves) span.1 span.2 = spanRoot hashChildren leaf span.1 span.2 := by
      intro span hspan
      have hwithin := outsideSpans_within hone hspan
      refine spanRoot_congr hashChildren hwithin.1 fun i _ hhigh => ?_
      rw [hleaf i (by omega)]
      simp [leafOf, show i < leaves.length by omega]
    show rangeProofGenerate leaves start stop = _
    rw [rangeProofGenerate, if_pos ⟨hlt, hle⟩, List.map_congr_left hroots]
    rfl
  verify treeSize start stop nodes window leaf root hlt hle hlen hwindow hrebuild := by
    have hleaf : ∀ i, start ≤ i → i < stop → leafOf window (i - start) = leaf i := by
      intro i hlow hhigh
      have hi : i - start < window.length := by omega
      have h := hwindow (i - start) hi
      rw [Nat.add_sub_cancel' hlow] at h
      simp [leafOf, hi, h]
    have hrebuild : rebuild hashChildren leaf start stop 0 treeSize nodes = some (root, []) := hrebuild
    show rangeProofVerify _ window root = _
    unfold rangeProofVerify
    dsimp only
    rw [rebuild_congr hleaf (by omega), hrebuild, decide_eq_true rfl]
  decode proof := by
    obtain ⟨treeSize, start, stop, nodes⟩ := proof
    have hfree : ∀ node : Bytes, '/' ∉ nodeText node := by
      intro node hmem
      obtain ⟨octet, -, hchar⟩ := List.mem_map.1 hmem
      have hoctet := octet.toNat_lt
      have hvalid : (256 + octet.toNat).isValidChar := Or.inl (by omega)
      have hnat : (Char.ofNat (256 + octet.toNat)).toNat = '/'.toNat := by rw [hchar]
      rw [charOfNat_toNat hvalid, show '/'.toNat = 47 from rfl] at hnat
      omega
    have hfields : ∀ text ∈ List.replicate treeSize '1' :: List.replicate start '1' :: List.replicate stop '1' ::
        nodes.map nodeText, '/' ∉ text := by
      intro text htext
      simp only [List.mem_cons, List.mem_map] at htext
      rcases htext with rfl | rfl | rfl | ⟨node, -, rfl⟩
      · simp [List.mem_replicate]
      · simp [List.mem_replicate]
      · simp [List.mem_replicate]
      · exact hfree node
    have hsplit := List.splitOn_intercalate '/' hfields (by simp)
    show rangeProofDecode (rangeProofEncode _) = _
    simp only [rangeProofDecode, rangeProofEncode, String.toList_ofList, hsplit, List.length_replicate, List.map_map]
    simp [Function.comp_def, nodeOfText_nodeText]

/-- The octets of a key's name, by which it can be told from every other. -/
def namedBytes (key : String) : Bytes := key.toUTF8.data.toList

/-- The instance with key ids that tell the key. -/
def namedCrates : Crates Bytes String := { crates documents with keyBytes := namedBytes }

theorem keyIdLaws : KeyIdLaws (namedCrates documents) where
  computeKeyId _ _ h := String.toByteArray_inj.1 (ByteArray.ext (Array.toList_inj.1 h))

/-- A node that tells how long its left half is. -/
def pairChildren (left right : Bytes) : Bytes := 255 :: (List.replicate left.length 1 ++ 0 :: (left ++ right))

theorem pairChildren_injective : Function.Injective2 pairChildren := by
  have hlength : ∀ (m n : Nat) (x y : Bytes), List.replicate m 1 ++ 0 :: x = List.replicate n 1 ++ 0 :: y →
      m = n ∧ x = y := by
    intro m
    induction m with
    | zero =>
      intro n x y h
      cases n with
      | zero => exact ⟨rfl, (List.cons.inj h).2⟩
      | succ n => exact absurd (List.cons.inj h).1 (by decide)
    | succ m ih =>
      intro n x y h
      cases n with
      | zero => exact absurd (List.cons.inj h).1 (by decide)
      | succ n =>
        obtain ⟨hsame, hrest⟩ := ih n x y (List.cons.inj h).2
        exact ⟨congrArg Nat.succ hsame, hrest⟩
  intro left left' right right' h
  obtain ⟨hsame, hhalves⟩ := hlength _ _ _ _ (List.cons.inj h).2
  exact List.append_inj hhalves hsame

/-- The instance whose nodes can be taken apart, with a verifier that counts its leaves. -/
def pairedCrates : Crates Bytes String :=
  { crates documents with
    hashChildren := pairChildren
    computeRoot leaves := mth pairChildren [] leaves
    rangeProofVerify proof leaves root := .ok (decide (proof.fromIndex + leaves.length = proof.toIndex) &&
      decide (recompute pairChildren [] proof.fromIndex proof.toIndex 0 proof.treeSize leaves proof.nodes =
        some (root, [], []))) }

theorem collisionFree : CollisionFree (pairedCrates documents) := ⟨pairChildren_injective⟩

theorem rangeVerifyLaws : RangeVerifyLaws (pairedCrates documents) where
  verify {proof leaves root} h := by
    have h : (decide (proof.fromIndex + leaves.length = proof.toIndex) &&
      decide (recompute pairChildren [] proof.fromIndex proof.toIndex 0 proof.treeSize leaves proof.nodes =
        some (root, [], []))) = true := Except.ok.inj h
    rwa [Bool.and_eq_true, decide_eq_true_eq, decide_eq_true_eq] at h

/-- The instance with the whole calendar. -/
def civilCrates : Crates Bytes String :=
  { crates documents with formatUnixNanos := formatCivil, parsePrimitiveDateTime := parseCivil }

theorem number_fixed {width n : Nat} (h : n < 10 ^ width) : number (fixed width n) = n := by
  have hdigits := ofDigitChars_fixed n width 0
  rw [Nat.zero_mul, Nat.zero_add, Nat.mod_eq_of_lt h] at hdigits
  exact hdigits

theorem formatCivil_instant {t : CivilTime} (hyear : t.year ≤ 9999) :
    formatCivil ((t.instant : Int) - unixEpoch) = some (profileText t) := by
  have hinstant : CivilTime.ofInstant t.instant = t := CivilTime.instant_injective (CivilTime.instant_ofInstant _)
  rw [formatCivil, Int.sub_add_cancel, Int.toNat_natCast, hinstant, if_pos ⟨Int.natCast_nonneg _, hyear⟩]

theorem parseCivil_profileText {t : CivilTime} (hyear : t.year ≤ 9999) :
    parseCivil (profileText t) = some ((t.instant : Int) - unixEpoch) := by
  have hmonth := t.month_le
  have hday := t.day_le.trans (monthLength_le _ _)
  have hhour := t.hour_lt
  have hminute := t.minute_lt
  have hsecond := t.second_lt
  have htext : ((profileText t).toList.drop 0).take 4 = fixed 4 t.year ∧
      ((profileText t).toList.drop 5).take 2 = fixed 2 t.month ∧ ((profileText t).toList.drop 8).take 2 = fixed 2 t.day ∧
      ((profileText t).toList.drop 11).take 2 = fixed 2 t.hour ∧
      ((profileText t).toList.drop 14).take 2 = fixed 2 t.minute ∧
      ((profileText t).toList.drop 17).take 2 = fixed 2 t.second ∧
      ((profileText t).toList.drop 20).take 9 = fixed 9 t.nanosecond := by
    simp [profileText, fixed]
  obtain ⟨hy, hmo, hd, hh, hmi, hs, hn⟩ := htext
  unfold parseCivil
  simp only [hy, hmo, hd, hh, hmi, hs, hn, number_fixed (show t.year < 10 ^ 4 by omega),
    number_fixed (show t.month < 10 ^ 2 by omega), number_fixed (show t.day < 10 ^ 2 by omega),
    number_fixed (show t.hour < 10 ^ 2 by omega), number_fixed (show t.minute < 10 ^ 2 by omega),
    number_fixed (show t.second < 10 ^ 2 by omega), number_fixed (show t.nanosecond < 10 ^ 9 from t.nanosecond_lt)]
  rw [dif_pos ⟨⟨t.month_pos, t.month_le⟩, ⟨t.day_pos, t.day_le⟩, t.hour_lt, t.minute_lt, t.second_lt, t.nanosecond_lt⟩]

theorem civilCrates_time : (civilCrates documents).formatUnixNanos = formatCivil ∧
    (civilCrates documents).parsePrimitiveDateTime = parseCivil := ⟨rfl, rfl⟩

theorem timeLaws : TimeLaws (civilCrates documents) := by
  constructor
  · intro t hyear
    rw [(civilCrates_time documents).1]
    exact formatCivil_instant hyear
  · intro t hyear
    rw [(civilCrates_time documents).2]
    exact parseCivil_profileText hyear

end laws

/-! ### A small log -/

def keyIdOf (key : String) : String := hashText (keyBytes key)

def keyObject (key : String) : Value := .object [("key_id", .string (keyIdOf key)), ("pubkey", .string key)]

def document (octets : Bytes) (payload : Value) (signature : List (String × Value)) : Bytes × Value :=
  (octets, .object [("payload", payload), ("signatures", .array [.object signature]),
    ("octets", .array (octets.map fun octet => .number (.posInt octet.toNat)))])

def signedBy (key : String) : List (String × Value) := [("key_id", .string (keyIdOf key)), ("sig", .string key)]

def logId : String := hashText (keyBytes "L")

def manifestPayload (version : String) (predecessor : List (String × Value)) (logKey : String) : Value :=
  .object ([("type", .string "manifest"), ("ahl_version", .string version), ("keys", .array [keyObject "P"]),
    ("log", .object [("log_id", .string logId), ("operator", .string "O"),
      ("adaptor", .object [("id", .string "D"), ("hash", .string "H")]), ("checkpoint_cadence", .string "PT1S"),
      ("cadence_epoch", .string "1970-01-01T00:00:00Z"), ("witness_grace_period", .string "PT1S"),
      ("keys", .array [keyObject logKey])])] ++ predecessor)

/-- A manifest that lists log keys by name and activation bound. -/
def manifestListing (predecessor : List (String × Value)) (logKeys : List (String × Nat)) : Value :=
  .object ([("type", .string "manifest"), ("ahl_version", .string "1"), ("keys", .array [keyObject "P"]),
    ("log", .object [("log_id", .string logId), ("operator", .string "O"),
      ("adaptor", .object [("id", .string "D"), ("hash", .string "H")]), ("checkpoint_cadence", .string "PT1S"),
      ("cadence_epoch", .string "1970-01-01T00:00:00Z"), ("witness_grace_period", .string "PT1S"),
      ("keys", .array (logKeys.map fun (key, bound) => .object [("key_id", .string (keyIdOf key)),
        ("pubkey", .string key), ("valid_from_index", .number (.posInt bound))]))])] ++ predecessor)

/-- The genesis manifest names the log key `A`; `2` succeeds it and replaces `A` by `B`; `3` is signed by
the producer and declares an older version; `4` names no signing key; `8` is signed by a stranger; the
rest are plain entries. -/
def documents : List (Bytes × Value) :=
  [document [1] (manifestPayload "1" [] "A") (signedBy "P"),
    document [2] (manifestPayload "1" [("predecessor", .string (hashText [1]))] "B") (signedBy "P"),
    document [3] (manifestPayload "0" [("predecessor", .string (hashText [1]))] "A") (signedBy "P"),
    document [4] (manifestPayload "1" [] "A") [],
    document [5] (.object [("type", .string "event")]) (signedBy "P"),
    document [6] (.object [("type", .string "event")]) (signedBy "P"),
    document [7] (.object [("type", .string "event")]) (signedBy "P"),
    document [8] (manifestPayload "1" [("predecessor", .string (hashText [1]))] "C") (signedBy "Q")]

def config : Config String := ⟨logId, hashText [1], [⟨keyIdOf "P", "P", "P", 0⟩]⟩

def rootOf (entries : List Bytes) : Bytes := mth hashChildren [] entries

/-- The checkpoint over some entries that a key signs. -/
def checkpoint (key : String) (treeSize : Nat) (root : Bytes) (nanos : Nat) : Checkpoint :=
  let cp : Checkpoint := ⟨logId, treeSize, hashText root, (formatUnixNanos nanos).getD "", keyIdOf key, ""⟩
  { cp with signature := key ++ ":" ++ hexEncode ((checkpointBlob (crates documents) cp).toOption.getD []) }

def stage (octet : UInt8) : Call := .stage (hashText [octet]) [octet] adaptorMetadataObject

/-- The promotion of the entry at an index of a log, with its path. -/
def pending (entries : List Bytes) (index : Nat) : PendingPromotion :=
  ⟨hashText (leafOf entries index), index, (auditPath hashChildren (leafOf entries) 0 entries.length index).map hashText⟩

def ingest (cp : Checkpoint) (batch : List PendingPromotion) : Call := .ingest cp none batch none

def promote (treeSize : Nat) (p : PendingPromotion) : Call :=
  .promote ⟨p.entryId, treeSize, p.leafIndex, p.inclusionPath⟩

/-- The store after a run over the small log. -/
def after (calls : List Call) : Db := storeAfter (crates documents) config calls

theorem reachable_after (calls : List Call) : Reachable (crates documents) config (after calls) := ⟨calls, rfl⟩

/-- Two entries, promoted with a checkpoint over both. -/
def twoEntries : Db :=
  after [stage 1, stage 5, ingest (checkpoint "A" 2 (rootOf [[1], [5]]) 5) [pending [[1], [5]] 0, pending [[1], [5]] 1]]

end AhlMirror.Symbolic
