import AhlMirror.Model.Checkpoint

/-!
# Range enumeration

`range.rs`: the windowed builder of a range response (`buildRangeResponseIn`), the full-prefix
builder it replaced, kept in the source as a test oracle, and the offline verifier.
-/

namespace AhlMirror

structure EnumeratedEntry where
  entryIndex : Nat
  envelope : Value

structure RangeEnvelope where
  fromIndex : Nat
  toIndex : Nat
deriving DecidableEq, Repr

structure RangeProofWire where
  adaptorForm : String
deriving DecidableEq, Repr

structure RangeResponse where
  range : RangeEnvelope
  entries : List EnumeratedEntry
  rangeProof : RangeProofWire
  checkpoint : Checkpoint

structure RangeReadCost where
  entryBytes : Nat
  treeNodes : Nat
deriving DecidableEq, Repr

def RangeReadCost.totalBytes (cost : RangeReadCost) : Nat :=
  saturatingAdd cost.entryBytes (saturatingMul cost.treeNodes 32)

/-- Where a subtree sits relative to the proven range. -/
inductive Span where
  | outside
  | inside
  | straddles
deriving DecidableEq, Repr

def classify (offset size fromIndex toIndex : Nat) : Span :=
  let stop := saturatingAdd offset size
  if stop ≤ fromIndex ∨ offset ≥ toIndex then .outside
  else if offset ≥ fromIndex ∧ stop ≤ toIndex then .inside
  else .straddles

/-- `u64::count_ones`. -/
def countOnes (n : Nat) : Nat := ((List.range 64).filter fun bit => n.testBit bit).length

variable {H K : Type} [HashOctets H] (crates : Crates H K)

/-- `outsideSubtrees` with explicit fuel: the depth of the decomposition. -/
def outsideSubtreesFuel (fromIndex toIndex : Nat) : Nat → Nat → Nat → List (Nat × Nat)
  | 0, _, _ => []
  | fuel + 1, offset, size =>
    match classify offset size fromIndex toIndex with
    | .outside => [(offset, size)]
    | .inside => []
    | .straddles =>
      let k := crates.largestPowerOf2LessThan size
      outsideSubtreesFuel fromIndex toIndex fuel offset k ++
        outsideSubtreesFuel fromIndex toIndex fuel (saturatingAdd offset k) (size - k)

/-- The maximal subtrees of `[offset, offset + size)` outside the window, left to right. -/
def outsideSubtrees (offset size fromIndex toIndex : Nat) : List (Nat × Nat) :=
  outsideSubtreesFuel crates fromIndex toIndex (size + 1) offset size

/-- The window's entries, parsed, from position `offset` on. -/
def enumerateEntries (fromIndex : Nat) : Nat → List Bytes → MirrorResult (List EnumeratedEntry)
  | _, [] => .ok []
  | offset, bytes :: rest => do
    let entryIndex ← okOr (.indexOverflow "entry_index") (checkedAdd fromIndex offset)
    let envelope ← mapErr .json (crates.fromSlice bytes)
    let entries ← enumerateEntries fromIndex (offset + 1) rest
    .ok (⟨entryIndex, envelope⟩ :: entries)

/-- The `open` closure: a subtree's root, and the node count after it. -/
def openSubtree (db : Db) (treeNodes offset size : Nat) : MirrorResult (H × Nat) := do
  let root ← subtreeRootRaw crates db offset size
  .ok (root, saturatingAdd treeNodes (countOnes size))

/-- The roots of the outside subtrees, in order. -/
def openSubtrees (db : Db) : List (Nat × Nat) → Nat → MirrorResult (List H × Nat)
  | [], treeNodes => .ok ([], treeNodes)
  | (offset, size) :: rest, treeNodes => do
    let (node, treeNodes) ← openSubtree crates db treeNodes offset size
    let (nodes, treeNodes) ← openSubtrees db rest treeNodes
    .ok (node :: nodes, treeNodes)

def buildRangeResponseIn [DecidableEq H] (db : Db) (checkpoint : Checkpoint) (fromIndex toIndex : Nat) :
    MirrorResult (RangeResponse × RangeReadCost) := do
  let treeSize := checkpoint.treeSize
  let have_ ← countEntriesRaw db 0 treeSize
  if have_ ≠ treeSize then .error (.incompleteEntries have_ treeSize)
  else if fromIndex ≥ toIndex ∨ toIndex > treeSize then .error (.invalidRange fromIndex toIndex treeSize)
  else do
    let root ← mapErr .ahl (crates.parseHashHex checkpoint.rootHash)
    let (opened, treeNodes) ← openSubtree crates db 0 0 treeSize
    if opened ≠ root then .error (.checkpointRootMismatch treeSize)
    else do
      let (nodes, treeNodes) ← openSubtrees crates db (outsideSubtrees crates 0 treeSize fromIndex toIndex) treeNodes
      let proof : RangeProof H := ⟨treeSize, fromIndex, toIndex, nodes⟩
      let windowLeaves ← leafHashesRangeRaw db fromIndex toIndex
      let treeNodes := saturatingAdd treeNodes windowLeaves.length
      let verified ← mapErr .ahl (crates.rangeProofVerify proof windowLeaves root)
      if verified = false then .error (.checkpointRootMismatch treeSize)
      else do
        let window ← getEntriesRangeRaw db fromIndex toIndex
        let entries ← enumerateEntries crates fromIndex 0 window
        let entryBytes := window.foldl (fun total bytes => saturatingAdd total bytes.length) 0
        .ok (⟨⟨fromIndex, toIndex⟩, entries, ⟨crates.rangeProofEncode proof⟩, checkpoint⟩,
          ⟨entryBytes, treeNodes⟩)

def buildRangeResponse [DecidableEq H] (db : Db) (checkpoint : Checkpoint) (fromIndex toIndex : Nat) :
    MirrorResult RangeResponse := do
  let (response, _) ← buildRangeResponseIn crates db checkpoint fromIndex toIndex
  .ok response

/-- The entries carry consecutive indices from `range.from_index`, checked from `offset` on. -/
def checkContiguous (response : RangeResponse) : Nat → List EnumeratedEntry → MirrorResult Unit
  | _, [] => .ok ()
  | offset, entry :: rest => do
    let expected ← okOr (.indexOverflow "entry_index") (checkedAdd response.range.fromIndex offset)
    if entry.entryIndex ≠ expected then
      .error (.invalidRange response.range.fromIndex response.range.toIndex response.checkpoint.treeSize)
    else checkContiguous response (offset + 1) rest

def verifyRangeResponse (response : RangeResponse) : MirrorResult Bool := do
  checkContiguous response 0 response.entries
  let leafHashes := response.entries.map fun entry => logLeafHash crates (crates.jcs entry.envelope)
  let proof ← mapErr .ahl (crates.rangeProofDecode response.rangeProof.adaptorForm)
  if proof.treeSize ≠ response.checkpoint.treeSize ∨ proof.fromIndex ≠ response.range.fromIndex ∨
      proof.toIndex ≠ response.range.toIndex then
    .error (.invalidRange response.range.fromIndex response.range.toIndex response.checkpoint.treeSize)
  else do
    let root ← mapErr .ahl (crates.parseHashHex response.checkpoint.rootHash)
    mapErr .ahl (crates.rangeProofVerify proof leafHashes root)

/-- `get(from..to)` of a slice. -/
def sliceGet {α : Type} (items : List α) (start stop : Nat) : Option (List α) :=
  if start ≤ stop ∧ stop ≤ items.length then some ((items.drop start).take (stop - start)) else none

/-- The full-prefix builder, the source's test oracle. -/
def buildRangeResponseFromPrefix [DecidableEq H] (checkpoint : Checkpoint) (fromIndex toIndex : Nat)
    (allEntries : List Bytes) : MirrorResult RangeResponse := do
  let treeSize := checkpoint.treeSize
  if allEntries.length ≠ treeSize then .error (.incompleteEntries allEntries.length treeSize)
  else if fromIndex ≥ toIndex ∨ toIndex > treeSize then .error (.invalidRange fromIndex toIndex treeSize)
  else do
    let leafHashes := allEntries.map (logLeafHash crates)
    let root ← mapErr .ahl (crates.parseHashHex checkpoint.rootHash)
    if crates.computeRoot leafHashes ≠ root then .error (.checkpointRootMismatch treeSize)
    else do
      let proof ← mapErr .ahl (crates.rangeProofGenerate leafHashes fromIndex toIndex)
      let span ← okOr (.invalidRange fromIndex toIndex treeSize) (sliceGet leafHashes fromIndex toIndex)
      let verified ← mapErr .ahl (crates.rangeProofVerify proof span root)
      if verified = false then .error (.checkpointRootMismatch treeSize)
      else do
        let window ← okOr (.invalidRange fromIndex toIndex treeSize) (sliceGet allEntries fromIndex toIndex)
        let entries ← enumerateEntries crates fromIndex 0 window
        .ok ⟨⟨fromIndex, toIndex⟩, entries, ⟨crates.rangeProofEncode proof⟩, checkpoint⟩

end AhlMirror
