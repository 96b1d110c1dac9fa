import AhlMirror.Model.Range
import AhlMirror.Model.Symbolic

/-!
# An accepted range response

The offline verifier ties three carriers of the same numbers: the echoed range, the index of each entry and
the header of the decoded proof, which must be those of the checkpoint's tree. A response it accepts, whoever
made it up, has exactly the entries of its range, each of them the leaf at its index in every tree with the
checkpoint's root.
-/

namespace AhlMirror

open Merkle

variable {H K : Type} {crates : Crates H K}

theorem entryIndex_of_checkContiguous {response : RangeResponse} {entries : List EnumeratedEntry} {offset : Nat}
    (h : checkContiguous response offset entries = .ok ()) :
    entries.map (·.entryIndex) = List.range' (response.range.fromIndex + offset) entries.length := by
  induction entries generalizing offset with
  | nil => rfl
  | cons entry rest ih =>
    unfold checkContiguous at h
    simp only [bind_eq_ok, okOr_eq_ok, checkedAdd_eq_some, ite_error_eq_ok, not_not] at h
    obtain ⟨expected, ⟨-, rfl⟩, hindex, hrest⟩ := h
    rw [List.map_cons, List.length_cons, List.range'_succ, hindex, ih hrest, Nat.add_assoc]

/-- The decoded proof is for the checkpoint's tree and the echoed range. -/
structure ProofFor (response : RangeResponse) (proof : RangeProof H) : Prop where
  treeSize : proof.treeSize = response.checkpoint.treeSize
  fromIndex : proof.fromIndex = response.range.fromIndex
  toIndex : proof.toIndex = response.range.toIndex

/-- The log leaf hashes of the entries' JCS bytes. -/
def responseLeaves (crates : Crates H K) (response : RangeResponse) : List H :=
  response.entries.map fun entry => logLeafHash crates (crates.jcs entry.envelope)

theorem verifyRangeResponse_eq_true {response : RangeResponse} (h : verifyRangeResponse crates response = .ok true) :
    ∃ proof root, checkContiguous response 0 response.entries = .ok () ∧
      crates.rangeProofDecode response.rangeProof.adaptorForm = .ok proof ∧ ProofFor response proof ∧
      crates.parseHashHex response.checkpoint.rootHash = .ok root ∧
      crates.rangeProofVerify proof (responseLeaves crates response) root = .ok true := by
  unfold verifyRangeResponse at h
  simp only [bind_eq_ok, mapErr_eq_ok, ite_error_eq_ok] at h
  obtain ⟨⟨⟩, hcontiguous, proof, hdecode, hheader, root, hroot, hverify⟩ := h
  obtain ⟨hsize, hrange⟩ := not_or.1 hheader
  obtain ⟨hfrom, hto⟩ := not_or.1 hrange
  exact ⟨proof, root, hcontiguous, hdecode, ⟨not_not.1 hsize, not_not.1 hfrom, not_not.1 hto⟩, hroot, hverify⟩

/-- **An accepted range response proves what it claims.** Its entries are as many as the range is long and
carry the range's indices in order; the decoded proof is for the checkpoint's tree size and that range; and
in every tree of that size with the checkpoint's root, the leaf at each of these indices is the log leaf
hash of the entry's JCS bytes. -/
theorem range_response_sound (hverify : RangeVerifyLaws crates) (hfree : CollisionFree crates) {response : RangeResponse}
    (hok : verifyRangeResponse crates response = .ok true) :
    response.range.fromIndex + response.entries.length = response.range.toIndex ∧
    response.entries.map (·.entryIndex) = List.range' response.range.fromIndex response.entries.length ∧
    (∃ proof, crates.rangeProofDecode response.rangeProof.adaptorForm = .ok proof ∧ ProofFor response proof) ∧
    ∃ root, crates.parseHashHex response.checkpoint.rootHash = .ok root ∧
      ∀ leaves : List H, leaves.length = response.checkpoint.treeSize →
        mth crates.hashChildren (crates.digest []) leaves = root →
        ∀ j (hj : j < response.entries.length), leaves[response.range.fromIndex + j]? =
          some (logLeafHash crates (crates.jcs response.entries[j].envelope)) := by
  obtain ⟨proof, root, hcontiguous, hdecode, hproof, hroot, haccepted⟩ := verifyRangeResponse_eq_true hok
  obtain ⟨hcount, hrecompute⟩ := hverify.verify haccepted
  rw [hproof.fromIndex, hproof.toIndex] at hcount hrecompute
  rw [hproof.treeSize] at hrecompute
  have hlength : (responseLeaves crates response).length = response.entries.length := List.length_map _
  rw [hlength] at hcount
  refine ⟨hcount, entryIndex_of_checkContiguous hcontiguous, ⟨proof, hdecode, hproof⟩, root, hroot, ?_⟩
  intro leaves hsize hmth j hj
  rw [← hsize, ← hmth] at hrecompute
  have hwindow := recompute_window hfree.hashChildren hrecompute
  calc leaves[response.range.fromIndex + j]?
      = ((leaves.take response.range.toIndex).drop response.range.fromIndex)[j]? := by
        rw [List.getElem?_drop, List.getElem?_take_of_lt (by omega)]
    _ = (responseLeaves crates response)[j]? := by rw [← hwindow]
    _ = some (logLeafHash crates (crates.jcs response.entries[j].envelope)) := by
        rw [responseLeaves, List.getElem?_map, List.getElem?_eq_getElem hj, Option.map_some]

namespace Symbolic

/-- The response for the last two of three entries: its proof carries the root of the first. -/
def lastTwo : RangeResponse where
  range := ⟨1, 3⟩
  entries := [⟨1, (document [5] .null []).2⟩, ⟨2, (document [6] .null []).2⟩]
  rangeProof := ⟨rangeProofEncode ⟨3, 1, 3, [[1]]⟩⟩
  checkpoint := checkpoint "A" 3 (mth pairChildren [] [[1], [5], [6]]) 5

end Symbolic

theorem range_response_sound_lastTwo : ∃ root, Symbolic.parseHashHex Symbolic.lastTwo.checkpoint.rootHash = .ok root ∧
    ∀ leaves : List Bytes, leaves.length = 3 → mth Symbolic.pairChildren [] leaves = root →
      leaves[2]? = some [6] := by
  obtain ⟨-, -, -, root, hroot, hleaves⟩ := range_response_sound
    (Symbolic.rangeVerifyLaws Symbolic.documents) (Symbolic.collisionFree Symbolic.documents)
    (show verifyRangeResponse (Symbolic.pairedCrates Symbolic.documents) Symbolic.lastTwo = .ok true by decide +kernel)
  exact ⟨root, hroot, fun leaves hsize hmth => (hleaves leaves hsize hmth 1 (by decide)).trans (by decide +kernel)⟩

end AhlMirror
