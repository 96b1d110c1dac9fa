import AhlMirror.Model.Laws
import AhlMirror.Model.Symbolic
import AhlMirror.Store.Calls

/-!
# The cached prover

A proof opened through the stored nodes is the proof of the leaves. The store answers for exactly the
complete nodes of its entries, so it is a sound reader of every tree over a prefix of them, whatever
later leaves it holds besides; the walks then compute what they compute from the leaves alone.
-/

namespace AhlMirror

open Merkle

variable {H K : Type} {crates : Crates H K}

/-! ### The store as a reader -/

variable (crates) in
/-- The answers of a store that represents its entries. -/
def storedNode (db : Db) (level index : Nat) : Option H :=
  if (index + 1) * 2 ^ level ≤ db.entries.length then some (nodeRoot crates.hashChildren (leafAt crates db) level index)
  else none

theorem storedNode_opens (crates : Crates H K) (db : Db) {bound : Nat} (hbound : bound ≤ db.entries.length) :
    Opens crates.hashChildren (leafAt crates db) bound (storedNode crates db) where
  sound level index hash hle hget := by
    rw [storedNode, if_pos (hle.trans hbound)] at hget
    exact (Option.some.inj hget).symm
  leaves index hindex := by
    rw [storedNode, if_pos (by rw [pow_zero]; omega), nodeRoot_zero]

theorem leafReader_opens {entries : List Bytes} {leaf : Nat → H} {bound : Nat} (hbound : bound ≤ entries.length)
    (hleaf : ∀ i (h : i < entries.length), leaf i = logLeafHash crates entries[i]) :
    Opens crates.hashChildren leaf bound
      fun level index => if level = 0 then (entries.map (logLeafHash crates))[index]? else none where
  sound level index hash hle hget := by
    split_ifs at hget with hzero
    subst hzero
    rw [pow_zero, Nat.mul_one] at hle
    rw [List.getElem?_map, List.getElem?_eq_getElem (by omega), Option.map_some] at hget
    rw [nodeRoot_zero, hleaf index (by omega)]
    exact (Option.some.inj hget).symm
  leaves index hindex := by
    rw [if_pos rfl, List.getElem?_map, List.getElem?_eq_getElem (by omega), Option.map_some, hleaf index (by omega)]

variable [HashOctets H]

/-- A computation that asks only for complete nodes meets no failure, and its result is the store's. -/
theorem Represents.withTreeNodes {db : Db} (h : Represents crates db) {α : Type} {bound : Nat}
    (hbound : bound ≤ db.entries.length) {f : NodeQuery H (Except AtlError α)} {value : α}
    (hasks : f.Asks fun level index => (index + 1) * 2 ^ level ≤ bound)
    (heval : f.eval (storedNode crates db) = .ok value) :
    ∃ treeNodes, withTreeNodes db bound f = .ok (value, treeNodes) := by
  have hread : ∀ (level index : Nat) (reads : NodeReads), (index + 1) * 2 ^ level ≤ bound → reads.failure = none →
      (getNode (H := H) db bound level index reads).1 = storedNode crates db level index ∧
        (getNode (H := H) db bound level index reads).2.failure = none := by
    intro level index reads hle hreads
    unfold getNode
    rw [h.treeNodeRaw (h.index_lt (hle.trans hbound)), storedNode, if_pos (hle.trans hbound)]
    exact ⟨rfl, hreads⟩
  obtain ⟨hresult, hfailure⟩ := NodeQuery.run_eq_eval (I := fun reads : NodeReads => reads.failure = none) hread hasks
    (s := ⟨none, 0⟩) rfl
  unfold AhlMirror.withTreeNodes
  rcases hrun : f.run (getNode db bound) ⟨none, 0⟩ with ⟨computed, reads⟩
  rw [hrun] at hresult hfailure
  dsimp only at hresult hfailure ⊢
  rw [hfailure, hresult, heval]
  exact ⟨reads.treeNodes, rfl⟩

/-! ### Roots and proofs -/

section opened
variable {db : Db} (h : Represents crates db)
include h

theorem Represents.subtreeRootRaw (hlaws : SubtreeLaws crates) {offset size : Nat} (hsize : 1 ≤ size)
    (hle : offset + size ≤ db.entries.length) :
    subtreeRootRaw crates db offset size = .ok (spanRoot crates.hashChildren (leafAt crates db) offset size) := by
  have hbound : saturatingAdd offset size = offset + size := saturatingAdd_of_lt (by
    have := h.representable
    have := i64Bound_lt_u64Bound
    omega)
  unfold AhlMirror.subtreeRootRaw
  rw [hbound]
  obtain ⟨treeNodes, hopen⟩ := h.withTreeNodes hle
    ((hlaws.computeSubtreeRoot_asks hsize).mono fun level index hin => hin.2)
    (hlaws.computeSubtreeRoot (storedNode_opens crates db le_rfl) hsize hle)
  rw [hopen]
  rfl

theorem Represents.subtreeRootRaw_slice (hlaws : SubtreeLaws crates) {offset size : Nat} (hsize : 1 ≤ size)
    (hle : offset + size ≤ db.entries.length) :
    AhlMirror.subtreeRootRaw crates db offset size =
      .ok (mth crates.hashChildren (crates.digest []) (((leafHashes crates db).drop offset).take size)) := by
  rw [h.subtreeRootRaw hlaws hsize hle,
    mth_slice crates.hashChildren _ (leafHashes crates db) (leafAt crates db) hsize (by simpa using hle)
      fun i hi => leafHashes_getElem crates db hi]

theorem Represents.logRootRaw (hlaws : SubtreeLaws crates) {n : Nat} (hempty : n = 0 → RootLaws crates)
    (hle : n ≤ db.entries.length) : logRootRaw crates db n =
      .ok (mth crates.hashChildren (crates.digest []) ((leafHashes crates db).take n)) := by
  unfold AhlMirror.logRootRaw
  split_ifs with hzero
  · rw [hzero, (hempty hzero).computeRoot, List.take_zero]
  · rw [h.subtreeRootRaw_slice hlaws (by omega) (by omega), List.drop_zero]

theorem Represents.inclusionProofRaw (hlaws : InclusionProofLaws crates) {leafIndex n : Nat} (hindex : leafIndex < n)
    (hle : n ≤ db.entries.length) :
    inclusionProofRaw crates db leafIndex n =
      .ok ⟨leafIndex, n, auditPath crates.hashChildren (leafAt crates db) 0 n leafIndex⟩ := by
  unfold AhlMirror.inclusionProofRaw
  obtain ⟨treeNodes, hopen⟩ := h.withTreeNodes hle
    ((hlaws.generateInclusionProof_asks hindex).mono fun level index hin => by simpa using hin.2)
    (hlaws.generateInclusionProof (storedNode_opens crates db hle) hindex le_rfl)
  rw [hopen]
  rfl

theorem Represents.consistencyProofMeasuredRaw (hlaws : ConsistencyProofLaws crates) {fromSize toSize : Nat}
    (hfrom : fromSize ≤ toSize) (hto : toSize ≤ db.entries.length) (haddressable : toSize < i64Bound) :
    ∃ treeNodes, consistencyProofMeasuredRaw crates db fromSize toSize =
      .ok (⟨fromSize, toSize, consistencyPath crates.hashChildren (leafAt crates db) fromSize toSize⟩, treeNodes) := by
  unfold AhlMirror.consistencyProofMeasuredRaw
  rw [h.toCanonical.countEntriesRaw_held haddressable hto]
  simp only [ok_bind, ne_eq, not_true_eq_false, if_false]
  exact h.withTreeNodes hto ((hlaws.generateConsistencyProof_asks hfrom).mono fun level index hin => by simpa using hin.2)
    (hlaws.generateConsistencyProof (storedNode_opens crates db hto) hfrom le_rfl)

end opened

omit [HashOctets H] in
theorem consistencyProofFromEntryBytes_eq (hlaws : ConsistencyProofLaws crates) {entries : List Bytes} {leaf : Nat → H}
    {fromSize toSize : Nat} (hfrom : fromSize ≤ toSize) (hto : toSize ≤ entries.length)
    (hleaf : ∀ i (h : i < entries.length), leaf i = logLeafHash crates entries[i]) :
    consistencyProofFromEntryBytes crates entries fromSize toSize =
      .ok ⟨fromSize, toSize, consistencyPath crates.hashChildren leaf fromSize toSize⟩ := by
  have hlen : (entries.take toSize).length = toSize := by
    rw [List.length_take]
    omega
  have hopens : Opens crates.hashChildren leaf toSize fun level index =>
      if level = 0 then ((entries.take toSize).map (logLeafHash crates))[index]? else none :=
    leafReader_opens hlen.ge fun i hi => by
      rw [List.getElem_take]
      exact hleaf i (by omega)
  unfold consistencyProofFromEntryBytes
  dsimp only
  rw [hlaws.generateConsistencyProof hopens hfrom le_rfl]
  rfl

/-! ### The index space -/

/-- The store holds fewer entries than its index space. -/
def Addressable (db : Db) : Prop := db.entries.length < i64Bound

theorem promoteEntryIn_addressable (hlaws : InclusionLaws crates) {db after : Db} (hrep : Represents crates db)
    {cp : Checkpoint} {entryId : String} {leafIndex : Nat} {path : List String} {outcome : InsertOutcome}
    (hsize : cp.treeSize < i64Bound) (hdb : Addressable db)
    (h : promoteEntryIn crates db cp entryId leafIndex path = .ok (outcome, after)) : Addressable after := by
  rcases promoteEntryIn_cases hrep h with ⟨rfl, -⟩ | ⟨bytes, rows, root, -, hindex, -, -, hincluded, rfl, -⟩
  · exact hdb
  · -- the proof was accepted, so the index lies inside the checkpoint's tree
    unfold verifyInclusionFor at hincluded
    simp only [bind_eq_ok, mapErr_eq_ok] at hincluded
    obtain ⟨proof, hproof, hverify⟩ := hincluded
    obtain ⟨hleaf, htree⟩ := hlaws.proofFromHex hproof
    have hlt := hlaws.verifyInclusion hverify
    unfold Addressable
    simp only [List.length_append, List.length_singleton]
    omega

theorem promoteBatch_addressable (hlaws : InclusionLaws crates) {cp : Checkpoint} (hsize : cp.treeSize < i64Bound) :
    ∀ {batch : List PendingPromotion} {db after : Db}, Represents crates db → Addressable db →
      promoteBatch crates cp batch db = .ok after → Addressable after
  | [], db, after, _, hdb, h => Except.ok.inj h ▸ hdb
  | pending :: rest, db, after, hrep, hdb, h => by
    simp only [promoteBatch, bind_eq_ok] at h
    obtain ⟨⟨outcome, mid⟩, hpromote, hrest⟩ := h
    exact promoteBatch_addressable hlaws hsize (promoteEntryIn_grow hrep hpromote).1
      (promoteEntryIn_addressable hlaws hrep hsize hdb hpromote) hrest

variable [DecidableEq H] {config : Config K}

theorem CallEffect.addressable (hlaws : InclusionLaws crates) {db after : Db} {call : Call}
    (hrep : Represents crates db) (hdb : Addressable db) (h : CallEffect crates config db call after) :
    Addressable after := by
  cases h with
  | unchanged => exact hdb
  | staged _ => exact hdb
  | admitted hjudge hcommit =>
    obtain ⟨-, mid, recorded, hcommitted⟩ := commitAdmission_cases hcommit
    obtain ⟨_, _, _, hjudged⟩ := judgeCheckpoint_cases hjudge
    have hmid := promoteBatch_addressable hlaws hjudged.size hrep hdb hcommitted.batch
    obtain ⟨kept, -, -, rfl⟩ := insertRotationCheckpoints_cases hcommitted.rotations
    rcases recordSeriesMember_cases hcommitted.member with ⟨rfl, -⟩ | ⟨-, rfl, -⟩
    · exact hmid
    · exact hmid
  | promoted hget hpromote =>
    obtain ⟨-, hsize, hbound⟩ := getCheckpoint_mem hget
    exact promoteEntryIn_addressable hlaws hrep (by omega) hdb hpromote

theorem Reachable.addressable (hlaws : InclusionLaws crates) {db : Db} (h : Reachable crates config db) :
    Addressable db :=
  h.keeps (show 0 < i64Bound by decide) fun _ _ _ hrep hdb heffect => heffect.addressable hlaws hrep hdb

/-- **The cached prover is the plain one.** At every size, the root, the subtree roots, the inclusion
path and the consistency path opened through the stored nodes are those of the leaf hashes of the
stored envelopes, and none of them fails. -/
theorem cachedProver_eq_plain (hroot : RootLaws crates) (hsubtree : SubtreeLaws crates)
    (hproof : InclusionProofLaws crates) (hpath : ConsistencyProofLaws crates) (hinclusion : InclusionLaws crates)
    {db : Db} (hreach : Reachable crates config db) :
    (∀ n ≤ db.entries.length,
      logRootRaw crates db n = .ok (mth crates.hashChildren (crates.digest []) ((leafHashes crates db).take n))) ∧
    (∀ offset size, 1 ≤ size → offset + size ≤ db.entries.length → subtreeRootRaw crates db offset size =
      .ok (mth crates.hashChildren (crates.digest []) (((leafHashes crates db).drop offset).take size))) ∧
    (∀ leafIndex n, leafIndex < n → n ≤ db.entries.length → inclusionProofRaw crates db leafIndex n =
      .ok ⟨leafIndex, n, auditPath crates.hashChildren (leafAt crates db) 0 n leafIndex⟩) ∧
    ∀ fromSize toSize, fromSize ≤ toSize → toSize ≤ db.entries.length → ∃ proof treeNodes,
      consistencyProofMeasuredRaw crates db fromSize toSize = .ok (proof, treeNodes) ∧
      consistencyProofFromEntryBytes crates (canonicalEntries db) fromSize toSize = .ok proof ∧
      proof.path = consistencyPath crates.hashChildren (leafAt crates db) fromSize toSize := by
  have hrep := hreach.represents
  have haddressable := hreach.addressable hinclusion
  refine ⟨fun n hn => hrep.logRootRaw hsubtree (fun _ => hroot) hn,
    fun offset size hsize hle => hrep.subtreeRootRaw_slice hsubtree hsize hle,
    fun leafIndex n hindex hle => hrep.inclusionProofRaw hproof hindex hle, fun fromSize toSize hfrom hto => ?_⟩
  obtain ⟨treeNodes, hopen⟩ := hrep.consistencyProofMeasuredRaw hpath hfrom hto (hto.trans_lt haddressable)
  refine ⟨_, treeNodes, hopen, consistencyProofFromEntryBytes_eq hpath hfrom (by simpa using hto) fun i hi => ?_, rfl⟩
  simp only [leafAt, List.getElem?_eq_getElem hi, Option.getD_some]

theorem cachedProver_eq_plain_twoEntries :
    logRootRaw (Symbolic.crates Symbolic.documents) Symbolic.twoEntries 2 = .ok [255, 1, 5] ∧
      inclusionProofRaw (Symbolic.crates Symbolic.documents) Symbolic.twoEntries 0 2 = .ok ⟨0, 2, [[5]]⟩ := by
  obtain ⟨hroot, -, hinclusion, -⟩ := cachedProver_eq_plain (Symbolic.rootLaws Symbolic.documents)
    (Symbolic.subtreeLaws _) (Symbolic.inclusionProofLaws _) (Symbolic.consistencyProofLaws _) (Symbolic.inclusionLaws _)
    (Symbolic.reachable_after [Symbolic.stage 1, Symbolic.stage 5,
      Symbolic.ingest (Symbolic.checkpoint "A" 2 (Symbolic.rootOf [[1], [5]]) 5)
        [Symbolic.pending [[1], [5]] 0, Symbolic.pending [[1], [5]] 1]])
  have hlen : Symbolic.twoEntries.entries.length = 2 := by decide +kernel
  refine ⟨(hroot 2 hlen.ge).trans ?_, (hinclusion 0 2 (by decide) hlen.ge).trans ?_⟩
  · decide +kernel
  · decide +kernel

end AhlMirror
