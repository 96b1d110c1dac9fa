import AhlMirror.Core.Matching
import AhlMirror.Store.Prover

/-!
# Rows missing from the cache

A store that lost rows of `subtree_roots` answers as the whole one did, from as many nodes, or refuses
and names a row it lost. The builders would descend where a node is not held; what keeps them from it
is that every node they ask for is complete, so that the first one missing is a failure.
-/

namespace AhlMirror

open AhlMirror.Core (Matches)
open Merkle

/-- The store without the derived rows that are lost. -/
def Db.losing (db : Db) (lost : SubtreeRow → Bool) : Db :=
  { db with subtreeRoots := db.subtreeRoots.filter fun row => !lost row }

/-- The node is a row of the store, and lost. -/
def LostNode (db : Db) (lost : SubtreeRow → Bool) (level index : Nat) : Prop :=
  ∃ row ∈ db.subtreeRoots, lost row = true ∧ row.key = ((level : Int), (index : Int))

/-- The refusal that names a lost row. -/
def NamesLost (db : Db) (lost : SubtreeRow → Bool) (e : MirrorError) : Prop :=
  ∃ level index, e = .treeMaterialMissing level index ∧ LostNode db lost level index

variable {H K : Type} [HashOctets H] {crates : Crates H K}

/-- The nodes a store holds. -/
def heldNode (db : Db) (level index : Nat) : Option H :=
  match treeNodeRaw db level index with
  | .ok node => node
  | .error _ => none

theorem cacheSound_losing {db : Db} (h : Represents crates db) (lost : SubtreeRow → Bool) :
    CacheSound crates (leafAt crates db) db.entries.length (db.losing lost).subtreeRoots where
  complete row hrow := h.cache.complete row (List.mem_of_mem_filter hrow)
  keys := h.cache.keys.sublist (List.filter_sublist.map _)

theorem treeNodeRaw_losing {db : Db} (h : Represents crates db) (lost : SubtreeRow → Bool) {level index : Nat}
    (hcomplete : (index + 1) * 2 ^ level ≤ db.entries.length) (hindex : index < i64Bound) :
    (∃ hash : H, treeNodeRaw (db.losing lost) level index = .ok (some hash) ∧
      treeNodeRaw db level index = .ok (some hash)) ∨
    treeNodeRaw (H := H) (db.losing lost) level index = .ok none ∧ LostNode db lost level index := by
  have hwhole : treeNodeRaw db level index = .ok _ := h.treeNodeRaw hindex
  rw [if_pos hcomplete] at hwhole
  rcases Nat.eq_zero_or_pos level with rfl | hlevel
  · exact Or.inl ⟨_, hwhole, hwhole⟩
  · have hsound := cacheSound_losing h lost
    have hrow := h.cache.covers level index ⟨hlevel, hcomplete⟩
    by_cases hlost : lost (nodeRow crates (leafAt crates db) level index) = true
    · refine Or.inr ⟨?_, _, hrow, hlost, rfl⟩
      have hnot : nodeRow crates (leafAt crates db) level index ∉ (db.losing lost).subtreeRoots := fun hmem => by
        simpa [hlost] using (List.mem_filter.1 hmem).2
      unfold treeNodeRaw
      rw [toI64_of_lt hindex]
      simp only [ok_bind]
      rw [if_neg (by omega), subtreeBlob_eq_none hsound hnot]
    · have hkept : nodeRow crates (leafAt crates db) level index ∈ (db.losing lost).subtreeRoots :=
        List.mem_filter.2 ⟨hrow, by simpa using hlost⟩
      exact Or.inl ⟨_, treeNodeRaw_of_mem hsound hlevel hindex hkept, hwhole⟩

/-! ### One computation -/

/-- What a computation over the stored nodes does without the lost ones: the same value from the same number
of nodes, each node it asked for being held; or a refusal. -/
def Refuses (db : Db) (lost : SubtreeRow → Bool) {α : Type} (bound : Nat) (f : NodeQuery H (Except AtlError α)) :
    Prop :=
  Matches (NamesLost db lost) Eq (withTreeNodes (db.losing lost) bound f) (withTreeNodes db bound f) ∧
    ∀ out, withTreeNodes (db.losing lost) bound f = .ok out →
      ∀ node ∈ f.asked (heldNode (db.losing lost)), (heldNode (H := H) (db.losing lost) node.1 node.2).isSome

theorem getNode_failure {db : Db} {bound level index : Nat} {reads : NodeReads} {e : MirrorError}
    (h : reads.failure = some e) : (getNode (H := H) db bound level index reads).2.failure = some e := by
  have hkept : ∀ e', (reads.record e').failure = some e := by
    intro e'
    unfold NodeReads.record
    rw [h]
    exact h
  unfold getNode
  split
  · exact h
  · split_ifs
    · exact hkept _
    · exact h
  · exact hkept _

theorem nodeIsComplete_of_le {level index bound : Nat} (hlast : (index + 1) * 2 ^ level < u64Bound)
    (h : (index + 1) * 2 ^ level ≤ bound) : nodeIsComplete level index bound = true := by
  have hnext : index < (index + 1) * 2 ^ level := index_lt_of_le le_rfl
  have hlevel : level < 64 := level_lt_of_le hlast le_rfl
  unfold nodeIsComplete
  rw [checkedShlOne_of_lt hlevel]
  dsimp only
  rw [checkedAdd_of_lt (by omega), Option.bind_some, checkedMul_of_lt (by omega)]
  simpa using h

theorem withTreeNodes_of_failure {db : Db} {α : Type} {bound : Nat} {f : NodeQuery H (Except AtlError α)}
    {e : MirrorError}
    (h : (f.run (getNode db bound) ⟨none, 0⟩).2.failure = some e) : withTreeNodes db bound f = .error e := by
  unfold withTreeNodes
  rcases hrun : f.run (getNode db bound) ⟨none, 0⟩ with ⟨computed, reads⟩
  rw [hrun] at h
  dsimp only at h ⊢
  rw [h]

/-- The read met a node that is lost, before any other failure. -/
def FailedOnLost (db : Db) (lost : SubtreeRow → Bool) (reads : NodeReads) : Prop :=
  ∃ level index, reads.failure = some (.treeMaterialMissing level index) ∧ LostNode db lost level index

theorem getNode_losing {db : Db} (h : Represents crates db) (lost : SubtreeRow → Bool) {bound level index : Nat}
    (hbound : bound ≤ db.entries.length) (hle : (index + 1) * 2 ^ level ≤ bound) {reads : NodeReads}
    (hreads : reads.failure = none) :
    (∃ hash : H, heldNode (db.losing lost) level index = some hash ∧
      (getNode (db.losing lost) bound level index reads).1 = some hash ∧
      getNode (H := H) (db.losing lost) bound level index reads = getNode db bound level index reads ∧
      (getNode (H := H) db bound level index reads).2.failure = none) ∨
    FailedOnLost db lost (getNode (H := H) (db.losing lost) bound level index reads).2 := by
  have hcomplete := hle.trans hbound
  rcases treeNodeRaw_losing h lost hcomplete (h.index_lt hcomplete) with ⟨hash, hkept, hwhole⟩ | ⟨hmissing, hlost⟩
  · refine Or.inl ⟨hash, ?_, ?_, ?_, ?_⟩
    · rw [heldNode, hkept]
    · rw [getNode, hkept]
    · rw [getNode, hkept, getNode, hwhole]
    · rw [getNode, hwhole]
      exact hreads
  · -- the node is complete, so that it is missing is recorded, as the first failure
    refine Or.inr ⟨level, index, ?_, hlost⟩
    have hu64 := i64Bound_lt_u64Bound
    have hrepresentable := h.representable
    rw [getNode, hmissing]
    dsimp only
    rw [nodeIsComplete_of_le (by omega) hle, if_pos rfl, NodeReads.record, hreads]

/-- A computation that asks only for complete nodes below the entries held. -/
theorem refuses_of_asks {db : Db} (h : Represents crates db) (lost : SubtreeRow → Bool) {α : Type} {bound : Nat}
    (hbound : bound ≤ db.entries.length) {f : NodeQuery H (Except AtlError α)}
    (hasks : f.Asks fun level index => (index + 1) * 2 ^ level ≤ bound) : Refuses db lost bound f := by
  have hstay : ∀ (level index : Nat) (reads : NodeReads), FailedOnLost db lost reads →
      FailedOnLost db lost (getNode (H := H) (db.losing lost) bound level index reads).2 := by
    rintro level index reads ⟨level', index', hfailure, hlost⟩
    exact ⟨level', index', getNode_failure hfailure, hlost⟩
  rcases NodeQuery.run_or_flagged (I := fun reads : NodeReads => reads.failure = none) hstay
    (fun level index reads hle hreads => getNode_losing h lost hbound hle hreads) hasks
    (s := ⟨none, 0⟩) rfl with ⟨hsame, -, hasked⟩ | ⟨level, index, hfailure, hlost⟩
  · refine ⟨.of_eq ?_, fun _ _ => hasked⟩
    unfold withTreeNodes
    rw [hsame]
  · have hrefused := withTreeNodes_of_failure hfailure
    refine ⟨?_, fun out hout => ?_⟩
    · rw [hrefused]
      exact .excuse ⟨level, index, rfl, hlost⟩
    · rw [hrefused] at hout
      cases hout

/-! ### The calls -/

/-- **A missing node is refused and never changes an answer.** On a store that lost some rows of
`subtree_roots` the root of a prefix, of a subtree, an inclusion proof and a consistency proof are those of
the whole store, from the same number of nodes, every node asked for being held; or the call refuses with
`TreeMaterialMissing` of a lost row. -/
theorem missing_node_refused (hspan : SpanLaws crates) {db : Db} (hrep : Represents crates db)
    (lost : SubtreeRow → Bool) :
    (∀ treeSize ≤ db.entries.length,
      Matches (NamesLost db lost) Eq (logRootRaw crates (db.losing lost) treeSize) (logRootRaw crates db treeSize)) ∧
    (∀ offset size, offset + size ≤ db.entries.length →
      Matches (NamesLost db lost) Eq (subtreeRootRaw crates (db.losing lost) offset size)
        (subtreeRootRaw crates db offset size) ∧
      Refuses db lost (saturatingAdd offset size) (crates.computeSubtreeRoot offset size)) ∧
    (∀ leafIndex treeSize, treeSize ≤ db.entries.length →
      Matches (NamesLost db lost) Eq (inclusionProofRaw crates (db.losing lost) leafIndex treeSize)
        (inclusionProofRaw crates db leafIndex treeSize) ∧
      Refuses db lost treeSize (crates.generateInclusionProof leafIndex treeSize)) ∧
    ∀ fromSize toSize, toSize ≤ db.entries.length →
      Matches (NamesLost db lost) Eq (consistencyProofMeasuredRaw crates (db.losing lost) fromSize toSize)
        (consistencyProofMeasuredRaw crates db fromSize toSize) ∧
      Refuses db lost toSize (crates.generateConsistencyProof fromSize toSize) := by
  have hsubtree : ∀ offset size, offset + size ≤ db.entries.length →
      Refuses db lost (saturatingAdd offset size) (crates.computeSubtreeRoot offset size) := by
    intro offset size hle
    have hsum : saturatingAdd offset size = offset + size := saturatingAdd_of_lt (by
      have := hrep.representable
      have := i64Bound_lt_u64Bound
      omega)
    rw [hsum]
    exact refuses_of_asks hrep lost hle ((hspan.computeSubtreeRoot offset size).mono fun _ _ h => h.2)
  have hinclusion : ∀ leafIndex treeSize, treeSize ≤ db.entries.length →
      Refuses db lost treeSize (crates.generateInclusionProof leafIndex treeSize) := fun leafIndex treeSize hle =>
    refuses_of_asks hrep lost hle ((hspan.generateInclusionProof leafIndex treeSize).mono fun _ _ h => by simpa using h.2)
  have hconsistency : ∀ fromSize toSize, toSize ≤ db.entries.length →
      Refuses db lost toSize (crates.generateConsistencyProof fromSize toSize) := fun fromSize toSize hle =>
    refuses_of_asks hrep lost hle ((hspan.generateConsistencyProof fromSize toSize).mono fun _ _ h => by simpa using h.2)
  refine ⟨fun treeSize hle => ?_, fun offset size hle => ⟨?_, hsubtree offset size hle⟩,
    fun leafIndex treeSize hle => ⟨?_, hinclusion leafIndex treeSize hle⟩,
    fun fromSize toSize hle => ⟨?_, hconsistency fromSize toSize hle⟩⟩
  · unfold logRootRaw
    split_ifs with hzero
    · exact .refl _
    · exact (hsubtree 0 treeSize (by omega)).1.bind_eq fun _ => .refl _
  · exact (hsubtree offset size hle).1.bind_eq fun _ => .refl _
  · exact (hinclusion leafIndex treeSize hle).1.bind_eq fun _ => .refl _
  · -- the entries are counted first, and none of them is lost
    unfold consistencyProofMeasuredRaw
    refine (Matches.refl (countEntriesRaw db 0 toSize)).bind_eq fun have_ => ?_
    split_ifs
    · exact .refl _
    · exact (hconsistency fromSize toSize hle).1

theorem missing_node_refused_twoEntries :
    logRootRaw (Symbolic.crates Symbolic.documents) (Symbolic.twoEntries.losing fun _ => true) 2 =
        .error (.treeMaterialMissing 1 0) ∧
      Matches (NamesLost Symbolic.twoEntries fun _ => true) Eq
        (logRootRaw (Symbolic.crates Symbolic.documents) (Symbolic.twoEntries.losing fun _ => true) 2)
        (logRootRaw (Symbolic.crates Symbolic.documents) Symbolic.twoEntries 2) ∧
      Matches (NamesLost Symbolic.twoEntries fun _ => true) Eq
        (inclusionProofRaw (Symbolic.crates Symbolic.documents) (Symbolic.twoEntries.losing fun _ => true) 0 2)
        (inclusionProofRaw (Symbolic.crates Symbolic.documents) Symbolic.twoEntries 0 2) := by
  have hlen : Symbolic.twoEntries.entries.length = 2 := by decide +kernel
  obtain ⟨hroot, -, hinclusion, -⟩ := missing_node_refused (Symbolic.spanLaws Symbolic.documents)
    (show Represents _ Symbolic.twoEntries from (Symbolic.reachable_after _).represents) fun _ => true
  refine ⟨?_, hroot 2 hlen.ge, (hinclusion 0 2 hlen.ge).1⟩
  decide +kernel

end AhlMirror
