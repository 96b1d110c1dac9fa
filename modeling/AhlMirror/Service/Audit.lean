import AhlMirror.Server.Log
import AhlMirror.Store.RangeSoundness

/-!
# Auditing a mirror offline

A label is a claim about entries, and the entries can be had from anyone: a range response over the whole of a
usable checkpoint that verifies carries the mirror's own entries, whoever made it up, and over these the offline
form of the series check tells of every smaller checkpoint what the mirror's view tells of it.
-/

namespace AhlMirror

open Merkle

variable {H K : Type} {crates : Crates H K} {config : Config K}

theorem leavesReader_opens {leaves : List H} {leaf : Nat → H} {bound : Nat}
    (hleaf : ∀ i < bound, leaves[i]? = some (leaf i)) :
    Opens crates.hashChildren leaf bound fun level index => if level = 0 then leaves[index]? else none where
  sound level index hash hle hget := by
    split_ifs at hget with hzero
    subst hzero
    rw [pow_zero, Nat.mul_one] at hle
    rw [hleaf index (by omega)] at hget
    rw [nodeRoot_zero]
    exact (Option.some.inj hget).symm
  leaves index hindex := by rw [if_pos rfl, hleaf index hindex]

theorem verifySeriesConsistency_eq (hproof : ConsistencyProofLaws crates) {older newer : Checkpoint}
    {leaves : List H} {leaf : Nat → H} (hle : older.treeSize ≤ newer.treeSize)
    (hleaf : ∀ i < newer.treeSize, leaves[i]? = some (leaf i)) :
    verifySeriesConsistency crates older newer leaves = (do
      let fromRoot ← mapErr .ahl (crates.parseHashHex older.rootHash)
      let toRoot ← mapErr .ahl (crates.parseHashHex newer.rootHash)
      mapErr .atl (crates.verifyConsistency ⟨older.treeSize, newer.treeSize,
        consistencyPath crates.hashChildren leaf older.treeSize newer.treeSize⟩ fromRoot toRoot)) := by
  unfold verifySeriesConsistency
  rw [hproof.generateConsistencyProof (leavesReader_opens hleaf) hle le_rfl]
  rfl

theorem verifySeriesConsistency_iff (hproof : ConsistencyProofLaws crates)
    (hconsistency : ConsistencyLaws crates) (hverify : ConsistencyVerifyLaws crates) (hfree : CollisionFree crates)
    {older newer : Checkpoint} {leaves : List H} {leaf : Nat → H} (hpos : 1 ≤ older.treeSize)
    (hle : older.treeSize ≤ newer.treeSize) (hleaf : ∀ i < newer.treeSize, leaves[i]? = some (leaf i))
    (hroot : crates.parseHashHex newer.rootHash = .ok (spanRoot crates.hashChildren leaf 0 newer.treeSize)) :
    verifySeriesConsistency crates older newer leaves = .ok true ↔
      crates.parseHashHex older.rootHash = .ok (spanRoot crates.hashChildren leaf 0 older.treeSize) := by
  rw [verifySeriesConsistency_eq hproof hle hleaf, hroot]
  constructor
  · intro h
    simp only [bind_eq_ok, mapErr_eq_ok] at h
    obtain ⟨fromRoot, hfrom, toRoot, hto, haccepted⟩ := h
    obtain rfl := Except.ok.inj hto
    have hopens := hverify.verifyConsistency hpos hle haccepted
    rw [← openConsistency_binding hfree.hashChildren hpos hle hopens]
    exact hfrom
  · intro h
    rw [h, mapErr, ok_bind, mapErr, ok_bind, hconsistency.verifyConsistency leaf _ _ hpos hle, mapErr]

variable [HashOctets H]

/-- **The two forms of the series check agree**, whatever roots are claimed and whatever follows the leaves. -/
theorem Represents.seriesConsistencyStored_eq (hproof : ConsistencyProofLaws crates) {db : Db}
    (hrep : Represents crates db) {older newer : Checkpoint} {leaves : List H} (hle : older.treeSize ≤ newer.treeSize)
    (hheld : newer.treeSize ≤ db.entries.length) (hbound : newer.treeSize < i64Bound)
    (hleaves : leaves.take newer.treeSize = (leafHashes crates db).take newer.treeSize) :
    seriesConsistencyStored crates db older newer = verifySeriesConsistency crates older newer leaves := by
  have hleaf : ∀ i < newer.treeSize, leaves[i]? = some (leafAt crates db i) := by
    intro i hi
    have hlt : i < (leafHashes crates db).length := by
      rw [length_leafHashes]
      omega
    rw [← List.getElem?_take_of_lt hi, hleaves, List.getElem?_take_of_lt hi, List.getElem?_eq_getElem hlt,
      leafHashes_getElem crates db hlt]
  obtain ⟨treeNodes, hbuilt⟩ := hrep.consistencyProofMeasuredRaw hproof hle hheld hbound
  rw [verifySeriesConsistency_eq hproof hle hleaf]
  unfold seriesConsistencyStored
  rw [hbuilt]
  rfl

omit [HashOctets H] in
theorem verifyRangeResponse_leaves (hrange : RangeVerifyLaws crates) (hfree : CollisionFree crates) {response : RangeResponse}
    (hok : verifyRangeResponse crates response = .ok true) {leaves : List H}
    (hlength : leaves.length = response.checkpoint.treeSize) (hroot : crates.parseHashHex response.checkpoint.rootHash =
      .ok (mth crates.hashChildren (crates.digest []) leaves)) :
    responseLeaves crates response = (leaves.take response.range.toIndex).drop response.range.fromIndex := by
  obtain ⟨proof, root, -, -, hproof, hparse, haccepted⟩ := verifyRangeResponse_eq_true hok
  obtain rfl := Except.ok.inj (hroot.symm.trans hparse)
  obtain ⟨-, hrecompute⟩ := hrange.verify haccepted
  rw [hproof.fromIndex, hproof.toIndex, hproof.treeSize, ← hlength] at hrecompute
  exact recompute_window hfree.hashChildren hrecompute

variable [DecidableEq H]

/-- **Labels can be audited offline.** Take a checkpoint a server's view labels usable, after whatever schedule, and
any response over its whole tree that verifies, from whatever source. The response carries the entries the mirror
holds, byte for byte; and of every recorded checkpoint no larger, the offline series check against the response
says what the mirror's own check over its stored nodes says, and accepts exactly those the view labels usable. -/
theorem labels_auditable (hprover : ViewLaws crates) (hconsistency : ConsistencyLaws crates)
    (hverify : ConsistencyVerifyLaws crates) (hrange : RangeVerifyLaws crates) (hfree : CollisionFree crates)
    (hleaf : LeafLaws crates) (schedule : List Event) {view : SeriesView} {newer : Checkpoint} {response : RangeResponse}
    (hview : seriesView crates config (serverAfter crates config schedule).db = .ok view)
    (hnewer : newer ∈ usableCheckpoints view.members) (hcheckpoint : response.checkpoint = newer)
    (hwhole : response.range = ⟨0, newer.treeSize⟩) (hok : verifyRangeResponse crates response = .ok true) :
    response.entries.map (fun entry => crates.jcs entry.envelope) =
        (canonicalEntries (serverAfter crates config schedule).db).take newer.treeSize ∧
      ∀ older ∈ (serverAfter crates config schedule).db.checkpoints, older.treeSize ≤ newer.treeSize →
        seriesConsistencyStored crates (serverAfter crates config schedule).db older newer =
            verifySeriesConsistency crates older newer (responseLeaves crates response) ∧
          (verifySeriesConsistency crates older newer (responseLeaves crates response) = .ok true ↔
            older ∈ usableCheckpoints view.members) := by
  have hsound := (serverAfter_written crates config schedule).sound
  have hmem : ∀ cp, cp ∈ usableCheckpoints view.members ↔ cp ∈ (serverAfter crates config schedule).db.checkpoints ∧
      cp.treeSize < i64Bound ∧ UsableRow crates (serverAfter crates config schedule).db cp := fun cp =>
    (seriesView_cases hview).mem_usable_iff hprover hconsistency hsound.represents hsound.positive
  obtain ⟨hrow, hbound, husable⟩ := (hmem newer).1 hnewer
  generalize (serverAfter crates config schedule).db = db at *
  have hpos : 1 ≤ newer.treeSize := hsound.positive newer hrow
  have hlength : ((leafHashes crates db).take newer.treeSize).length = newer.treeSize := by
    rw [List.length_take, length_leafHashes, Nat.min_eq_left husable.held]
  have hleaves : responseLeaves crates response = (leafHashes crates db).take newer.treeSize := by
    have hwindow := verifyRangeResponse_leaves hrange hfree hok (hlength.trans (by rw [hcheckpoint]))
      (by rw [hcheckpoint]; exact husable.root)
    rw [hwhole, List.drop_zero, List.take_take, Nat.min_self] at hwindow
    exact hwindow
  have hat : ∀ i < newer.treeSize, (responseLeaves crates response)[i]? = some (leafAt crates db i) := by
    intro i hi
    have hlt : i < (leafHashes crates db).length := by
      rw [length_leafHashes]
      exact hi.trans_le husable.held
    rw [hleaves, List.getElem?_take_of_lt hi, List.getElem?_eq_getElem hlt, leafHashes_getElem crates db hlt]
  refine ⟨?_, fun older holder hle => ⟨?_, ?_⟩⟩
  · refine List.map_injective_iff.2 hleaf.logLeafHash ?_
    rw [List.map_map, List.map_take]
    exact hleaves
  · exact hsound.represents.seriesConsistencyStored_eq hprover.toConsistencyProofLaws hle husable.held hbound
      (by rw [hleaves, List.take_take, Nat.min_self])
  · have hroot := husable.root
    rw [mth_leafHashes crates hpos husable.held] at hroot
    have holderPos := hsound.positive older holder
    have holderRoot := mth_leafHashes crates holderPos (hle.trans husable.held)
    rw [verifySeriesConsistency_iff hprover.toConsistencyProofLaws hconsistency hverify hfree holderPos hle hat hroot,
      ← holderRoot, hmem]
    exact ⟨fun h => ⟨holder, hle.trans_lt hbound, hle.trans husable.held, h⟩, fun h => h.2.2.root⟩

namespace Symbolic

/-- A checkpoint over another second entry, signed all the same. -/
def forgery : Checkpoint := checkpoint "A" 2 (Binding.root [[1], [6]]) 5

def genuine : Checkpoint := checkpoint "A" 3 (Binding.root [[1], [5], [7]]) 9

/-- The forgery is admitted while its second entry is not held. -/
def infiltrated : List Event :=
  oneAtATime [stage 1, stage 5, stage 7, ingest forgery [Binding.pending [[1], [6]] 0],
    ingest genuine [Binding.pending [[1], [5], [7]] 1, Binding.pending [[1], [5], [7]] 2]]

/-- All the entries under the genuine checkpoint, from someone else. -/
def download : RangeResponse where
  range := ⟨0, 3⟩
  entries := [⟨0, (documents[0]).2⟩, ⟨1, (documents[4]).2⟩, ⟨2, (documents[6]).2⟩]
  rangeProof := ⟨rangeProofEncode ⟨3, 0, 3, []⟩⟩
  checkpoint := genuine

def infiltratedView : SeriesView := ⟨[⟨forgery, .authenticated⟩, ⟨genuine, .seriesUsable⟩], some 3, none, [], none⟩

end Symbolic

theorem labels_auditable_forgery :
    Symbolic.download.entries.map (fun entry => Symbolic.binding.jcs entry.envelope) = [[1], [5], [7]] ∧
      verifySeriesConsistency Symbolic.binding Symbolic.forgery Symbolic.genuine
        (responseLeaves Symbolic.binding Symbolic.download) ≠ .ok true := by
  obtain ⟨hview, hrow, hok, hentries, hlabel⟩ : seriesView Symbolic.binding Symbolic.config
        (serverAfter Symbolic.binding Symbolic.config Symbolic.infiltrated).db = .ok Symbolic.infiltratedView ∧
      Symbolic.forgery ∈ (serverAfter Symbolic.binding Symbolic.config Symbolic.infiltrated).db.checkpoints ∧
      verifyRangeResponse Symbolic.binding Symbolic.download = .ok true ∧
      canonicalEntries (serverAfter Symbolic.binding Symbolic.config Symbolic.infiltrated).db = [[1], [5], [7]] ∧
      Symbolic.forgery ∉ usableCheckpoints Symbolic.infiltratedView.members := by
    decide +kernel
  obtain ⟨hsame, hlabels⟩ := labels_auditable Symbolic.Binding.viewLaws Symbolic.Binding.consistencyLaws
    Symbolic.Binding.consistencyVerifyLaws Symbolic.Binding.rangeVerifyLaws Symbolic.Binding.collisionFree
    Symbolic.Binding.leafLaws Symbolic.infiltrated hview (List.mem_singleton_self Symbolic.genuine) rfl rfl hok
  exact ⟨hsame.trans (by rw [hentries]; rfl), fun haccepted => hlabel ((hlabels _ hrow (by decide)).2.1 haccepted)⟩

end AhlMirror
