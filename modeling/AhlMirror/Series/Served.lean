import AhlMirror.Series.Arrival
import AhlMirror.Series.View
import AhlMirror.Store.Prover

/-!
# Serving a rotation's anchor

The rotation route serves the least anchor there is, and refuses where that one does not open. An anchor
that could be served is served unless an earlier one, admitted before its prefix was held, declares
another root than the entries have.
-/

namespace AhlMirror

open Merkle

variable {H K : Type}

section statements
variable (crates : Crates H K) (db : Db)

/-- The checkpoint declares the root of the canonical entries below its size. -/
def DeclaresRoot (cp : Checkpoint) : Prop :=
  crates.parseHashHex cp.rootHash = .ok (mth crates.hashChildren (crates.digest []) ((leafHashes crates db).take cp.treeSize))

instance [DecidableEq H] (cp : Checkpoint) : Decidable (DeclaresRoot crates db cp) :=
  inferInstanceAs (Decidable (_ = _))

/-- An anchor whose prefix is canonical and has its root, below every divergence. -/
structure Servable (cp : Checkpoint) : Prop where
  held : cp.treeSize ≤ db.entries.length
  root : DeclaresRoot crates db cp
  floor : ∀ f ∈ (findRootDivergences (authenticatedCheckpoints db)).min?, cp.treeSize < f

instance [DecidableEq H] (cp : Checkpoint) : Decidable (Servable crates db cp) :=
  decidable_of_iff (cp.treeSize ≤ db.entries.length ∧ DeclaresRoot crates db cp ∧
      ∀ f ∈ (findRootDivergences (authenticatedCheckpoints db)).min?, cp.treeSize < f)
    ⟨fun h => ⟨h.1, h.2.1, h.2.2⟩, fun h => ⟨h.held, h.root, h.floor⟩⟩

/-- What a served element is owed: a checkpoint past the rotating entry with the root of the entries, and
a path that opens that entry's leaf under it. -/
structure SoundElement (element : RotationProofElement) : Prop where
  size : element.manifestEntryIndex < element.checkpoint.treeSize
  held : element.checkpoint.treeSize ≤ db.entries.length
  root : DeclaresRoot crates db element.checkpoint
  opened : ∃ bytes root, (canonicalEntries db)[element.manifestEntryIndex]? = some bytes ∧
    crates.parseHashHex element.checkpoint.rootHash = .ok root ∧
    verifyInclusionFor crates bytes element.manifestEntryIndex element.checkpoint.treeSize element.inclusionPath root = .ok true

end statements

variable [HashOctets H] {crates : Crates H K}

omit [HashOctets H] in
theorem verifyInclusionFor_auditPath (hlaws : PathLaws crates) {db : Db} {index n : Nat} (hindex : index < n)
    (hn : n ≤ db.entries.length) {bytes : Bytes} (hbytes : (canonicalEntries db)[index]? = some bytes) :
    verifyInclusionFor crates bytes index n
      (crates.proofPathHex ⟨index, n, auditPath crates.hashChildren (leafAt crates db) 0 n index⟩)
      (mth crates.hashChildren (crates.digest []) ((leafHashes crates db).take n)) = .ok true := by
  have hleaf : logLeafHash crates bytes = leafAt crates db index := by
    unfold leafAt
    rw [hbytes, Option.getD_some]
  have hparse := hlaws.proofFromHex ⟨index, n, auditPath crates.hashChildren (leafAt crates db) 0 n index⟩
  unfold verifyInclusionFor
  rw [hparse, hleaf, mth_leafHashes crates (by omega) hn]
  simp only [mapErr, ok_bind, hlaws.verifyInclusion (leafAt crates db) index n hindex]

variable [DecidableEq H] {config : Config K}

theorem Servable.served (hproof : InclusionProofLaws crates) (hpath : PathLaws crates) {db : Db}
    (hrep : Represents crates db) {index : Nat} {cp : Checkpoint} (hindex : index < cp.treeSize)
    (hsize : cp.treeSize < i64Bound) (hget : getRotationCheckpoint db index = .ok (some cp))
    (hservable : Servable crates db cp)
    {view : SeriesView} (hview : seriesView crates config db = .ok view) :
    ∃ element, rotationProofElement crates config db index = .ok element ∧ element.manifestEntryIndex = index ∧
      element.checkpoint = cp ∧ SoundElement crates db element := by
  have hheld := hservable.held
  have hfloor : refuseAtFloor view cp.treeSize = .ok () := by
    have hviewed := seriesView_cases hview
    apply refuseAtFloor_eq_ok.2
    rw [hviewed.floor, hviewed.divergences]
    exact hservable.floor
  obtain ⟨bytes, hbytes⟩ : ∃ bytes, (canonicalEntries db)[index]? = some bytes := by
    have hlt : index < (canonicalEntries db).length := by
      rw [length_canonicalEntries]
      omega
    exact ⟨_, List.getElem?_eq_getElem hlt⟩
  have hnext : saturatingAdd index 1 = index + 1 := saturatingAdd_of_lt (by
    have := i64Bound_lt_u64Bound
    omega)
  have hleaves : (((leafHashes crates db).take (index + 1)).drop index).head? = some (leafAt crates db index) := by
    have hlt : index < (leafHashes crates db).length := by
      rw [length_leafHashes]
      omega
    rw [List.head?_drop, List.getElem?_take_of_lt (Nat.lt_succ_self index), List.getElem?_eq_getElem hlt,
      leafHashes_getElem crates db hlt]
  have hopened : crates.verifyInclusion (leafAt crates db index)
      ⟨index, cp.treeSize, auditPath crates.hashChildren (leafAt crates db) 0 cp.treeSize index⟩
      (mth crates.hashChildren (crates.digest []) ((leafHashes crates db).take cp.treeSize)) = .ok true := by
    rw [mth_leafHashes crates (by omega) hheld]
    exact hpath.verifyInclusion _ _ _ hindex
  refine ⟨⟨index, cp, crates.proofPathHex
    ⟨index, cp.treeSize, auditPath crates.hashChildren (leafAt crates db) 0 cp.treeSize index⟩⟩, ?_, rfl, rfl, ?_⟩
  · unfold rotationProofElement
    rw [hget, hview, hnext]
    simp only [okOr, ok_bind, hfloor]
    have hroot : crates.parseHashHex cp.rootHash = .ok _ := hservable.root
    rw [hrep.toCanonical.countEntriesRaw_held hsize hheld, hrep.inclusionProofRaw hproof hindex hheld, hroot,
      hrep.leafHashesRangeRaw (by omega) (by omega)]
    simp only [mapErr, ok_bind, ne_eq, not_true_eq_false, if_false, hleaves, hopened, Bool.true_eq_false]
  · exact ⟨hindex, hheld, hservable.root, bytes, _, hbytes, hservable.root,
      verifyInclusionFor_auditPath hpath hindex hheld hbytes⟩

/-- **A servable anchor is served where the least one has the right root.** Once a run reported an anchor
for a rotation that the final state could serve, the route serves a sound element if and only if there is
a view and the least anchor the run reported for the rotation declares the root of the entries. -/
theorem rotation_proof_served_iff (hproof : InclusionProofLaws crates) (hpath : PathLaws crates) {calls : List Call}
    {index : Nat} {cp : Checkpoint} (hanchored : Anchored crates config calls index cp)
    (hservable : Servable crates (storeAfter crates config calls) cp) :
    (∃ element, rotationProofElement crates config (storeAfter crates config calls) index = .ok element ∧
      element.manifestEntryIndex = index ∧ SoundElement crates (storeAfter crates config calls) element) ↔
    (seriesView crates config (storeAfter crates config calls)).isOk = true ∧
      ∀ least, Anchored crates config calls index least → (∀ other, Anchored crates config calls index other → seriesLE least other) →
        DeclaresRoot crates (storeAfter crates config calls) least := by
  have hrep := storeAfter_represents crates config calls
  obtain ⟨a, hget, hle, -⟩ := hanchored.getRotationCheckpoint
  have hindex : index < i64Bound := hanchored.covers.1.trans hanchored.covers.2.1
  obtain ⟨ha, hleast⟩ := anchor_least hindex hget
  constructor
  · rintro ⟨element, helement, -, hsound⟩
    unfold rotationProofElement at helement
    rw [hget] at helement
    simp only [ok_bind, okOr, bind_eq_ok, ite_error_eq_ok] at helement
    obtain ⟨view, hview, -, -, _, -, -, _, -, _, -, _, -, _, -, _, -, -, hdone⟩ := helement
    have hserved : element.checkpoint = a := congrArg RotationProofElement.checkpoint (Except.ok.inj hdone).symm
    refine ⟨by rw [hview]; rfl, fun least hanchor hall => ?_⟩
    -- the least anchor is the one read
    obtain ⟨b, hget', hle', hsame⟩ := hanchor.getRotationCheckpoint
    obtain rfl := Option.some.inj (Except.ok.inj (hget.symm.trans hget'))
    rw [hsame (hall a ha), ← hserved]
    exact hsound.root
  · rintro ⟨hok, hroot⟩
    cases hview : seriesView crates config (storeAfter crates config calls) with
    | error e =>
      rw [hview] at hok
      cases hok
    | ok view =>
      have hservable' : Servable crates (storeAfter crates config calls) a :=
        ⟨hle.treeSize_le.trans hservable.held, hroot a ha hleast, fun f hf =>
          hle.treeSize_le.trans_lt (hservable.floor f hf)⟩
      obtain ⟨element, helement, hmanifest, -, hsound⟩ :=
        hservable'.served hproof hpath hrep ha.covers.1 ha.covers.2.1 hget hview
      exact ⟨element, helement, hmanifest, hsound⟩

namespace Symbolic

/-- The small log with two plain entries after the rotation. -/
def fourEntries : List Bytes := [[1], [2], [5], [6]]

/-- An anchor over a third entry that the log does not have, then the log's third and fourth entry, and an
anchor over all four. -/
def shadowed : List Call := rotated ++ [ingest (laterAnchor 6 6) [], stage 6,
  ingest (checkpoint "B" 4 (rootOf fourEntries) 7) [pending fourEntries 2, pending fourEntries 3],
  ingest (checkpoint "A" 4 (rootOf fourEntries) 8) []]

/-- The anchor of the small log's rotation. -/
def firstAnchor : Checkpoint := checkpoint "A" 2 (rootOf [[1], [2]]) 5

end Symbolic

theorem rotation_proof_served_iff_anchored : ∃ element,
    rotationProofElement (Symbolic.crates Symbolic.documents) Symbolic.config (Symbolic.after Symbolic.anchored) 1 = .ok element ∧
      element.manifestEntryIndex = 1 ∧
      SoundElement (Symbolic.crates Symbolic.documents) (Symbolic.after Symbolic.anchored) element := by
  have hanchored : Anchored (Symbolic.crates Symbolic.documents) Symbolic.config Symbolic.anchored 1 Symbolic.firstAnchor :=
    ⟨Symbolic.rotated, none, [], none, List.prefix_rfl, ⟨false, [1]⟩, by decide +kernel, by decide⟩
  obtain ⟨hservable, hread, hview⟩ :
      Servable (Symbolic.crates Symbolic.documents) (Symbolic.after Symbolic.anchored) Symbolic.firstAnchor ∧
      getRotationCheckpoint (Symbolic.after Symbolic.anchored) 1 = .ok (some Symbolic.firstAnchor) ∧
      (seriesView (Symbolic.crates Symbolic.documents) Symbolic.config (Symbolic.after Symbolic.anchored)).isOk = true := by
    decide +kernel
  refine (rotation_proof_served_iff (Symbolic.inclusionProofLaws _) (Symbolic.pathLaws _) hanchored hservable).2
    ⟨hview, fun least hleast hall => ?_⟩
  obtain ⟨a, hget, -, hsame⟩ := hleast.getRotationCheckpoint
  obtain rfl := Option.some.inj (Except.ok.inj (hread.symm.trans hget))
  rw [hsame (hall _ hanchored)]
  exact hservable.root

/-- An earlier anchor over entries the log does not have keeps a later one from being served. -/
theorem servable_anchor_shadowed : ¬ ∀ (calls : List Call) (index : Nat) (cp : Checkpoint),
    Anchored (Symbolic.crates Symbolic.documents) Symbolic.config calls index cp →
    Servable (Symbolic.crates Symbolic.documents) (Symbolic.after calls) cp → ∃ element,
      rotationProofElement (Symbolic.crates Symbolic.documents) Symbolic.config (Symbolic.after calls) index = .ok element ∧
        element.manifestEntryIndex = index ∧
        SoundElement (Symbolic.crates Symbolic.documents) (Symbolic.after calls) element := by
  intro h
  obtain ⟨hservable, hrefused⟩ : Servable (Symbolic.crates Symbolic.documents) (Symbolic.after Symbolic.shadowed)
        (Symbolic.checkpoint "A" 4 (Symbolic.rootOf Symbolic.fourEntries) 8) ∧
      rotationProofElement (Symbolic.crates Symbolic.documents) Symbolic.config (Symbolic.after Symbolic.shadowed) 1 =
        .error (.checkpointRootMismatch 3) := by
    decide +kernel
  obtain ⟨element, helement, -⟩ := h Symbolic.shadowed 1 (Symbolic.checkpoint "A" 4 (Symbolic.rootOf Symbolic.fourEntries) 8)
    ⟨Symbolic.shadowed.take 7, none, [], none, List.prefix_rfl, ⟨false, [1]⟩, by decide +kernel, by decide⟩ hservable
  rw [hrefused] at helement
  cases helement

end AhlMirror
