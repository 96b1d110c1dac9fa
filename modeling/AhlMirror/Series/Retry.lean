import AhlMirror.Series.Frame
import AhlMirror.Series.Visible

/-!
# Submitting again

A submission answered with `Ok` is answered alike when it is sent again, and the store stays as it is.
Each write of the transaction finds what the first one left: its entries canonical, its series member on
file and, for each rotation it anchors, a row to serve no later than its own. The prefix it is judged on
is the one it saw before, now canonical.
-/

namespace AhlMirror

variable {H K : Type} [HashOctets H]

/-! ### The batch -/

section promotion
variable {crates : Crates H K}

omit [HashOctets H] in
theorem Canonical.entryAt_of_mem {db : Db} (h : Canonical db) {row : EntryRow} (hrow : row ∈ db.entries) :
    AhlMirror.entryAt db row.entryIndex = some row := by
  obtain ⟨i, hi, rfl⟩ := List.mem_iff_getElem.1 hrow
  rw [h.entryAt, h.contiguous.getElem hi, List.getElem?_eq_getElem hi]

theorem promoteEntryRaw_again {db after later : Db} {entryIndex : Nat} {entryId : String} {outcome : InsertOutcome}
    (h : promoteEntryRaw crates db entryIndex entryId = .ok (outcome, after)) (hcanonical : Canonical later)
    (hstaged : later.stagedEntries = db.stagedEntries)
    (hheld : ∃ row ∈ later.entries, row.entryIndex = entryIndex ∧ row.entryId = entryId ∧
      getStagedRaw db entryId = some row.envelope) :
    promoteEntryRaw crates later entryIndex entryId = .ok (.alreadyPresent, later) := by
  obtain ⟨row, hrow, rfl, rfl, hbytes⟩ := hheld
  have hindex : row.entryIndex < i64Bound := by
    unfold promoteEntryRaw at h
    simp only [bind_eq_ok, toI64_eq_ok] at h
    obtain ⟨-, ⟨hlt, -⟩, -⟩ := h
    exact hlt
  have hbytes' : getStagedRaw later row.entryId = some row.envelope := by
    unfold getStagedRaw at hbytes ⊢
    rw [hstaged]
    exact hbytes
  unfold promoteEntryRaw
  rw [toI64_of_lt hindex, hbytes']
  simp only [okOr, ok_bind]
  rw [hcanonical.entryAt_of_mem hrow]
  dsimp only
  rw [if_pos ⟨rfl, rfl⟩]

theorem promoteEntryIn_again {cp : Checkpoint} {p : PendingPromotion} {db after later : Db} {outcome : InsertOutcome}
    (h : promoteEntryIn crates db cp p.entryId p.leafIndex p.inclusionPath = .ok (outcome, after))
    (hcanonical : Canonical later) (hstaged : later.stagedEntries = db.stagedEntries)
    (hheld : ∃ row ∈ later.entries, row.entryIndex = p.leafIndex ∧ row.entryId = p.entryId ∧
      getStagedRaw db p.entryId = some row.envelope) :
    promoteEntryIn crates later cp p.entryId p.leafIndex p.inclusionPath = .ok (.alreadyPresent, later) := by
  have hsame : getStagedRaw later p.entryId = getStagedRaw db p.entryId := by
    unfold getStagedRaw
    rw [hstaged]
  simp only [promoteEntryIn, bind_eq_ok, ite_error_eq_ok, okOr_eq_ok] at h ⊢
  obtain ⟨bytes, hbytes, root, hroot, included, hincluded, htrue, hraw⟩ := h
  exact ⟨bytes, hsame.trans hbytes, root, hroot, included, hincluded, htrue,
    promoteEntryRaw_again hraw hcanonical hstaged hheld⟩

theorem promoteBatch_again {cp : Checkpoint} {batch : List PendingPromotion} {later : Db} (hcanonical : Canonical later) :
    ∀ {db after : Db}, Represents crates db → promoteBatch crates cp batch db = .ok after →
      later.stagedEntries = db.stagedEntries →
      (∀ p ∈ batch, ∃ row ∈ later.entries, row.entryIndex = p.leafIndex ∧ row.entryId = p.entryId ∧
        getStagedRaw db p.entryId = some row.envelope) →
      promoteBatch crates cp batch later = .ok later := by
  induction batch with
  | nil => exact fun _ _ _ _ => rfl
  | cons p rest ih =>
    intro db after hrep h hstaged hheld
    simp only [promoteBatch, bind_eq_ok] at h
    obtain ⟨⟨outcome, mid⟩, hpromote, hrest⟩ := h
    obtain ⟨hrep', hgrow⟩ := promoteEntryIn_grow hrep hpromote
    rw [promoteBatch, promoteEntryIn_again hpromote hcanonical hstaged (hheld p List.mem_cons_self)]
    apply ih hrep' hrest (hstaged.trans hgrow.staged.symm)
    intro q hq
    unfold getStagedRaw
    rw [hgrow.staged]
    exact hheld q (List.mem_cons_of_mem _ hq)

omit [HashOctets H] in
theorem overlay_of_canonical {db : Db} {target : Nat} {root : H} {batch : List PendingPromotion}
    (h : ∀ p ∈ batch, p.leafIndex < db.entries.length) (overlay : Overlay) :
    batch.foldlM (overlayPending crates db (min target db.entries.length) target root) overlay = .ok overlay := by
  induction batch with
  | nil => rfl
  | cons p rest ih =>
    have hturn : overlayPending crates db (min target db.entries.length) target root overlay p = .ok overlay := by
      unfold overlayPending
      split_ifs with htarget hcanonical
      · rfl
      · rfl
      · have := h p List.mem_cons_self
        omega
      · have := h p List.mem_cons_self
        omega
    rw [List.foldlM_cons, hturn, ok_bind]
    exact ih fun q hq => h q (List.mem_cons_of_mem _ hq)

omit [HashOctets H] in
theorem buildVisiblePrefix_of_canonical {db : Db} (hcanonical : Canonical db) {target : Nat} (htarget : target < i64Bound)
    {root : H} {batch : List PendingPromotion} (h : ∀ p ∈ batch, p.leafIndex < db.entries.length) :
    buildVisiblePrefix crates db batch target root = .ok ((canonicalEntries db).take target) := by
  unfold buildVisiblePrefix
  rw [hcanonical.entriesPrefix htarget]
  simp only [ok_bind]
  rw [List.length_take, length_canonicalEntries, overlay_of_canonical h]
  rfl

end promotion

/-! ### The tables of checkpoints -/

theorem insertCheckpointRaw_again {db after : Db} {cp : Checkpoint} {outcome : InsertOutcome}
    (h : insertCheckpointRaw db cp = .ok (outcome, after)) {later : Db} (hrows : later.checkpoints = after.checkpoints) :
    insertCheckpointRaw later cp = .ok (.alreadyPresent, later) := by
  unfold insertCheckpointRaw at h ⊢
  rw [hrows]
  simp only [bind_eq_ok, toI64_eq_ok] at h ⊢
  obtain ⟨treeSize, ⟨hsize, rfl⟩, h⟩ := h
  refine ⟨cp.treeSize, ⟨hsize, rfl⟩, ?_⟩
  cases hfind : db.checkpoints.find? fun row => row.treeSize == cp.treeSize && row.checkpointTime == cp.checkpointTime with
  | some existing =>
    simp only [hfind] at h
    split_ifs at h with hsame
    obtain ⟨-, rfl⟩ := Prod.mk.inj (Except.ok.inj h)
    rw [hfind]
    dsimp only
    rw [if_pos hsame]
  | none =>
    simp only [hfind] at h
    obtain ⟨-, rfl⟩ := Prod.mk.inj (Except.ok.inj h)
    dsimp only
    rw [List.find?_append, hfind]
    simp

theorem recordSeriesMember_again {db after : Db} {cp : Checkpoint} {seriesMember : Bool}
    (h : recordSeriesMember cp seriesMember db = .ok after) {later : Db} (hrows : later.checkpoints = after.checkpoints) :
    recordSeriesMember cp seriesMember later = .ok later := by
  unfold recordSeriesMember at h ⊢
  split_ifs at h ⊢ with hmember
  · rfl
  · obtain ⟨⟨outcome, inserted⟩, hinsert, hdone⟩ := bind_eq_ok.1 h
    obtain rfl := Except.ok.inj hdone
    rw [insertCheckpointRaw_again hinsert hrows]
    rfl

theorem Covers.insertRotationCheckpointRaw {db : Db} {index : Nat} {cp : Checkpoint} (h : Covers db index cp)
    (hkeyed : RotationsKeyed db) (hindex : index < i64Bound) (hsize : cp.treeSize < i64Bound) :
    ∃ outcome, insertRotationCheckpointRaw db index cp = .ok (outcome, db) := by
  obtain ⟨⟨outcome, after⟩, hinsert⟩ := (insertRotationCheckpointRaw_ok_iff hkeyed hindex hsize).2 h.unrivalled
  rcases insertRotationCheckpointRaw_cases hinsert with ⟨rfl, -⟩ | ⟨-, hfree⟩
  · exact ⟨outcome, hinsert⟩
  · obtain ⟨held, hheld, hle⟩ := h.held
    exact absurd hle (hfree held hheld)

theorem insertRotationCheckpoints_of_covers {db : Db} (hkeyed : RotationsKeyed db) {cp : Checkpoint} {anchors : List Nat}
    (hsize : cp.treeSize < i64Bound) (h : ∀ index ∈ anchors, index < i64Bound ∧ Covers db index cp) :
    insertRotationCheckpoints cp anchors db = .ok db := by
  induction anchors with
  | nil => rfl
  | cons index rest ih =>
    obtain ⟨hindex, hcovers⟩ := h index List.mem_cons_self
    obtain ⟨outcome, hinsert⟩ := hcovers.insertRotationCheckpointRaw hkeyed hindex hsize
    rw [insertRotationCheckpoints, hinsert]
    exact ih fun i hi => h i (List.mem_cons_of_mem _ hi)

/-! ### The submission -/

variable [DecidableEq H] {crates : Crates H K} {config requestConfig : Config K}

omit [DecidableEq H] in
theorem judgeCheckpoint_congr {db later : Db} {cp : Checkpoint} {raw : Option Bytes} {batch : List PendingPromotion}
    {rotationFor : Option Nat} {root : H} (hroot : crates.parseHashHex cp.rootHash = .ok root)
    (hvisible : buildVisiblePrefix crates later batch cp.treeSize root = buildVisiblePrefix crates db batch cp.treeSize root) :
    judgeCheckpoint crates config later cp raw batch rotationFor =
      judgeCheckpoint crates config db cp raw batch rotationFor := by
  unfold judgeCheckpoint
  rw [hroot]
  simp only [mapErr, ok_bind]
  rw [hvisible]

/-- The transaction of an admission, run again on the store it left. -/
theorem Committed.again {cp : Checkpoint} {batch : List PendingPromotion} {claimedRoot : H} {admission : Admission}
    {db mid recorded after : Db} (hrep : Represents crates db) (hkeyed : RotationsKeyed db)
    (h : Committed crates cp batch claimedRoot admission db mid recorded after) (hsize : cp.treeSize < i64Bound)
    (hcovers : ∀ index ∈ admission.rotationAnchors, index < i64Bound ∧ Covers after index cp) :
    commitAdmission crates cp batch claimedRoot admission after = .ok (admission, after) := by
  obtain ⟨hentries, hstaged⟩ := h.entries
  have hrows : after.checkpoints = recorded.checkpoints ∧ after.subtreeRoots = mid.subtreeRoots := by
    obtain ⟨kept, -, -, rfl⟩ := insertRotationCheckpoints_cases h.rotations
    rcases recordSeriesMember_cases h.member with ⟨rfl, -⟩ | ⟨-, rfl, -⟩ <;> exact ⟨rfl, rfl⟩
  have hbatch : promoteBatch crates cp batch after = .ok after := by
    apply promoteBatch_again (h.represents hrep).1.toCanonical hrep h.batch
      (hstaged.trans (promoteBatch_grow hrep h.batch).2.staged)
    rw [hentries]
    exact promoteBatch_holds hrep h.batch
  have hagrees : contradictsStored crates after cp.treeSize claimedRoot = .ok false := by
    rw [SameNodes.contradictsStored crates (SameTree.nodes ⟨hentries, hrows.2⟩)]
    exact h.agrees
  have hrotations := insertRotationCheckpoints_of_covers (h.rotationsKeyed hrep hkeyed) hsize hcovers
  unfold commitAdmission
  rw [hbatch]
  simp only [ok_bind]
  rw [hagrees]
  simp only [ok_bind, Bool.false_eq_true, if_false]
  rw [recordSeriesMember_again h.member hrows.1]
  simp only [ok_bind]
  rw [hrotations]
  rfl

/-- **Retrying an admission changes nothing.** A submission answered with `Ok` on a store that a run
reached is answered with the same admission when it is sent again, and leaves every table as it is. -/
theorem ingest_checkpoint_again {db after : Db} (hreach : Reachable crates config db) {cp : Checkpoint}
    {raw : Option Bytes} {batch : List PendingPromotion} {rotationFor : Option Nat} {admission : Admission}
    (h : ingestCheckpoint crates requestConfig db cp raw batch rotationFor = (after, .ok admission)) :
    ingestCheckpoint crates requestConfig after cp raw batch rotationFor = (after, .ok admission) := by
  have hrep := hreach.represents
  obtain ⟨claimedRoot, judged, hjudge, hcommit⟩ := ingestCheckpoint_eq_ok h
  obtain ⟨rfl, mid, recorded, hcommitted⟩ := commitAdmission_cases hcommit
  obtain ⟨visible, list, active, hjudged⟩ := judgeCheckpoint_cases hjudge
  have hafter := (hcommitted.represents hrep).1
  have hbelow : ∀ p ∈ batch, p.leafIndex < after.entries.length := by
    rw [hcommitted.entries.1]
    exact (promoteBatch_proposes hrep hcommitted.batch).2
  have hvisible : buildVisiblePrefix crates after batch cp.treeSize claimedRoot = .ok visible := by
    rw [buildVisiblePrefix_of_canonical hafter.toCanonical hjudged.size hbelow, hcommitted.canonicalEntries,
      visiblePrefix_eq_promoted hrep hjudged.size hjudged.visiblePrefix hcommitted.batch]
  have hverdict : judgeCheckpoint crates requestConfig after cp raw batch rotationFor = .ok (claimedRoot, admission) := by
    rw [judgeCheckpoint_congr hjudged.root (hvisible.trans hjudged.visiblePrefix.symm), hjudge]
  have hcovers : ∀ index ∈ admission.rotationAnchors, index < i64Bound ∧ Covers after index cp := by
    intro index hindex
    obtain ⟨hlt, hsize, hcovered⟩ := (ingestCheckpoint_rotationRows hrep hreach.rotationsKeyed h).2 index hindex
    exact ⟨hlt.trans hsize, hcovered⟩
  unfold ingestCheckpoint withTransaction
  rw [hverdict]
  dsimp only
  rw [hcommitted.again hrep hreach.rotationsKeyed hjudged.size hcovers]

/-- The two manifests of the small log, with an anchor of the rotation between them. -/
def Symbolic.submitRotation (db : Db) : Db × MirrorResult Admission :=
  ingestCheckpoint (Symbolic.crates Symbolic.documents) Symbolic.config db
    (Symbolic.checkpoint "A" 2 (Symbolic.rootOf [[1], [2]]) 5) none
    [Symbolic.pending [[1], [2]] 0, Symbolic.pending [[1], [2]] 1] none

theorem ingest_checkpoint_again_rotation :
    Symbolic.submitRotation (Symbolic.submitRotation (Symbolic.after [Symbolic.stage 1, Symbolic.stage 2])).1 =
      ((Symbolic.submitRotation (Symbolic.after [Symbolic.stage 1, Symbolic.stage 2])).1, .ok ⟨false, [1]⟩) :=
  ingest_checkpoint_again (Symbolic.reachable_after _) (Prod.ext rfl (by decide +kernel))

end AhlMirror
