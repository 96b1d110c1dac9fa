import AhlMirror.Series.Arrival

/-!
# What an admission leaves

An admission that is refused leaves the store as it was. One that is answered with `Ok` appends the
items of its batch no row was held for, completes the cache for them, files its checkpoint in the tables
it was admitted to, and touches nothing else (`AdmissionFrame`).
-/

namespace AhlMirror

open Merkle

variable {H K : Type} [HashOctets H]

/-! ### The batch -/

section promotion
variable {crates : Crates H K}

theorem promoteEntryRaw_holds {db after : Db} (hrep : Represents crates db) {entryIndex : Nat} {entryId : String}
    {outcome : InsertOutcome} (h : promoteEntryRaw crates db entryIndex entryId = .ok (outcome, after)) :
    ∃ row ∈ after.entries, row.entryIndex = entryIndex ∧ row.entryId = entryId ∧
      getStagedRaw db entryId = some row.envelope := by
  rcases promoteEntryRaw_cases hrep h with ⟨rfl, hlt, -⟩ | ⟨bytes, rows, hstaged, rfl, -, rfl, -⟩
  · -- the row was there, and the code compared its bytes
    unfold promoteEntryRaw at h
    simp only [bind_eq_ok, toI64_eq_ok, okOr_eq_ok] at h
    obtain ⟨index, ⟨-, rfl⟩, bytes, hstaged, h⟩ := h
    rw [hrep.toCanonical.entryAt, List.getElem?_eq_getElem hlt] at h
    dsimp only at h
    split_ifs at h with hsame
    exact ⟨_, List.getElem_mem hlt, hrep.contiguous.getElem hlt, hsame.1, hsame.2 ▸ hstaged⟩
  · exact ⟨_, List.mem_append_right _ (List.mem_singleton_self _), rfl, rfl, hstaged⟩

theorem promoteBatch_holds {cp : Checkpoint} : ∀ {batch : List PendingPromotion} {db after : Db},
    Represents crates db → promoteBatch crates cp batch db = .ok after → ∀ p ∈ batch, ∃ row ∈ after.entries,
      row.entryIndex = p.leafIndex ∧ row.entryId = p.entryId ∧ getStagedRaw db p.entryId = some row.envelope
  | [], _, _, _, _, p, hp => absurd hp List.not_mem_nil
  | first :: rest, db, after, hrep, h, p, hp => by
    simp only [promoteBatch, bind_eq_ok] at h
    obtain ⟨⟨outcome, mid⟩, hpromote, hrest⟩ := h
    obtain ⟨hrep', hgrow⟩ := promoteEntryIn_grow hrep hpromote
    rcases List.mem_cons.1 hp with rfl | hp
    · simp only [promoteEntryIn, bind_eq_ok, ite_error_eq_ok] at hpromote
      obtain ⟨-, -, -, -, -, -, -, hraw⟩ := hpromote
      obtain ⟨row, hrow, hkept⟩ := promoteEntryRaw_holds hrep hraw
      exact ⟨row, (promoteBatch_grow hrep' hrest).2.entries.subset hrow, hkept⟩
    · obtain ⟨row, hrow, hindex, hid, hstaged⟩ := promoteBatch_holds hrep' hrest p hp
      refine ⟨row, hrow, hindex, hid, ?_⟩
      unfold getStagedRaw at hstaged ⊢
      rwa [hgrow.staged] at hstaged

/-- The rows gained are the items of the batch no row was held for, in index order. -/
structure GainedRows (crates : Crates H K) (db : Db) (batch : List PendingPromotion) (gained : List EntryRow) :
    Prop where
  ordered : gained.map (·.entryIndex) = List.range' db.entries.length gained.length
  items : ∀ entryId entryIndex, (∃ row ∈ gained, row.entryId = entryId ∧ row.entryIndex = entryIndex) ↔
    ∃ p ∈ batch, p.entryId = entryId ∧ p.leafIndex = entryIndex ∧ entryId ∉ db.entries.map (·.entryId)
  staged : ∀ row ∈ gained, getStagedRaw db row.entryId = some row.envelope
  leafHash : ∀ row ∈ gained, row.leafHash = some (asSlice (logLeafHash crates row.envelope))

theorem gainedRows_of_promoteBatch {db mid : Db} (hrep : Represents crates db) {cp : Checkpoint}
    {batch : List PendingPromotion} (h : promoteBatch crates cp batch db = .ok mid) :
    ∃ gained, mid.entries = db.entries ++ gained ∧ GainedRows crates db batch gained := by
  obtain ⟨hrep', hgrow⟩ := promoteBatch_grow hrep h
  obtain ⟨gained, hgained⟩ := hgrow.entries
  have hplaces := promoteBatch_places hrep h
  have hids : ∀ row ∈ gained, row.entryId ∉ db.entries.map (·.entryId) := by
    have hdistinct := hrep'.distinct
    rw [← hgained, List.map_append, List.nodup_append] at hdistinct
    exact fun row hrow hold => hdistinct.2.2 _ hold _ (List.mem_map_of_mem hrow) rfl
  have hstaged : ∀ row ∈ gained, ∃ p ∈ batch, getStagedRaw db p.entryId = some row.envelope ∧
      PlacedUnder crates cp p row := by
    intro row hrow
    rcases hplaces.rows row (hgained ▸ List.mem_append_right _ hrow) with hold | hnew
    · exact absurd (List.mem_map_of_mem hold) (hids row hrow)
    · exact hnew
  refine ⟨gained, hgained.symm, ⟨?_, fun entryId entryIndex => ⟨?_, ?_⟩, fun row hrow => ?_, fun row hrow =>
    hrep'.leafHash row (hgained ▸ List.mem_append_right _ hrow)⟩⟩
  · have hordered : mid.entries.map (·.entryIndex) = List.range mid.entries.length := hrep'.contiguous
    rw [← hgained, List.map_append, List.length_append, List.range_eq_range', List.range'_append_1.symm,
      Nat.zero_add] at hordered
    exact (List.append_inj' hordered (by simp)).2
  · rintro ⟨row, hrow, rfl, rfl⟩
    obtain ⟨p, hp, -, hunder⟩ := hstaged row hrow
    exact ⟨p, hp, hunder.entryId, hunder.entryIndex, hids row hrow⟩
  · rintro ⟨p, hp, rfl, rfl, hnew⟩
    obtain ⟨row, hrow, hindex, hid⟩ := hplaces.placed p hp
    rw [← hgained] at hrow
    rcases List.mem_append.1 hrow with hold | hrow
    · exact absurd (hid ▸ List.mem_map_of_mem hold) hnew
    · exact ⟨row, hrow, hid, hindex⟩
  · obtain ⟨p, -, hbytes, hunder⟩ := hstaged row hrow
    rwa [hunder.entryId] at hbytes

theorem Represents.mem_subtreeRoots {db after : Db} (hrep : Represents crates db) (hrep' : Represents crates after)
    (hentries : db.entries <+: after.entries) (row : SubtreeRow) :
    row ∈ after.subtreeRoots ↔ row ∈ db.subtreeRoots ∨ ∃ level index : Nat, 1 ≤ level ∧
      db.entries.length < (index + 1) * 2 ^ level ∧ (index + 1) * 2 ^ level ≤ after.entries.length ∧
      row = nodeRow crates (leafAt crates after) level index := by
  obtain ⟨gained, hgained⟩ := hentries
  have hsame : ∀ level index, (index + 1) * 2 ^ level ≤ db.entries.length →
      nodeRow crates (leafAt crates after) level index = nodeRow crates (leafAt crates db) level index := by
    intro level index hle
    unfold nodeRow
    rw [nodeRoot_congr crates.hashChildren hle fun i hi => leafAt_append crates hgained.symm hi]
  have hlength : db.entries.length ≤ after.entries.length := by
    rw [← hgained, List.length_append]
    exact Nat.le_add_right _ _
  constructor
  · intro hrow
    obtain ⟨level, index, hnode, rfl⟩ := hrep'.cache.complete row hrow
    by_cases hheld : (index + 1) * 2 ^ level ≤ db.entries.length
    · rw [hsame level index hheld]
      exact Or.inl (hrep.cache.covers level index ⟨hnode.1, hheld⟩)
    · exact Or.inr ⟨level, index, hnode.1, by omega, hnode.2, rfl⟩
  · rintro (hrow | ⟨level, index, hlevel, -, hle, rfl⟩)
    · obtain ⟨level, index, hnode, rfl⟩ := hrep.cache.complete row hrow
      rw [← hsame level index hnode.2]
      exact hrep'.cache.covers level index ⟨hnode.1, hnode.2.trans hlength⟩
    · exact hrep'.cache.covers level index ⟨hlevel, hle⟩

end promotion

/-! ### The admission -/

theorem Covers.served {db : Db} {index : Nat} {cp : Checkpoint} (h : Covers db index cp) (hindex : index < i64Bound) :
    ∃ a, getRotationCheckpoint db index = .ok (some a) ∧ seriesLE a cp := by
  obtain ⟨held, hheld, hle⟩ := h.held
  cases hhead : (rotationRows db index).head? with
  | none =>
    rw [List.head?_eq_none_iff] at hhead
    simpa [hhead] using mem_rotationRows.2 hheld
  | some a =>
    refine ⟨a, ?_, (head?_rotationRows_le hhead hheld).trans hle⟩
    unfold getRotationCheckpoint
    rw [toI64_of_lt hindex, ok_bind, hhead]

variable [DecidableEq H] {crates : Crates H K} {config : Config K}

/-- What an admission answered with `Ok` leaves of a store: each table with what it gained. -/
structure AdmissionFrame (crates : Crates H K) (db after : Db) (cp : Checkpoint) (batch : List PendingPromotion)
    (admission : Admission) : Prop where
  canonical : ∀ p ∈ batch, ∃ row ∈ after.entries, row.entryIndex = p.leafIndex ∧ row.entryId = p.entryId ∧
    getStagedRaw db p.entryId = some row.envelope
  entries : ∃ gained, after.entries = db.entries ++ gained ∧ GainedRows crates db batch gained
  stagedEntries : after.stagedEntries = db.stagedEntries
  checkpoints : after.checkpoints = db.checkpoints ∨
    cp ∉ db.checkpoints ∧ after.checkpoints = db.checkpoints ++ [cp]
  member : cp ∈ after.checkpoints ↔ admission.seriesMember = true ∨ cp ∈ db.checkpoints
  rotationCheckpoints : ∃ kept : List Nat, (∀ index ∈ kept, index ∈ admission.rotationAnchors) ∧
    after.rotationCheckpoints = db.rotationCheckpoints ++ kept.map fun index => (index, cp)
  served : ∀ index ∈ admission.rotationAnchors, ∃ a, getRotationCheckpoint after index = .ok (some a) ∧ seriesLE a cp
  subtreeRoots : ∀ row, row ∈ after.subtreeRoots ↔ row ∈ db.subtreeRoots ∨ ∃ level index : Nat, 1 ≤ level ∧
    db.entries.length < (index + 1) * 2 ^ level ∧ (index + 1) * 2 ^ level ≤ after.entries.length ∧
    row = nodeRow crates (leafAt crates after) level index
  root : cp.treeSize ≤ after.entries.length → ∃ root, crates.parseHashHex cp.rootHash = .ok root ∧
    logRootRaw crates after cp.treeSize = .ok root ∧ (RootLaws crates → SubtreeLaws crates →
      root = mth crates.hashChildren (crates.digest []) ((leafHashes crates after).take cp.treeSize))

theorem contradictsStored_root {db : Db} (hcanonical : Canonical db) {treeSize : Nat} {claimedRoot : H}
    (hsize : treeSize < i64Bound) (hheld : treeSize ≤ db.entries.length)
    (h : contradictsStored crates db treeSize claimedRoot = .ok false) :
    logRootRaw crates db treeSize = .ok claimedRoot := by
  unfold contradictsStored holdsPrefix at h
  rw [hcanonical.countEntriesRaw_held hsize hheld] at h
  simp only [ok_bind, ne_eq, not_true_eq_false, if_false, bind_eq_ok] at h
  obtain ⟨held, ⟨-, -, hheld⟩, h⟩ := h
  obtain rfl := Except.ok.inj hheld
  simp only [Bool.true_eq_false, if_false, bind_eq_ok] at h
  obtain ⟨root, hroot, hagrees⟩ := h
  have hsame : root = claimedRoot := by simpa using hagrees
  exact hsame ▸ hroot

theorem Committed.frame {cp : Checkpoint} {batch : List PendingPromotion} {claimedRoot : H}
    {admission : Admission} {db mid recorded after : Db} (hrep : Represents crates db)
    (h : Committed crates cp batch claimedRoot admission db mid recorded after) (hsize : cp.treeSize < i64Bound)
    (hroot : crates.parseHashHex cp.rootHash = .ok claimedRoot)
    (hserved : ∀ index ∈ admission.rotationAnchors, ∃ a, getRotationCheckpoint after index = .ok (some a) ∧ seriesLE a cp) :
    AdmissionFrame crates db after cp batch admission := by
  obtain ⟨hrep', hgrow⟩ := h.represents hrep
  obtain ⟨-, hmid⟩ := promoteBatch_grow hrep h.batch
  obtain ⟨hentries, hstaged⟩ := h.entries
  obtain ⟨gained, hgained, hrows⟩ := gainedRows_of_promoteBatch hrep h.batch
  have hrecorded := h.recorded_rotationCheckpoints hrep
  have hafter : after.checkpoints = recorded.checkpoints := by
    obtain ⟨kept, -, -, rfl⟩ := insertRotationCheckpoints_cases h.rotations
    rfl
  have hcheckpoints : (after.checkpoints = db.checkpoints ∧ (admission.seriesMember = true → cp ∈ db.checkpoints)) ∨
      admission.seriesMember = true ∧ cp ∉ db.checkpoints ∧ after.checkpoints = db.checkpoints ++ [cp] := by
    rw [hafter, ← hmid.checkpoints]
    rcases recordSeriesMember_cases h.member with ⟨rfl, hmem⟩ | ⟨hmember, rfl, hnew⟩
    · exact Or.inl ⟨rfl, hmem⟩
    · exact Or.inr ⟨hmember, fun hmem => hnew cp hmem ⟨rfl, rfl⟩, rfl⟩
  refine ⟨fun p hp => hentries ▸ promoteBatch_holds hrep h.batch p hp, ⟨gained, hentries.trans hgained, hrows⟩,
    hstaged.trans hmid.staged, ?_, ?_, ?_, hserved, hrep.mem_subtreeRoots hrep' hgrow.entries, fun hheld => ?_⟩
  · rcases hcheckpoints with ⟨hsame, -⟩ | ⟨-, hnew⟩
    · exact Or.inl hsame
    · exact Or.inr hnew
  · rcases hcheckpoints with ⟨hsame, hmem⟩ | ⟨hmember, -, hadded⟩
    · rw [hsame]
      exact ⟨Or.inr, fun h => h.elim hmem id⟩
    · rw [hadded]
      exact ⟨fun _ => Or.inl hmember, fun _ => List.mem_append_right _ (List.mem_singleton_self cp)⟩
  · obtain ⟨kept, hkept, -, rfl⟩ := insertRotationCheckpoints_cases h.rotations
    exact ⟨kept, fun index hindex => (hkept index hindex).1, by rw [hrecorded]⟩
  · -- the check ran on the batch's rows, which are those of the store afterwards
    have hopened : logRootRaw crates mid cp.treeSize = .ok claimedRoot := by
      refine contradictsStored_root ?_ hsize (by rwa [← hentries]) h.agrees
      exact (promoteBatch_grow hrep h.batch).1.toCanonical
    have hsame : logRootRaw crates after = logRootRaw crates mid := by
      obtain ⟨kept, -, -, rfl⟩ := insertRotationCheckpoints_cases h.rotations
      rcases recordSeriesMember_cases h.member with ⟨rfl, -⟩ | ⟨-, rfl, -⟩ <;>
        exact SameNodes.logRootRaw crates (SameTree.nodes ⟨rfl, rfl⟩)
    refine ⟨claimedRoot, hroot, hsame ▸ hopened, fun hempty hlaws => ?_⟩
    have hrfc := hrep'.logRootRaw hlaws (fun _ => hempty) hheld
    rw [hsame, hopened] at hrfc
    exact Except.ok.inj hrfc

/-- **Admission is all or nothing.** Refused, it leaves every table as it was; answered with `Ok`, it leaves
what `AdmissionFrame` says. -/
theorem admission_all_or_nothing {db : Db} (hreach : Reachable crates config db) (cp : Checkpoint)
    (raw : Option Bytes) (batch : List PendingPromotion) (rotationFor : Option Nat) :
    (∀ e, (ingestCheckpoint crates config db cp raw batch rotationFor).2 = .error e →
      (ingestCheckpoint crates config db cp raw batch rotationFor).1 = db) ∧
    ∀ admission, (ingestCheckpoint crates config db cp raw batch rotationFor).2 = .ok admission →
      AdmissionFrame crates db (ingestCheckpoint crates config db cp raw batch rotationFor).1 cp batch admission := by
  constructor
  · intro e he
    exact ingestCheckpoint_eq_error (Prod.ext rfl he)
  · intro admission hadmitted
    have hcall : ingestCheckpoint crates config db cp raw batch rotationFor =
        ((ingestCheckpoint crates config db cp raw batch rotationFor).1, .ok admission) := Prod.ext rfl hadmitted
    have hcovers := (ingestCheckpoint_rotationRows hreach.represents hreach.rotationsKeyed hcall).2
    obtain ⟨claimedRoot, judged, hjudge, hcommit⟩ := ingestCheckpoint_eq_ok hcall
    obtain ⟨rfl, mid, recorded, hcommitted⟩ := commitAdmission_cases hcommit
    obtain ⟨visible, list, active, hjudged⟩ := judgeCheckpoint_cases hjudge
    refine hcommitted.frame hreach.represents hjudged.size hjudged.root fun index hindex => ?_
    obtain ⟨hlt, hsize, hcovered⟩ := hcovers index hindex
    exact hcovered.served (hlt.trans hsize)

/-- A batch out of a log of two that repeats its new entry and names the one already canonical. -/
def Symbolic.mixedBatch : List PendingPromotion :=
  [pending [[1], [5]] 0, pending [[1], [5]] 1, pending [[1], [5]] 1, pending [[1], [5]] 0]

theorem admission_all_or_nothing_mixedBatch : AdmissionFrame (Symbolic.crates Symbolic.documents)
    (Symbolic.after [Symbolic.stage 1, Symbolic.stage 5, Symbolic.ingest
      (Symbolic.checkpoint "A" 1 (Symbolic.rootOf [[1]]) 4) [Symbolic.pending [[1]] 0]])
    (Symbolic.after [Symbolic.stage 1, Symbolic.stage 5, Symbolic.ingest
      (Symbolic.checkpoint "A" 1 (Symbolic.rootOf [[1]]) 4) [Symbolic.pending [[1]] 0], Symbolic.ingest
      (Symbolic.checkpoint "A" 2 (Symbolic.rootOf [[1], [5]]) 5) Symbolic.mixedBatch])
    (Symbolic.checkpoint "A" 2 (Symbolic.rootOf [[1], [5]]) 5) Symbolic.mixedBatch ⟨true, []⟩ :=
  (admission_all_or_nothing (Symbolic.reachable_after _) _ none Symbolic.mixedBatch none).2 _ (by decide +kernel)

end AhlMirror
