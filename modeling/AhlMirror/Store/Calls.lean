import AhlMirror.Model.Run
import AhlMirror.Store.Promotion

/-!
# What a call does

One inversion lemma for each call: a call that fails leaves the store as it was, and a call that
succeeds appends to the tables it is about (`Grows`) and rewrites no row of them. Everything said of a
whole run comes from these.
-/

namespace AhlMirror

open AhlMirror.Core (Indexed Machine)

/-- Every table of `after` extends the one of `db`; `subtree_roots` is derived and left out. -/
structure Grows (db after : Db) : Prop where
  staged : db.stagedEntries <+: after.stagedEntries
  entries : db.entries <+: after.entries
  checkpoints : db.checkpoints <+: after.checkpoints
  rotationCheckpoints : db.rotationCheckpoints <+: after.rotationCheckpoints

namespace Grows

theorem refl (db : Db) : Grows db db :=
  ⟨List.prefix_rfl, List.prefix_rfl, List.prefix_rfl, List.prefix_rfl⟩

theorem trans {a b c : Db} (h : Grows a b) (h' : Grows b c) : Grows a c :=
  ⟨h.staged.trans h'.staged, h.entries.trans h'.entries, h.checkpoints.trans h'.checkpoints,
    h.rotationCheckpoints.trans h'.rotationCheckpoints⟩

theorem canonicalEntries {a b : Db} (h : Grows a b) : canonicalEntries a <+: canonicalEntries b :=
  h.entries.map _

end Grows

theorem withTransaction_eq_ok {α : Type} {db after : Db} {f : Db → MirrorResult (α × Db)} {a : α}
    (h : withTransaction db f = (after, .ok a)) : f db = .ok (a, after) := by
  unfold withTransaction at h
  cases hf : f db with
  | ok out =>
    obtain ⟨value, after'⟩ := out
    simp only [hf, Prod.mk.injEq, Except.ok.injEq] at h
    rw [h.1, h.2]
  | error e => simp [hf] at h

theorem withTransaction_eq_error {α : Type} {db after : Db} {f : Db → MirrorResult (α × Db)} {e : MirrorError}
    (h : withTransaction db f = (after, .error e)) : after = db := by
  unfold withTransaction at h
  cases hf : f db with
  | ok out => simp [hf] at h
  | error e' =>
    simp only [hf, Prod.mk.injEq] at h
    exact h.1.symm

theorem withTransaction_cases {α : Type} (db : Db) (f : Db → MirrorResult (α × Db)) :
    (withTransaction db f).1 = db ∨ ∃ a, f db = .ok (a, (withTransaction db f).1) := by
  rcases hresult : withTransaction db f with ⟨after, result⟩
  cases result with
  | error e => exact Or.inl (withTransaction_eq_error hresult)
  | ok a => exact Or.inr ⟨a, withTransaction_eq_ok hresult⟩

variable {H K : Type} [HashOctets H] {crates : Crates H K}

theorem holdsPrefix_eq_true {db : Db} {n : Nat} : holdsPrefix (H := H) db n = .ok true ↔
    countEntriesRaw db 0 n = .ok n ∧ requireSubtreeCacheRaw (H := H) db n = .ok () := by
  unfold holdsPrefix
  constructor
  · intro h
    obtain ⟨count, hcount, h⟩ := bind_eq_ok.1 h
    split_ifs at h with hshort
    · cases h
    · obtain ⟨⟨⟩, hchecked, -⟩ := bind_eq_ok.1 h
      exact ⟨not_not.1 hshort ▸ hcount, hchecked⟩
  · rintro ⟨hcount, hchecked⟩
    rw [hcount, ok_bind, if_neg (not_not.2 rfl), hchecked]
    rfl

/-! ### Staging -/

theorem storeStageEntry_cases {db after : Db} {entryId : String} {bytes : Bytes} {outcome : InsertOutcome}
    (h : storeStageEntry db entryId bytes = .ok (outcome, after)) :
    after = db ∨ after = { db with stagedEntries := db.stagedEntries ++ [(entryId, bytes)] } := by
  unfold storeStageEntry at h
  cases hget : getStagedRaw db entryId with
  | some existing =>
    simp only [hget] at h
    split_ifs at h
    exact Or.inl (Prod.mk.inj (Except.ok.inj h)).2.symm
  | none =>
    simp only [hget] at h
    exact Or.inr (Prod.mk.inj (Except.ok.inj h)).2.symm

variable (crates) in
/-- Bytes that are the canonical serialization of the value they parse to. -/
def CanonicalBytes (bytes : Bytes) : Prop := ∃ value, crates.fromSlice bytes = .ok value ∧ crates.jcs value = bytes

variable (crates) in
/-- Bytes that are the canonical serialization of an envelope. -/
def EnvelopeBytes (bytes : Bytes) : Prop :=
  ∃ value, crates.fromSlice bytes = .ok value ∧ checkEnvelopeShape value = .ok () ∧ crates.jcs value = bytes

omit [HashOctets H] in
theorem EnvelopeBytes.canonical {bytes : Bytes} (h : EnvelopeBytes crates bytes) : CanonicalBytes crates bytes := by
  obtain ⟨value, hvalue, -, hjcs⟩ := h
  exact ⟨value, hvalue, hjcs⟩

theorem stageEntry_cases {db after : Db} {claimed : String} {bytes : Bytes} {metadata : Value}
    {outcome : InsertOutcome} (h : stageEntry crates db claimed bytes metadata = .ok (outcome, after)) :
    EnvelopeBytes crates bytes ∧
      (after = db ∨ after = { db with stagedEntries := db.stagedEntries ++ [(sha256Id crates bytes, bytes)] }) := by
  unfold stageEntry at h
  simp only [ite_error_eq_ok, bind_eq_ok, mapErr_eq_ok] at h
  obtain ⟨-, value, hvalue, ⟨⟩, hshape, hcanonical, -, hstage⟩ := h
  exact ⟨⟨value, hvalue, hshape, not_not.1 hcanonical⟩, storeStageEntry_cases hstage⟩

/-! ### Promotion -/

theorem promoteEntryIn_cases {db after : Db} (hrep : Represents crates db) {cp : Checkpoint} {entryId : String}
    {leafIndex : Nat} {path : List String} {outcome : InsertOutcome}
    (h : promoteEntryIn crates db cp entryId leafIndex path = .ok (outcome, after)) :
    (after = db ∧ leafIndex < db.entries.length ∧ ∃ row ∈ db.entries, row.entryIndex = leafIndex ∧ row.entryId = entryId) ∨
      ∃ bytes rows root, getStagedRaw db entryId = some bytes ∧ leafIndex = db.entries.length ∧
      leafIndex < i64Bound ∧ crates.parseHashHex cp.rootHash = .ok root ∧
      verifyInclusionFor crates bytes leafIndex cp.treeSize path root = .ok true ∧
      after = { db with
        entries := db.entries ++ [promotedRow crates db entryId bytes], subtreeRoots := rows } ∧
      Represents crates after := by
  unfold promoteEntryIn at h
  simp only [ite_error_eq_ok, bind_eq_ok, mapErr_eq_ok, okOr_eq_ok] at h
  obtain ⟨bytes, hstaged, root, hroot, included, hincluded, htrue, hpromote⟩ := h
  have htrue : included = true := by simpa using htrue
  subst htrue
  rcases promoteEntryRaw_cases hrep hpromote with hsame | ⟨bytes', rows, hstaged', hindex, hbound, hafter, hrep'⟩
  · exact Or.inl hsame
  · obtain rfl := Option.some.inj (hstaged.symm.trans hstaged')
    exact Or.inr ⟨bytes, rows, root, hstaged, hindex, hbound, hroot, hincluded, hafter, hrep'⟩

omit [HashOctets H] in
theorem getCheckpoint_mem {db : Db} {treeSize : Nat} {cp : Checkpoint} (h : getCheckpoint db treeSize = .ok (some cp)) :
    cp ∈ db.checkpoints ∧ cp.treeSize = treeSize ∧ treeSize < i64Bound := by
  unfold getCheckpoint at h
  simp only [bind_eq_ok, toI64_eq_ok] at h
  obtain ⟨n, ⟨hbound, rfl⟩, hhead⟩ := h
  have hmem := List.mem_of_head? (Except.ok.inj hhead)
  rw [List.mem_insertionSort, List.mem_filter] at hmem
  exact ⟨hmem.1, by simpa using hmem.2, hbound⟩

/-- Only `entries` and the tree material derived from it change. -/
structure EntriesGrow (db after : Db) : Prop where
  staged : after.stagedEntries = db.stagedEntries
  checkpoints : after.checkpoints = db.checkpoints
  rotationCheckpoints : after.rotationCheckpoints = db.rotationCheckpoints
  entries : db.entries <+: after.entries

namespace EntriesGrow

theorem refl (db : Db) : EntriesGrow db db := ⟨rfl, rfl, rfl, List.prefix_rfl⟩

theorem trans {a b c : Db} (h : EntriesGrow a b) (h' : EntriesGrow b c) : EntriesGrow a c :=
  ⟨h'.staged.trans h.staged, h'.checkpoints.trans h.checkpoints,
    h'.rotationCheckpoints.trans h.rotationCheckpoints, h.entries.trans h'.entries⟩

theorem grows {a b : Db} (h : EntriesGrow a b) : Grows a b :=
  ⟨h.staged ▸ List.prefix_rfl, h.entries, h.checkpoints ▸ List.prefix_rfl, h.rotationCheckpoints ▸ List.prefix_rfl⟩

end EntriesGrow

theorem promoteEntryIn_grow {db after : Db} (hrep : Represents crates db) {cp : Checkpoint} {entryId : String}
    {leafIndex : Nat} {path : List String} {outcome : InsertOutcome}
    (h : promoteEntryIn crates db cp entryId leafIndex path = .ok (outcome, after)) :
    Represents crates after ∧ EntriesGrow db after := by
  rcases promoteEntryIn_cases hrep h with ⟨rfl, -⟩ | ⟨bytes, rows, root, -, -, -, -, -, rfl, hrep'⟩
  · exact ⟨hrep, EntriesGrow.refl _⟩
  · exact ⟨hrep', ⟨rfl, rfl, rfl, List.prefix_append _ _⟩⟩

theorem promoteBatch_grow {cp : Checkpoint} : ∀ {batch : List PendingPromotion} {db after : Db},
    Represents crates db → promoteBatch crates cp batch db = .ok after →
      Represents crates after ∧ EntriesGrow db after
  | [], db, after, hrep, h => by
    obtain rfl := Except.ok.inj h
    exact ⟨hrep, EntriesGrow.refl _⟩
  | pending :: rest, db, after, hrep, h => by
    simp only [promoteBatch, bind_eq_ok] at h
    obtain ⟨⟨outcome, mid⟩, hpromote, hrest⟩ := h
    obtain ⟨hrep', hgrow⟩ := promoteEntryIn_grow hrep hpromote
    obtain ⟨hrep'', hgrow'⟩ := promoteBatch_grow hrep' hrest
    exact ⟨hrep'', hgrow.trans hgrow'⟩

/-! ### Recording a checkpoint -/

theorem insertCheckpointRaw_cases {db after : Db} {cp : Checkpoint} {outcome : InsertOutcome}
    (h : insertCheckpointRaw db cp = .ok (outcome, after)) :
    (after = db ∧ cp ∈ db.checkpoints) ∨
      (after = { db with checkpoints := db.checkpoints ++ [cp] } ∧
        ∀ row ∈ db.checkpoints, ¬ (row.treeSize = cp.treeSize ∧ row.checkpointTime = cp.checkpointTime)) := by
  unfold insertCheckpointRaw at h
  simp only [bind_eq_ok, toI64_eq_ok] at h
  obtain ⟨treeSize, ⟨-, rfl⟩, h⟩ := h
  cases hfind : db.checkpoints.find? fun row =>
      row.treeSize == cp.treeSize && row.checkpointTime == cp.checkpointTime with
  | some existing =>
    simp only [hfind] at h
    split_ifs at h with hsame
    subst hsame
    exact Or.inl ⟨(Prod.mk.inj (Except.ok.inj h)).2.symm, List.mem_of_find?_eq_some hfind⟩
  | none =>
    simp only [hfind] at h
    refine Or.inr ⟨(Prod.mk.inj (Except.ok.inj h)).2.symm, fun row hrow => ?_⟩
    simpa using List.find?_eq_none.1 hfind row hrow

theorem insertRotationCheckpointRaw_cases {db after : Db} {index : Nat} {cp : Checkpoint} {outcome : InsertOutcome}
    (h : insertRotationCheckpointRaw db index cp = .ok (outcome, after)) :
    (after = db ∧ ∃ held, (index, held) ∈ db.rotationCheckpoints ∧ seriesLE held cp) ∨
      (after = { db with rotationCheckpoints := db.rotationCheckpoints ++ [(index, cp)] } ∧
        ∀ held, (index, held) ∈ db.rotationCheckpoints → ¬ seriesLE held cp) := by
  unfold insertRotationCheckpointRaw at h
  simp only [bind_eq_ok, toI64_eq_ok] at h
  obtain ⟨i, ⟨-, rfl⟩, treeSize, ⟨-, rfl⟩, h⟩ := h
  cases hfind : db.rotationCheckpoints.find? fun row =>
      row.1 == i && row.2.treeSize == cp.treeSize && row.2.checkpointTime == cp.checkpointTime with
  | some existing =>
    simp only [hfind] at h
    split_ifs at h with hsame
    have hmem := List.mem_of_find?_eq_some hfind
    have hkey := List.find?_some hfind
    simp only [Bool.and_eq_true, beq_iff_eq] at hkey
    obtain ⟨held, row⟩ := existing
    obtain ⟨⟨rfl, -⟩, -⟩ := hkey
    subst hsame
    exact Or.inl ⟨(Prod.mk.inj (Except.ok.inj h)).2.symm, row, hmem, seriesLE.refl row⟩
  | none =>
    simp only [hfind] at h
    cases hheld : (rotationRows db i).head? with
    | none =>
      simp only [hheld] at h
      refine Or.inr ⟨(Prod.mk.inj (Except.ok.inj h)).2.symm, fun held hmem => ?_⟩
      rw [List.head?_eq_none_iff] at hheld
      simpa [hheld] using mem_rotationRows.2 hmem
    | some held =>
      simp only [hheld] at h
      split_ifs at h with hle
      · exact Or.inl ⟨(Prod.mk.inj (Except.ok.inj h)).2.symm, held,
          mem_rotationRows.1 (List.mem_of_head? hheld), hle⟩
      · exact Or.inr ⟨(Prod.mk.inj (Except.ok.inj h)).2.symm, fun other hother hother' =>
          hle ((head?_rotationRows_le hheld hother).trans hother')⟩

/-- Only the rotation table changes, by rows of this checkpoint for the anchored rotations that hold none
to serve before it; each of those is then held. -/
theorem insertRotationCheckpoints_cases {cp : Checkpoint} : ∀ {anchors : List Nat} {db after : Db},
    insertRotationCheckpoints cp anchors db = .ok after → ∃ kept : List Nat,
      (∀ index ∈ kept, index ∈ anchors ∧ ∀ held, (index, held) ∈ db.rotationCheckpoints → ¬ seriesLE held cp) ∧
      (∀ index ∈ anchors, (∀ held, (index, held) ∈ db.rotationCheckpoints → ¬ seriesLE held cp) → index ∈ kept) ∧
      after = { db with rotationCheckpoints := db.rotationCheckpoints ++ kept.map fun index => (index, cp) }
  | [], db, after, h => ⟨[], by simp, by simp, by simpa using (Except.ok.inj h).symm⟩
  | index :: rest, db, after, h => by
    simp only [insertRotationCheckpoints, bind_eq_ok] at h
    obtain ⟨⟨outcome, mid⟩, hinsert, hrest⟩ := h
    obtain ⟨kept, hkept, hall, rfl⟩ := insertRotationCheckpoints_cases hrest
    rcases insertRotationCheckpointRaw_cases hinsert with ⟨rfl, held, hheld, hle⟩ | ⟨rfl, hfree⟩
    · refine ⟨kept, fun i hi => ⟨List.mem_cons_of_mem _ (hkept i hi).1, (hkept i hi).2⟩, fun i hi hfree => ?_, rfl⟩
      rcases List.mem_cons.1 hi with rfl | hi
      · exact absurd hle (hfree held hheld)
      · exact hall i hi hfree
    · refine ⟨index :: kept, fun i hi => ?_, fun i hi hfree' => ?_, by simp⟩
      · rcases List.mem_cons.1 hi with rfl | hi
        · exact ⟨List.mem_cons_self, hfree⟩
        · exact ⟨List.mem_cons_of_mem _ (hkept i hi).1,
            fun held hheld => (hkept i hi).2 held (List.mem_append_left _ hheld)⟩
      · rcases List.mem_cons.1 hi with rfl | hi
        · exact List.mem_cons_self
        · by_cases hsame : i = index
          · exact hsame ▸ List.mem_cons_self
          · refine List.mem_cons_of_mem _ (hall i hi fun held hheld => ?_)
            rcases List.mem_append.1 hheld with hold | hnew
            · exact hfree' held hold
            · exact absurd (congrArg Prod.fst (List.mem_singleton.1 hnew)) hsame

/-! ### Admission -/

variable [DecidableEq H] {config : Config K}

omit [DecidableEq H] in
theorem recordSeriesMember_cases {cp : Checkpoint} {seriesMember : Bool} {db after : Db}
    (h : recordSeriesMember cp seriesMember db = .ok after) :
    (after = db ∧ (seriesMember = true → cp ∈ db.checkpoints)) ∨
      (seriesMember = true ∧ after = { db with checkpoints := db.checkpoints ++ [cp] } ∧
        ∀ row ∈ db.checkpoints, ¬ (row.treeSize = cp.treeSize ∧ row.checkpointTime = cp.checkpointTime)) := by
  unfold recordSeriesMember at h
  split_ifs at h with hmember
  · exact Or.inl ⟨(Except.ok.inj h).symm, fun htrue => absurd htrue (by simp [hmember])⟩
  · rw [bind_eq_ok] at h
    obtain ⟨⟨outcome, after'⟩, hinsert, hdone⟩ := h
    obtain rfl := Except.ok.inj hdone
    rcases insertCheckpointRaw_cases hinsert with ⟨rfl, hmem⟩ | ⟨rfl, hnew⟩
    · exact Or.inl ⟨rfl, fun _ => hmem⟩
    · exact Or.inr ⟨by simpa using hmember, rfl, hnew⟩

/-- What a judged checkpoint was found to be, under the versions of the prefix visible at its admission. -/
structure Judged (crates : Crates H K) (config : Config K) (db : Db) (cp : Checkpoint) (raw : Option Bytes)
    (batch : List PendingPromotion) (rotationFor : Option Nat) (claimedRoot : H) (admission : Admission)
    (visible : List Bytes) (list : List (GovernanceState K)) (active : GovernanceState K) : Prop where
  size : cp.treeSize < i64Bound
  root : crates.parseHashHex cp.rootHash = .ok claimedRoot
  visiblePrefix : buildVisiblePrefix crates db batch cp.treeSize claimedRoot = .ok visible
  versions : versions crates config visible = .ok list
  activeVersion : list.getLast? = some active
  member : admission.seriesMember = true ↔ verifiesUnder crates config active cp raw = .ok ()
  anchors : rotationAnchorsFor crates config list cp raw rotationFor = .ok admission.rotationAnchors
  answered : admission.seriesMember = true ∨ admission.rotationAnchors ≠ []

omit [DecidableEq H] in
theorem judgeCheckpoint_cases {db : Db} {cp : Checkpoint} {raw : Option Bytes} {batch : List PendingPromotion}
    {rotationFor : Option Nat} {claimedRoot : H} {admission : Admission}
    (h : judgeCheckpoint crates config db cp raw batch rotationFor = .ok (claimedRoot, admission)) :
    ∃ visible list active, Judged crates config db cp raw batch rotationFor claimedRoot admission visible list active := by
  unfold judgeCheckpoint at h
  simp only [ite_error_eq_ok, bind_eq_ok, mapErr_eq_ok] at h
  obtain ⟨hmax, root, hroot, visible, hvisible, verdict, hverdict, h⟩ := h
  obtain ⟨rfl, rfl⟩ := Prod.mk.inj (Except.ok.inj h)
  have hsize : cp.treeSize < i64Bound := by
    have hbound : MAX_TREE_SIZE = i64Bound - 1 := rfl
    have hpos : 0 < i64Bound := by decide
    omega
  unfold judgePrefix at hverdict
  simp only [bind_eq_ok, okOr_eq_ok] at hverdict
  obtain ⟨list, hlist, active, hactive, anchors, hanchors, hverdict⟩ := hverdict
  split_ifs at hverdict with hneither
  · -- a checkpoint that answers neither question is refused
    obtain ⟨_, hunder, -⟩ := bind_eq_ok.1 hverdict
    rw [isOk_eq_true.2 hunder] at hneither
    cases hneither.1
  · obtain rfl := Except.ok.inj hverdict
    refine ⟨visible, list, active, hsize, hroot, hvisible, hlist, hactive, isOk_eq_true, hanchors, ?_⟩
    by_cases hanswer : (verifiesUnder crates config active cp raw).isOk = true
    · exact Or.inl hanswer
    · exact Or.inr fun hnil => hneither ⟨by simpa using hanswer, hnil⟩

/-- The parts of an admission's transaction, each with what it did. -/
structure Committed (crates : Crates H K) (cp : Checkpoint) (batch : List PendingPromotion) (claimedRoot : H)
    (admission : Admission) (db mid recorded after : Db) : Prop where
  batch : promoteBatch crates cp batch db = .ok mid
  agrees : contradictsStored crates mid cp.treeSize claimedRoot = .ok false
  member : recordSeriesMember cp admission.seriesMember mid = .ok recorded
  rotations : insertRotationCheckpoints cp admission.rotationAnchors recorded = .ok after

theorem commitAdmission_cases {cp : Checkpoint} {batch : List PendingPromotion} {claimedRoot : H}
    {admission admitted : Admission} {db after : Db}
    (h : commitAdmission crates cp batch claimedRoot admission db = .ok (admitted, after)) :
    admitted = admission ∧ ∃ mid recorded, Committed crates cp batch claimedRoot admission db mid recorded after := by
  unfold commitAdmission at h
  simp only [bind_eq_ok, ite_error_eq_ok] at h
  obtain ⟨mid, hbatch, contradicts, hcontradicts, hagrees, recorded, hrecorded, after', hrotations, hdone⟩ := h
  obtain ⟨rfl, rfl⟩ := Prod.mk.inj (Except.ok.inj hdone)
  have hfalse : contradicts = false := by simpa using hagrees
  exact ⟨rfl, mid, recorded, hbatch, hfalse ▸ hcontradicts, hrecorded, hrotations⟩

theorem Committed.entries {cp : Checkpoint} {batch : List PendingPromotion} {claimedRoot : H}
    {admission : Admission} {db mid recorded after : Db}
    (h : Committed crates cp batch claimedRoot admission db mid recorded after) :
    after.entries = mid.entries ∧ after.stagedEntries = mid.stagedEntries := by
  obtain ⟨kept, -, -, rfl⟩ := insertRotationCheckpoints_cases h.rotations
  rcases recordSeriesMember_cases h.member with ⟨rfl, -⟩ | ⟨-, rfl, -⟩ <;> exact ⟨rfl, rfl⟩

theorem Committed.canonicalEntries {cp : Checkpoint} {batch : List PendingPromotion} {claimedRoot : H}
    {admission : Admission} {db mid recorded after : Db}
    (h : Committed crates cp batch claimedRoot admission db mid recorded after) :
    canonicalEntries after = canonicalEntries mid := congrArg (List.map EntryRow.envelope) h.entries.1

theorem Committed.checkpoints {cp : Checkpoint} {batch : List PendingPromotion} {claimedRoot : H}
    {admission : Admission} {db mid recorded after : Db} (hrep : Represents crates db)
    (h : Committed crates cp batch claimedRoot admission db mid recorded after) {row : Checkpoint}
    (hrow : row ∈ after.checkpoints) : row ∈ db.checkpoints ∨ row = cp ∧ admission.seriesMember = true := by
  have hmid := (promoteBatch_grow hrep h.batch).2.checkpoints
  obtain ⟨kept, -, -, rfl⟩ := insertRotationCheckpoints_cases h.rotations
  rcases recordSeriesMember_cases h.member with ⟨rfl, -⟩ | ⟨hmember, rfl, -⟩
  · exact Or.inl (hmid ▸ hrow)
  · rcases List.mem_append.1 hrow with hold | hnew
    · exact Or.inl (hmid ▸ hold)
    · exact Or.inr ⟨List.mem_singleton.1 hnew, hmember⟩

theorem Committed.represents {cp : Checkpoint} {batch : List PendingPromotion} {claimedRoot : H}
    {admission : Admission} {db mid recorded after : Db} (hrep : Represents crates db)
    (h : Committed crates cp batch claimedRoot admission db mid recorded after) :
    Represents crates after ∧ Grows db after := by
  obtain ⟨hrep', hgrow⟩ := promoteBatch_grow hrep h.batch
  obtain ⟨kept, -, -, rfl⟩ := insertRotationCheckpoints_cases h.rotations
  rcases recordSeriesMember_cases h.member with ⟨rfl, -⟩ | ⟨-, rfl, -⟩
  · refine ⟨hrep'.congr rfl rfl, ?_⟩
    exact hgrow.grows.trans ⟨List.prefix_rfl, List.prefix_rfl, List.prefix_rfl, List.prefix_append _ _⟩
  · refine ⟨hrep'.congr rfl rfl, ?_⟩
    exact hgrow.grows.trans
      ⟨List.prefix_rfl, List.prefix_rfl, List.prefix_append _ _, List.prefix_append _ _⟩

theorem ingestCheckpoint_eq_ok {db after : Db} {cp : Checkpoint} {raw : Option Bytes} {batch : List PendingPromotion}
    {rotationFor : Option Nat} {admission : Admission}
    (h : ingestCheckpoint crates config db cp raw batch rotationFor = (after, .ok admission)) :
    ∃ claimedRoot judged, judgeCheckpoint crates config db cp raw batch rotationFor = .ok (claimedRoot, judged) ∧
      commitAdmission crates cp batch claimedRoot judged db = .ok (admission, after) := by
  unfold ingestCheckpoint at h
  cases hjudge : judgeCheckpoint crates config db cp raw batch rotationFor with
  | error e => simp [hjudge] at h
  | ok out =>
    obtain ⟨claimedRoot, judged⟩ := out
    simp only [hjudge] at h
    exact ⟨claimedRoot, judged, rfl, withTransaction_eq_ok h⟩

theorem ingestCheckpoint_eq_error {db after : Db} {cp : Checkpoint} {raw : Option Bytes}
    {batch : List PendingPromotion} {rotationFor : Option Nat} {e : MirrorError}
    (h : ingestCheckpoint crates config db cp raw batch rotationFor = (after, .error e)) : after = db := by
  unfold ingestCheckpoint at h
  cases hjudge : judgeCheckpoint crates config db cp raw batch rotationFor with
  | error e' => simpa [hjudge, eq_comm] using (Prod.mk.inj (by simpa [hjudge] using h)).1
  | ok out =>
    obtain ⟨claimedRoot, judged⟩ := out
    simp only [hjudge] at h
    exact withTransaction_eq_error h

/-- The call was answered with `Ok`. -/
def Answer.isOk : Answer → Bool
  | .stored outcome => outcome.isOk
  | .admitted outcome => outcome.isOk

/-- What a call that is answered with `Ok` did. -/
inductive Served (crates : Crates H K) (config : Config K) (db : Db) : Call → Db → Prop
  | staged {claimed : String} {bytes : Bytes} {metadata : Value} {outcome : InsertOutcome} {after : Db} :
      stageEntry crates db claimed bytes metadata = .ok (outcome, after) →
      Served crates config db (.stage claimed bytes metadata) after
  | admitted {cp : Checkpoint} {raw : Option Bytes} {batch : List PendingPromotion} {rotationFor : Option Nat}
      {claimedRoot : H} {admission : Admission} {after : Db} :
      judgeCheckpoint crates config db cp raw batch rotationFor = .ok (claimedRoot, admission) →
      commitAdmission crates cp batch claimedRoot admission db = .ok (admission, after) →
      Served crates config db (.ingest cp raw batch rotationFor) after
  | promoted {req : PromoteRequest} {cp : Checkpoint} {outcome : InsertOutcome} {after : Db} :
      getCheckpoint db req.treeSize = .ok (some cp) →
      promoteEntryIn crates db cp req.entryId req.leafIndex req.inclusionPath = .ok (outcome, after) →
      Served crates config db (.promote req) after

variable (crates config) in
theorem serve_cases (db : Db) (call : Call) :
    ((serve crates config db call).2.isOk = false ∧ (serve crates config db call).1 = db) ∨
      ((serve crates config db call).2.isOk = true ∧ Served crates config db call (serve crates config db call).1) := by
  cases call with
  | stage claimed bytes metadata =>
    unfold serve
    dsimp only
    rcases hresult : withTransaction db (stageEntry crates · claimed bytes metadata) with ⟨after, outcome⟩
    cases outcome with
    | error e => exact Or.inl ⟨rfl, withTransaction_eq_error hresult⟩
    | ok outcome => exact Or.inr ⟨rfl, .staged (withTransaction_eq_ok hresult)⟩
  | ingest cp raw batch rotationFor =>
    unfold serve
    dsimp only
    rcases hresult : ingestCheckpoint crates config db cp raw batch rotationFor with ⟨after, outcome⟩
    cases outcome with
    | error e => exact Or.inl ⟨rfl, ingestCheckpoint_eq_error hresult⟩
    | ok admission =>
      obtain ⟨claimedRoot, judged, hjudge, hcommit⟩ := ingestCheckpoint_eq_ok hresult
      obtain rfl := (commitAdmission_cases hcommit).1
      exact Or.inr ⟨rfl, .admitted hjudge hcommit⟩
  | promote req =>
    unfold serve promoteHandler
    dsimp only
    cases hget : getCheckpoint db req.treeSize with
    | error e => exact Or.inl ⟨rfl, rfl⟩
    | ok found =>
      cases found with
      | none => exact Or.inl ⟨rfl, rfl⟩
      | some cp =>
        unfold promoteEntry
        dsimp only
        rcases hresult : withTransaction db
            (fun db => promoteEntryIn crates db cp req.entryId req.leafIndex req.inclusionPath) with ⟨after, outcome⟩
        cases outcome with
        | error e => exact Or.inl ⟨rfl, withTransaction_eq_error hresult⟩
        | ok outcome => exact Or.inr ⟨rfl, .promoted hget (withTransaction_eq_ok hresult)⟩

/-- What one call does to the store. -/
inductive CallEffect (crates : Crates H K) (config : Config K) (db : Db) : Call → Db → Prop
  | unchanged (call : Call) : CallEffect crates config db call db
  | staged {claimed : String} {bytes : Bytes} {metadata : Value} : CanonicalBytes crates bytes →
      CallEffect crates config db (.stage claimed bytes metadata)
        { db with stagedEntries := db.stagedEntries ++ [(sha256Id crates bytes, bytes)] }
  | admitted {cp : Checkpoint} {raw : Option Bytes} {batch : List PendingPromotion} {rotationFor : Option Nat}
      {claimedRoot : H} {admission : Admission} {after : Db} :
      judgeCheckpoint crates config db cp raw batch rotationFor = .ok (claimedRoot, admission) →
      commitAdmission crates cp batch claimedRoot admission db = .ok (admission, after) →
      CallEffect crates config db (.ingest cp raw batch rotationFor) after
  | promoted {req : PromoteRequest} {cp : Checkpoint} {outcome : InsertOutcome} {after : Db} :
      getCheckpoint db req.treeSize = .ok (some cp) →
      promoteEntryIn crates db cp req.entryId req.leafIndex req.inclusionPath = .ok (outcome, after) →
      CallEffect crates config db (.promote req) after

theorem serve_effect {db : Db} (call : Call) : CallEffect crates config db call (serve crates config db call).1 := by
  rcases serve_cases crates config db call with ⟨-, hsame⟩ | ⟨-, hserved⟩
  · rw [hsame]
    exact .unchanged _
  · cases hserved with
    | staged hstage =>
      obtain ⟨henvelope, hafter | hafter⟩ := stageEntry_cases hstage
      · rw [hafter]
        exact .unchanged _
      · rw [hafter]
        exact .staged henvelope.canonical
    | admitted hjudge hcommit => exact .admitted hjudge hcommit
    | promoted hget hpromote => exact .promoted hget hpromote

theorem CallEffect.represents {db after : Db} {call : Call} (hrep : Represents crates db)
    (h : CallEffect crates config db call after) : Represents crates after ∧ Grows db after := by
  cases h with
  | unchanged => exact ⟨hrep, Grows.refl _⟩
  | staged _ =>
    exact ⟨hrep.congr rfl rfl, List.prefix_append _ _, List.prefix_rfl, List.prefix_rfl, List.prefix_rfl⟩
  | admitted _ hcommit =>
    obtain ⟨-, mid, recorded, hcommitted⟩ := commitAdmission_cases hcommit
    exact hcommitted.represents hrep
  | promoted _ hpromote =>
    obtain ⟨hrep', hgrow⟩ := promoteEntryIn_grow hrep hpromote
    exact ⟨hrep', hgrow.grows⟩

/-! ### Runs -/

omit [DecidableEq H] in
theorem Represents.empty : Represents crates Db.empty where
  contiguous := Indexed.nil
  representable := Nat.zero_le _
  distinct := List.nodup_nil
  leafHash := by simp [Db.empty]
  cache :=
    { complete := by simp [Db.empty]
      keys := List.nodup_nil
      covers := fun level index hnode => by
        have := hnode.2
        have hpos := Nat.two_pow_pos level
        simp only [Db.empty, List.length_nil, Nat.le_zero, Nat.mul_eq_zero] at this
        omega }

theorem mirror_represents {db : Db} (call : Call) (h : Represents crates db) :
    Represents crates ((mirror crates config).next db call) :=
  ((serve_effect call).represents h).1

theorem Reachable.represents {db : Db} (h : Reachable crates config db) : Represents crates db :=
  Machine.Reachable.invariant _ h Represents.empty fun _ call hs => mirror_represents call hs

theorem mirror_keeps {I : Db → Prop}
    (hstep : ∀ db after call, Represents crates db → I db → CallEffect crates config db call after → I after) {db : Db}
    (hrep : Represents crates db) (hdb : I db) (calls : List Call) : I ((mirror crates config).exec db calls) :=
  ((mirror crates config).exec_invariant (I := fun db => Represents crates db ∧ I db) (fun _ call hs =>
    ⟨mirror_represents call hs.1, hstep _ _ call hs.1 hs.2 (serve_effect call)⟩) ⟨hrep, hdb⟩ calls).2

theorem Reachable.keeps {I : Db → Prop} (hempty : I Db.empty)
    (hstep : ∀ db after call, Represents crates db → I db → CallEffect crates config db call after → I after) {db : Db}
    (h : Reachable crates config db) : I db := by
  obtain ⟨calls, rfl⟩ := h
  exact mirror_keeps hstep Represents.empty hempty calls

theorem mirror_grows {db : Db} (h : Represents crates db) (calls : List Call) :
    Grows db ((mirror crates config).exec db calls) :=
  (mirror crates config).exec_relates (I := Represents crates) (E := Grows) (fun _ call hs => mirror_represents call hs)
    Grows.refl (fun _ _ _ => Grows.trans) (fun _ call hs => ((serve_effect call).represents hs).2) calls h

section storeAfter
variable (crates config)

theorem storeAfter_represents (calls : List Call) : Represents crates (storeAfter crates config calls) :=
  Reachable.represents ⟨calls, rfl⟩

theorem storeAfter_grows (calls later : List Call) :
    Grows (storeAfter crates config calls) (storeAfter crates config (calls ++ later)) := by
  unfold storeAfter
  rw [Machine.exec_append]
  exact mirror_grows (storeAfter_represents crates config calls) later

theorem storeAfter_append (before : List Call) (call : Call) :
    storeAfter crates config (before ++ [call]) = (serve crates config (storeAfter crates config before) call).1 :=
  Machine.exec_append _ _ _ _

theorem storeAfter_ingest (before : List Call) (cp : Checkpoint) (raw : Option Bytes) (batch : List PendingPromotion)
    (rotationFor : Option Nat) : storeAfter crates config (before ++ [.ingest cp raw batch rotationFor]) =
      (ingestCheckpoint crates config (storeAfter crates config before) cp raw batch rotationFor).1 :=
  storeAfter_append crates config before _

end storeAfter

end AhlMirror
