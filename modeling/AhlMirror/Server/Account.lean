import AhlMirror.Series.Frame
import AhlMirror.Series.Provenance
import AhlMirror.Server.Steps

/-!
# What a row is owed, across interleavings

An admission is judged on the prefix it sees; by the time it commits, other requests may have promoted entries
of their own. A commit that goes through makes all it saw canonical
(`visiblePrefix_committed`), so every row the server ever holds is accounted for by the canonical entries
themselves: a checkpoint by the governance a prefix of them resolves to, an entry by a path under such a
checkpoint.
-/

namespace AhlMirror

variable {H K : Type} [HashOctets H] {crates : Crates H K} {config : Config K}

/-! ### The prefix an admission saw -/

theorem Overlay.get_of_remove {overlay : Overlay} {i j : Nat} (hne : j ≠ i) {bytes : Bytes}
    (h : (overlay.remove i).get j = some bytes) : overlay.get j = some bytes := by
  unfold Overlay.get Overlay.remove at h
  unfold Overlay.get
  rw [List.find?_filter] at h
  have hsame : (fun slot : Nat × Bytes => decide ((slot.1 != i) = true ∧ (slot.1 == j) = true)) =
      fun slot => slot.1 == j := by
    funext slot
    by_cases hj : slot.1 = j
    · simp [hj, hne]
    · simp [hj]
  rwa [hsame] at h

theorem extendPrefix_slotted (target : Nat) : ∀ (fuel next : Nat) (overlay : Overlay) (entries : List Bytes),
    ∃ more, extendPrefix target fuel next overlay entries = entries ++ more ∧
      ∀ j bytes, more[j]? = some bytes → overlay.get (next + j) = some bytes
  | 0, next, overlay, entries => ⟨[], by simp [extendPrefix], by simp⟩
  | fuel + 1, next, overlay, entries => by
    rw [extendPrefix]
    split_ifs with hnext
    · cases hslot : overlay.get next with
      | none => exact ⟨[], by simp, by simp⟩
      | some bytes =>
        obtain ⟨more, hmore, hslots⟩ := extendPrefix_slotted target fuel (next + 1) (overlay.remove next) (entries ++ [bytes])
        refine ⟨bytes :: more, by simpa using hmore, fun j value hvalue => ?_⟩
        cases j with
        | zero =>
          rw [List.getElem?_cons_zero] at hvalue
          rw [Nat.add_zero, hslot, hvalue]
        | succ j =>
          rw [List.getElem?_cons_succ] at hvalue
          have hlater := hslots j value hvalue
          rw [Nat.add_assoc, Nat.add_comm 1 j] at hlater
          exact Overlay.get_of_remove (by omega) hlater
    · exact ⟨[], by simp, by simp⟩

omit [HashOctets H] in
theorem overlayPending_slots {db : Db} {canonicalLen target : Nat} {root : H} : ∀ {batch : List PendingPromotion}
    {before after : Overlay}, batch.foldlM (overlayPending crates db canonicalLen target root) before = .ok after →
      ∀ slot ∈ after, slot ∈ before ∨ ∃ p ∈ batch, p.leafIndex = slot.1 ∧ getStagedRaw db p.entryId = some slot.2
  | [], before, after, h, slot, hslot => Or.inl (Except.ok.inj h ▸ hslot)
  | p :: rest, before, after, h, slot, hslot => by
    rw [List.foldlM_cons, bind_eq_ok] at h
    obtain ⟨mid, hturn, hrest⟩ := h
    rcases overlayPending_slots hrest slot hslot with hmid | ⟨q, hq, hstaged⟩
    · unfold overlayPending at hturn
      split_ifs at hturn
      · exact Or.inl (Except.ok.inj hturn ▸ hmid)
      · exact Or.inl (Except.ok.inj hturn ▸ hmid)
      · exact Or.inl (Except.ok.inj hturn ▸ hmid)
      · simp only [bind_eq_ok, okOr_eq_ok, ite_error_eq_ok] at hturn
        obtain ⟨bytes, hbytes, included, -, -, hdone⟩ := hturn
        rw [← Except.ok.inj hdone] at hmid
        rcases List.mem_append.1 hmid with hold | hnew
        · exact Or.inl hold
        · obtain rfl := List.mem_singleton.1 hnew
          exact Or.inr ⟨p, List.mem_cons_self, rfl, hbytes⟩
    · exact Or.inr ⟨q, List.mem_cons_of_mem _ hq, hstaged⟩

theorem promoteBatch_canonical {cp : Checkpoint} {batch : List PendingPromotion} {db after : Db}
    (hrep : Represents crates db) (h : promoteBatch crates cp batch db = .ok after) {p : PendingPromotion} (hp : p ∈ batch) :
    ∃ bytes, getStagedRaw db p.entryId = some bytes ∧ (canonicalEntries after)[p.leafIndex]? = some bytes := by
  obtain ⟨row, hrow, hindex, -, hstaged⟩ := promoteBatch_holds hrep h p hp
  refine ⟨row.envelope, hstaged, ?_⟩
  obtain ⟨position, hposition, hat⟩ := List.mem_iff_getElem.1 hrow
  have hcontiguous := (promoteBatch_grow hrep h).1.contiguous.getElem hposition
  rw [hat, hindex] at hcontiguous
  rw [hcontiguous, canonicalEntries, List.getElem?_map, List.getElem?_eq_getElem hposition, hat]
  rfl

/-- **What an admission saw is canonical once it has committed**, whatever was committed in between. -/
theorem visiblePrefix_committed {judged db after : Db} {cp : Checkpoint} {batch : List PendingPromotion} {root : H}
    {visible : List Bytes} (hjudged : Represents crates judged) (hrep : Represents crates db) (hgrow : Grows judged db)
    (hsize : cp.treeSize < i64Bound) (hvisible : buildVisiblePrefix crates judged batch cp.treeSize root = .ok visible)
    (hpromote : promoteBatch crates cp batch db = .ok after) : visible <+: canonicalEntries after := by
  unfold buildVisiblePrefix at hvisible
  rw [hjudged.toCanonical.entriesPrefix hsize, ok_bind] at hvisible
  obtain ⟨overlay, hoverlay, hvisible⟩ := bind_eq_ok.1 hvisible
  obtain ⟨more, hmore, hslots⟩ := extendPrefix_slotted cp.treeSize overlay.length
    ((canonicalEntries judged).take cp.treeSize).length overlay ((canonicalEntries judged).take cp.treeSize)
  rw [hmore] at hvisible
  have hcanonical : (canonicalEntries judged).take cp.treeSize <+: canonicalEntries after :=
    (List.take_prefix _ _).trans (hgrow.canonicalEntries.trans (promoteBatch_grow hrep hpromote).2.grows.canonicalEntries)
  rw [← Except.ok.inj hvisible]
  refine List.prefix_iff_getElem?.2 fun i hi => ?_
  rw [← List.getElem?_eq_getElem hi]
  rcases Nat.lt_or_ge i ((canonicalEntries judged).take cp.treeSize).length with hlt | hge
  · rw [List.getElem?_append_left hlt, List.getElem?_eq_getElem hlt]
    exact List.prefix_iff_getElem?.1 hcanonical i hlt
  · rw [List.getElem?_append_right hge]
    -- a slot: the batch has promoted the same staged bytes to the same index
    have hin : i - ((canonicalEntries judged).take cp.treeSize).length < more.length := by
      rw [List.length_append] at hi
      omega
    rw [List.getElem?_eq_getElem hin]
    have hslot := hslots _ _ (List.getElem?_eq_getElem hin)
    rw [Nat.add_sub_cancel' hge] at hslot
    unfold Overlay.get at hslot
    obtain ⟨slot, hfind, hbytes⟩ := Option.map_eq_some_iff.1 hslot
    have hindex : slot.1 = i := by simpa using List.find?_some hfind
    rcases overlayPending_slots hoverlay slot (List.mem_of_find?_eq_some hfind) with hnone | ⟨p, hp, hleaf, hstaged⟩
    · simp at hnone
    · obtain ⟨bytes, hstaged', hat⟩ := promoteBatch_canonical hrep hpromote hp
      obtain rfl := Option.some.inj (hstaged'.symm.trans (hgrow.getStagedRaw hstaged))
      rw [← hbytes, ← hat, hleaf, hindex]

/-! ### The account -/

section account
variable (crates config) (db : Db)

/-- A prefix of the canonical entries resolves to these manifest versions. -/
def Resolved (list : List (GovernanceState K)) : Prop :=
  ∃ seen, seen <+: canonicalEntries db ∧ versions crates config seen = .ok list

/-- The checkpoint verifies under one of the versions the canonical entries resolve to. -/
def Vouched (cp : Checkpoint) : Prop :=
  ∃ raw list state, Resolved crates config db list ∧ state ∈ list ∧ verifiesUnder crates config state cp raw = .ok ()

/-- And under the last of them. -/
def VouchedMember (cp : Checkpoint) : Prop :=
  ∃ raw list active, Resolved crates config db list ∧ list.getLast? = some active ∧
    verifiesUnder crates config active cp raw = .ok ()

/-- The checkpoint anchors the rotation those versions have at the index. -/
def VouchedAnchor (row : Nat × Checkpoint) : Prop :=
  ∃ raw list, Resolved crates config db list ∧ Anchors crates config list row.2 raw row.1

/-- Bytes are filed under their hash and are those of an envelope. -/
def Filed (entryId : String) (bytes : Bytes) : Prop := sha256Id crates bytes = entryId ∧ EnvelopeBytes crates bytes

/-- Every row of a store is accounted for by its canonical entries. -/
structure Accounted : Prop where
  staged : ∀ row ∈ db.stagedEntries, Filed crates row.1 row.2
  entries : ∀ row ∈ db.entries, Filed crates row.entryId row.envelope ∧
    ∃ cp p, PlacedUnder crates cp p row ∧ Vouched crates config db cp
  checkpoints : ∀ cp ∈ db.checkpoints, VouchedMember crates config db cp
  rotations : ∀ row ∈ db.rotationCheckpoints, VouchedAnchor crates config db row

end account

section grow
variable {db after : Db} (h : canonicalEntries db <+: canonicalEntries after)
include h

theorem Resolved.grow {list : List (GovernanceState K)} (hlist : Resolved crates config db list) :
    Resolved crates config after list := by
  obtain ⟨seen, hseen, hversions⟩ := hlist
  exact ⟨seen, hseen.trans h, hversions⟩

theorem Vouched.grow {cp : Checkpoint} (hcp : Vouched crates config db cp) : Vouched crates config after cp := by
  obtain ⟨raw, list, state, hlist, hstate⟩ := hcp
  exact ⟨raw, list, state, hlist.grow h, hstate⟩

theorem VouchedMember.grow {cp : Checkpoint} (hcp : VouchedMember crates config db cp) :
    VouchedMember crates config after cp := by
  obtain ⟨raw, list, active, hlist, hactive⟩ := hcp
  exact ⟨raw, list, active, hlist.grow h, hactive⟩

theorem VouchedAnchor.grow {row : Nat × Checkpoint} (hrow : VouchedAnchor crates config db row) :
    VouchedAnchor crates config after row := by
  obtain ⟨raw, list, hlist, hanchors⟩ := hrow
  exact ⟨raw, list, hlist.grow h, hanchors⟩

end grow

theorem VouchedMember.vouched {db : Db} {cp : Checkpoint} (h : VouchedMember crates config db cp) :
    Vouched crates config db cp := by
  obtain ⟨raw, list, active, hlist, hactive, hverifies⟩ := h
  exact ⟨raw, list, active, hlist, List.mem_of_getLast? hactive, hverifies⟩

theorem stageEntry_filed {db after : Db} {claimed : String} {bytes : Bytes} {metadata : Value} {outcome : InsertOutcome}
    (h : stageEntry crates db claimed bytes metadata = .ok (outcome, after)) {row : String × Bytes}
    (hrow : row ∈ after.stagedEntries) : row ∈ db.stagedEntries ∨ Filed crates row.1 row.2 := by
  obtain ⟨henvelope, rfl | rfl⟩ := stageEntry_cases h
  · exact Or.inl hrow
  · rcases List.mem_append.1 hrow with hold | hnew
    · exact Or.inl hold
    · obtain rfl := List.mem_singleton.1 hnew
      exact Or.inr ⟨rfl, henvelope⟩

theorem Accounted.places {db mid after : Db} {cp : Checkpoint} {batch : List PendingPromotion}
    (h : Accounted crates config db) (hplaces : Places crates cp batch db mid) (hentries : after.entries = mid.entries)
    (hgrow : Grows db after) (hstaged : after.stagedEntries = db.stagedEntries) (hcp : Vouched crates config after cp)
    (hcheckpoints : ∀ row ∈ after.checkpoints, row ∈ db.checkpoints ∨ VouchedMember crates config after row)
    (hrotations : ∀ row ∈ after.rotationCheckpoints, row ∈ db.rotationCheckpoints ∨ VouchedAnchor crates config after row) :
    Accounted crates config after where
  staged row hrow := h.staged row (hstaged ▸ hrow)
  entries row hrow := by
    rcases hplaces.rows row (hentries ▸ hrow) with hold | ⟨p, -, hbytes, hunder⟩
    · obtain ⟨hfiled, cp', p, hunder, hvouched⟩ := h.entries row hold
      exact ⟨hfiled, cp', p, hunder, hvouched.grow hgrow.canonicalEntries⟩
    · have hfiled := h.staged _ (getStagedRaw_mem hbytes)
      exact ⟨hunder.entryId ▸ hfiled, cp, p, hunder, hcp⟩
  checkpoints row hrow := (hcheckpoints row hrow).elim
    (fun hold => (h.checkpoints row hold).grow hgrow.canonicalEntries) id
  rotations row hrow := (hrotations row hrow).elim (fun hold => (h.rotations row hold).grow hgrow.canonicalEntries) id

variable [DecidableEq H]

theorem Committed.rotationRows {cp : Checkpoint} {batch : List PendingPromotion} {claimedRoot : H} {admission : Admission}
    {db mid recorded after : Db} (hrep : Represents crates db)
    (h : Committed crates cp batch claimedRoot admission db mid recorded after) {row : Nat × Checkpoint}
    (hrow : row ∈ after.rotationCheckpoints) :
    row ∈ db.rotationCheckpoints ∨ ∃ index ∈ admission.rotationAnchors, row = (index, cp) := by
  have hrecorded : recorded.rotationCheckpoints = db.rotationCheckpoints := by
    rw [← (promoteBatch_grow hrep h.batch).2.rotationCheckpoints]
    rcases recordSeriesMember_cases h.member with ⟨rfl, -⟩ | ⟨-, rfl, -⟩ <;> rfl
  obtain ⟨kept, hkept, -, rfl⟩ := insertRotationCheckpoints_cases h.rotations
  rcases List.mem_append.1 hrow with hold | hnew
  · exact Or.inl (hrecorded ▸ hold)
  · obtain ⟨index, hindex, rfl⟩ := List.mem_map.1 hnew
    exact Or.inr ⟨index, (hkept index hindex).1, rfl⟩

theorem Stepped.accounted {s after : Server H} {event : Event} (hs : s.Sound crates config)
    (h : Accounted crates config s.db) (hstep : Stepped crates config s event after) :
    Accounted crates config after.db := by
  cases hstep with
  | idle => exact h
  | staged hstage =>
    have hrow : ∀ row : String × Bytes, _ := fun row => @stageEntry_filed _ _ _ _ _ _ _ _ _ _ hstage row
    obtain ⟨staged, -, rfl⟩ := stageEntry_staged hstage
    exact ⟨fun row hmem => (hrow row hmem).elim (h.staged row) id, h.entries, h.checkpoints, h.rotations⟩
  | began => exact h
  | read => exact h
  | failed => exact h
  | turned => exact h
  | judged => exact h
  | @promoted position cp req outcome db hat hpromote =>
    have hmember : cp ∈ s.db.checkpoints := (hs.based _ (List.mem_of_getElem? hat)).1
    have hgrow := (promoteEntryIn_grow hs.represents hpromote).2
    exact h.places (promoteEntryIn_places (p := ⟨req.entryId, req.leafIndex, req.inclusionPath⟩) hs.represents hpromote) rfl
      hgrow.grows hgrow.staged ((h.checkpoints cp hmember).vouched.grow hgrow.grows.canonicalEntries)
      (fun row hrow => Or.inl (hgrow.checkpoints ▸ hrow)) fun row hrow => Or.inl (hgrow.rotationCheckpoints ▸ hrow)
  | @committed position cp raw batch rotationFor claimedRoot admission db hat hcommit =>
    obtain ⟨judged, hrepJudged, hsince, hjudge⟩ := hs.based _ (List.mem_of_getElem? hat)
    obtain ⟨visible, list, active, hjudged⟩ := judgeCheckpoint_cases hjudge
    obtain ⟨-, mid, recorded, hcommitted⟩ := commitAdmission_cases hcommit
    have hseen : visible <+: canonicalEntries db := by
      rw [hcommitted.canonicalEntries]
      exact visiblePrefix_committed hrepJudged hs.represents hsince hjudged.size hjudged.visiblePrefix hcommitted.batch
    have hlist : Resolved crates config db list := ⟨visible, hseen, hjudged.versions⟩
    obtain ⟨state, hstate, hverifies⟩ := hjudged.verified
    refine h.places (promoteBatch_places hs.represents hcommitted.batch) hcommitted.entries.1
      (hcommitted.represents hs.represents).2
      (hcommitted.entries.2.trans (promoteBatch_grow hs.represents hcommitted.batch).2.staged)
      ⟨raw, list, state, hlist, hstate, hverifies⟩ (fun row hrow => ?_) fun row hrow => ?_
    · rcases hcommitted.checkpoints hs.represents hrow with hold | ⟨rfl, hmember⟩
      · exact Or.inl hold
      · exact Or.inr ⟨raw, list, active, hlist, hjudged.activeVersion, hjudged.member.1 hmember⟩
    · rcases hcommitted.rotationRows hs.represents hrow with hold | ⟨index, hindex, rfl⟩
      · exact Or.inl hold
      · exact Or.inr ⟨raw, list, hlist, ((rotationAnchorsFor_eq_ok hjudged.anchors).1 index).1 hindex⟩
  | restarted => exact h

theorem serverAfter_accounted (crates : Crates H K) (config : Config K) (schedule : List Event) :
    Accounted crates config (serverAfter crates config schedule).db :=
  server_keeps (I := fun s => Accounted crates config s.db)
    ⟨by simp [Server.init, Db.empty], by simp [Server.init, Db.empty], by simp [Server.init, Db.empty],
      by simp [Server.init, Db.empty]⟩ (fun _ _ _ hs h hstep => hstep.accounted hs h) schedule

/-! ### Sizes -/

/-- The sizes recorded are storable, and an anchor covers the rotation it is filed for. -/
structure Bounded (db : Db) : Prop where
  checkpoints : ∀ cp ∈ db.checkpoints, cp.treeSize < i64Bound
  rotations : ∀ row ∈ db.rotationCheckpoints, row.1 < row.2.treeSize ∧ row.2.treeSize < i64Bound

theorem Stepped.bounded {s after : Server H} {event : Event} (hs : s.Sound crates config) (h : Bounded s.db)
    (hstep : Stepped crates config s event after) : Bounded after.db := by
  cases hstep with
  | idle => exact h
  | staged hstage =>
    obtain ⟨staged, -, rfl⟩ := stageEntry_staged hstage
    exact ⟨h.checkpoints, h.rotations⟩
  | began => exact h
  | read => exact h
  | failed => exact h
  | turned => exact h
  | judged => exact h
  | promoted _ hpromote =>
    have hgrow := (promoteEntryIn_grow hs.represents hpromote).2
    exact ⟨fun cp hcp => h.checkpoints cp (hgrow.checkpoints ▸ hcp),
      fun row hrow => h.rotations row (hgrow.rotationCheckpoints ▸ hrow)⟩
  | committed hat hcommit =>
    obtain ⟨judged, -, -, hjudge⟩ := hs.based _ (List.mem_of_getElem? hat)
    obtain ⟨visible, list, active, hjudged⟩ := judgeCheckpoint_cases hjudge
    obtain ⟨-, mid, recorded, hcommitted⟩ := commitAdmission_cases hcommit
    refine ⟨fun cp hcp => ?_, fun row hrow => ?_⟩
    · rcases hcommitted.checkpoints hs.represents hcp with hold | ⟨rfl, -⟩
      · exact h.checkpoints cp hold
      · exact hjudged.size
    · rcases hcommitted.rotationRows hs.represents hrow with hold | ⟨index, hindex, rfl⟩
      · exact h.rotations row hold
      · obtain ⟨-, -, -, -, -, -, -, hlt, -⟩ := ((rotationAnchorsFor_eq_ok hjudged.anchors).1 index).1 hindex
        exact ⟨hlt, hjudged.size⟩
  | restarted => exact h

theorem serverAfter_bounded (crates : Crates H K) (config : Config K) (schedule : List Event) :
    Bounded (serverAfter crates config schedule).db :=
  server_keeps (I := fun s => Bounded s.db) ⟨by simp [Server.init, Db.empty], by simp [Server.init, Db.empty]⟩
    (fun _ _ _ hs h hstep => hstep.bounded hs h) schedule

/-- **Every row is accounted for, under every interleaving.** Whatever the schedule: each entry is an envelope
filed under its hash and was opened by a path under a checkpoint that verifies under a manifest version the
canonical entries resolve to; each series member verifies under the last version of a prefix of them; and
each rotation row anchors a rotation such a prefix has. -/
theorem server_accounted (crates : Crates H K) (config : Config K) (schedule : List Event) :
    Accounted crates config (serverAfter crates config schedule).db := serverAfter_accounted crates config schedule

end AhlMirror
