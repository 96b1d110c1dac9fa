import AhlMirror.Governance.Chain
import AhlMirror.Series.Visible

/-!
# Under which version a row was admitted

Admission verifies a checkpoint under the last manifest version of the prefix visible at that moment,
which may end far below the checkpoint's size. So a recorded row verifies under the version its whole
prefix resolves to as long as no manifest arrives late (`CallEffect.rowsVerify`). And the two questions
of admission share one transaction: a checkpoint that only anchors a rotation still promotes its batch.
-/

namespace AhlMirror

variable {H K : Type} [HashOctets H]

section conditions
variable (crates : Crates H K) (config : Config K)

/-- Every recorded row verifies under the last version of what is canonical below its size. -/
def RowsVerify (db : Db) : Prop :=
  ∀ row ∈ db.checkpoints, ∀ list, versions crates config ((canonicalEntries db).take row.treeSize) = .ok list →
    ∀ last ∈ list.getLast?, verifiesUnder crates config last row none = .ok ()

/-- Whether the staged bytes of a promotion open the root of its checkpoint, as far as that can be told. -/
def pathVerifies (db : Db) (cp : Checkpoint) (p : PendingPromotion) : MirrorResult Bool := do
  let bytes ← okOr (.notStaged p.entryId) (getStagedRaw db p.entryId)
  let root ← mapErr .ahl (crates.parseHashHex cp.rootHash)
  verifyInclusionFor crates bytes p.leafIndex cp.treeSize p.inclusionPath root

/-- The checkpoint a call promotes under. -/
def Call.under (db : Db) : Call → Option Checkpoint
  | .stage _ _ _ => none
  | .ingest cp _ _ _ => some cp
  | .promote req => (getCheckpoint db req.treeSize).toOption.join

/-- Every path the call submits verifies. -/
def PathsVerify (db : Db) (call : Call) : Prop :=
  ∀ cp ∈ call.under db, ∀ p ∈ call.pendings, (pathVerifies crates db cp p).toOption = some true

/-- The call proposes, by paths that verify, no manifest version below the size of a recorded row, past what is
canonical, but one that the row verifies under. -/
def NoLateManifest (db : Db) (call : Call) : Prop :=
  PathsVerify crates db call → ∀ row ∈ db.checkpoints, ∀ list,
    versions crates config ((proposedEntries db call.pendings).take row.treeSize) = .ok list →
      ∀ last ∈ list.getLast?, db.entries.length ≤ last.governingManifestEntryIndex → verifiesUnder crates config last row none = .ok ()

/-- The ordinary rule of admission: the signature under the last version of the visible prefix. -/
def ordinaryRule (db : Db) (cp : Checkpoint) (raw : Option Bytes) (batch : List PendingPromotion) :
    MirrorResult Unit := do
  let claimedRoot ← mapErr .ahl (crates.parseHashHex cp.rootHash)
  let visible ← buildVisiblePrefix crates db batch cp.treeSize claimedRoot
  let list ← versions crates config visible
  let active ← okOr (.governanceChainUnresolvable cp.treeSize) list.getLast?
  verifiesUnder crates config active cp raw

end conditions

variable {crates : Crates H K} {config : Config K}

instance (db : Db) (call : Call) : Decidable (PathsVerify crates db call) :=
  inferInstanceAs (Decidable (∀ cp ∈ call.under db, _))

instance (db : Db) (call : Call) : Decidable (NoLateManifest crates config db call) :=
  inferInstanceAs (Decidable (PathsVerify crates db call → _))

/-! ### Rows and late manifests -/

theorem verifiesUnder_raw {state : GovernanceState K} {cp : Checkpoint} {raw : Option Bytes}
    (h : verifiesUnder crates config state cp raw = .ok ()) : verifiesUnder crates config state cp none = .ok () := by
  unfold verifiesUnder verifyCheckpointSignature at h ⊢
  simp only [bind_eq_ok, ite_error_eq_ok] at h ⊢
  obtain ⟨key, hkey, hlog, blob, hblob, -, hverified⟩ := h
  exact ⟨key, hkey, hlog, blob, hblob, by simp, hverified⟩

theorem take_of_prefix {α : Type} {p q : List α} (h : p <+: q) (n : Nat) :
    (q.take n).take (min p.length n) = p.take n := by
  obtain ⟨more, rfl⟩ := h
  rw [List.take_take, Nat.min_eq_left (Nat.min_le_right _ _), List.take_append_of_le_length (Nat.min_le_left _ _),
    Nat.min_comm, ← List.take_eq_take_min]

theorem RowsVerify.grow {db after : Db} (h : RowsVerify crates config db)
    (hgrow : canonicalEntries db <+: canonicalEntries after) {row : Checkpoint} (hrow : row ∈ db.checkpoints)
    (hlate : ∀ list, versions crates config ((canonicalEntries after).take row.treeSize) = .ok list →
      ∀ last ∈ list.getLast?, db.entries.length ≤ last.governingManifestEntryIndex →
        verifiesUnder crates config last row none = .ok ()) :
    ∀ list, versions crates config ((canonicalEntries after).take row.treeSize) = .ok list →
      ∀ last ∈ list.getLast?, verifiesUnder crates config last row none = .ok () := by
  intro list hlist last hlast
  rcases Nat.lt_or_ge last.governingManifestEntryIndex db.entries.length with hold | hnew
  · refine h row hrow list ?_ last hlast
    have hlt := (versions_chain hlist).2.lt_stop last (List.mem_of_getLast? hlast)
    have hlength := length_canonicalEntries db
    have hle := hgrow.length_le
    rw [← take_of_prefix hgrow row.treeSize]
    rw [List.length_take] at hlt
    exact versions_take_of_last hlist hlast (by omega) (by rw [List.length_take]; omega)
  · exact hlate list hlist last hlast hnew

theorem promoteEntryIn_pathVerifies {db after : Db} {cp : Checkpoint} {p : PendingPromotion} {outcome : InsertOutcome}
    (h : promoteEntryIn crates db cp p.entryId p.leafIndex p.inclusionPath = .ok (outcome, after)) :
    pathVerifies crates db cp p = .ok true := by
  unfold promoteEntryIn at h
  simp only [bind_eq_ok, ite_error_eq_ok] at h
  obtain ⟨bytes, hbytes, root, hroot, included, hincluded, htrue, -⟩ := h
  have htrue : included = true := by simpa using htrue
  unfold pathVerifies
  rw [hbytes, ok_bind, hroot, ok_bind, hincluded, htrue]

theorem promoteBatch_pathVerifies {cp : Checkpoint} : ∀ {batch : List PendingPromotion} {db after : Db},
    Represents crates db → promoteBatch crates cp batch db = .ok after →
      ∀ p ∈ batch, pathVerifies crates db cp p = .ok true
  | [], _, _, _, _ => by simp
  | first :: rest, db, after, hrep, h => by
    simp only [promoteBatch, bind_eq_ok] at h
    obtain ⟨⟨outcome, mid⟩, hpromote, hrest⟩ := h
    obtain ⟨hrep', hgrow⟩ := promoteEntryIn_grow hrep hpromote
    intro p hp
    rcases List.mem_cons.1 hp with rfl | hp
    · exact promoteEntryIn_pathVerifies hpromote
    · -- the promotions before it stage nothing
      have hverified := promoteBatch_pathVerifies hrep' hrest p hp
      unfold pathVerifies getStagedRaw at hverified ⊢
      rwa [hgrow.staged] at hverified

variable [DecidableEq H]

theorem CallEffect.rowsVerify {db after : Db} {call : Call} (hrep : Represents crates db)
    (hdb : RowsVerify crates config db) (hlate : NoLateManifest crates config db call)
    (h : CallEffect crates config db call after) : RowsVerify crates config after := by
  cases h with
  | unchanged => exact hdb
  | staged _ => exact hdb
  | @admitted cp raw batch rotationFor claimedRoot admission _ hjudge hcommit =>
    obtain ⟨-, mid, recorded, hcommitted⟩ := commitAdmission_cases hcommit
    have hproposed := (promoteBatch_proposes hrep hcommitted.batch).1
    have hgrow := (promoteBatch_grow hrep hcommitted.batch).2.grows.canonicalEntries
    have hpaths : PathsVerify crates db (.ingest cp raw batch rotationFor) := by
      rintro _ ⟨⟩ p hp
      rw [promoteBatch_pathVerifies hrep hcommitted.batch p hp]
      rfl
    intro row hrow
    rw [hcommitted.canonicalEntries]
    rcases hcommitted.checkpoints hrep hrow with hold | ⟨rfl, hmember⟩
    · apply hdb.grow hgrow hold
      rw [hproposed]
      exact hlate hpaths row hold
    · -- the new row was judged under the prefix that is canonical now
      obtain ⟨visible, list, active, hjudged⟩ := judgeCheckpoint_cases hjudge
      have hvisible := visiblePrefix_eq_promoted hrep hjudged.size hjudged.visiblePrefix hcommitted.batch
      intro list' hlist' last hlast
      rw [← hvisible, hjudged.versions] at hlist'
      obtain rfl := Except.ok.inj hlist'
      obtain rfl : active = last := Option.some.inj (hjudged.activeVersion.symm.trans hlast)
      exact verifiesUnder_raw (hjudged.member.1 hmember)
  | @promoted req cp outcome _ hget hpromote =>
    have hproposed := (promoteEntryIn_proposes (p := ⟨req.entryId, req.leafIndex, req.inclusionPath⟩) hrep hpromote).1
    obtain ⟨-, hgrow⟩ := promoteEntryIn_grow hrep hpromote
    have hpaths : PathsVerify crates db (.promote req) := by
      intro found hfound p hp
      obtain rfl := List.mem_singleton.1 hp
      obtain rfl : cp = found := by
        rw [Call.under, hget] at hfound
        exact Option.some.inj hfound
      rw [promoteEntryIn_pathVerifies (p := ⟨req.entryId, req.leafIndex, req.inclusionPath⟩) hpromote]
      rfl
    intro row hrow
    rw [hgrow.checkpoints] at hrow
    apply hdb.grow hgrow.grows.canonicalEntries hrow
    rw [hproposed]
    exact hlate hpaths row hrow

/-- **Recorded rows verify where no manifest arrives late.** In every run none of whose calls proposes, by paths
that verify, a manifest version below the size of an already recorded row, each row of the series verifies under the
state that the canonical prefix below its size resolves to. -/
theorem recorded_rows_verify {calls : List Call}
    (hrun : (mirror crates config).Along (NoLateManifest crates config) Db.empty calls) {row : Checkpoint}
    (hrow : row ∈ (storeAfter crates config calls).checkpoints) {state : GovernanceState K}
    (hstate : resolve crates config ((canonicalEntries (storeAfter crates config calls)).take row.treeSize) = .ok state) :
    verifiesUnder crates config state row none = .ok () := by
  have hboth := (mirror crates config).exec_invariant_along
    (I := fun db => Represents crates db ∧ RowsVerify crates config db) (P := NoLateManifest crates config)
    (fun db call hdb hlate => ⟨mirror_represents call hdb.1,
      (serve_effect call).rowsVerify hdb.1 hdb.2 hlate⟩)
    (s := Db.empty) ⟨Represents.empty, by simp [RowsVerify, Db.empty]⟩ hrun
  obtain ⟨list, last, hlist, hlast, rfl⟩ := resolve_eq_ok.1 hstate
  exact hboth.2 row hrow list hlist last hlast

/-- A row recorded over one entry, the other promoted after it. -/
def Symbolic.lateEntry : List Call :=
  [stage 1, stage 5, ingest (checkpoint "A" 2 (rootOf [[1], [5]]) 5) [pending [[1], [5]] 0], promote 2 (pending [[1], [5]] 1)]

theorem recorded_rows_verify_lateEntry : ∃ state,
    resolve (Symbolic.crates Symbolic.documents) Symbolic.config
      ((canonicalEntries (Symbolic.after Symbolic.lateEntry)).take 2) = .ok state ∧
    verifiesUnder (Symbolic.crates Symbolic.documents) Symbolic.config state
      (Symbolic.checkpoint "A" 2 (Symbolic.rootOf [[1], [5]]) 5) none = .ok () := by
  obtain ⟨hrun, hrow, hresolves⟩ :
      (mirror (Symbolic.crates Symbolic.documents) Symbolic.config).Along
        (NoLateManifest (Symbolic.crates Symbolic.documents) Symbolic.config) Db.empty Symbolic.lateEntry ∧
      Symbolic.checkpoint "A" 2 (Symbolic.rootOf [[1], [5]]) 5 ∈ (Symbolic.after Symbolic.lateEntry).checkpoints ∧
      (resolve (Symbolic.crates Symbolic.documents) Symbolic.config
        ((canonicalEntries (Symbolic.after Symbolic.lateEntry)).take 2)).isOk = true := by
    decide +kernel
  cases hstate : resolve (Symbolic.crates Symbolic.documents) Symbolic.config
      ((canonicalEntries (Symbolic.after Symbolic.lateEntry)).take 2) with
  | error e =>
    rw [hstate] at hresolves
    cases hresolves
  | ok state =>
    exact ⟨state, rfl, recorded_rows_verify hrun hrow hstate⟩

/-- The same with the manifest that replaces the row's key in the place of the late entry. -/
def Symbolic.lateManifest : List Call :=
  [stage 1, stage 2, ingest (checkpoint "A" 2 (rootOf [[1], [2]]) 5) [pending [[1], [2]] 0], promote 2 (pending [[1], [2]] 1)]

theorem recorded_row_superseded : ¬ ∀ (calls : List Call),
    ∀ row ∈ (Symbolic.after calls).checkpoints, row.treeSize ≤ (Symbolic.after calls).entries.length →
      ∀ state, resolve (Symbolic.crates Symbolic.documents) Symbolic.config
        ((canonicalEntries (Symbolic.after calls)).take row.treeSize) = .ok state →
        verifiesUnder (Symbolic.crates Symbolic.documents) Symbolic.config state row none = .ok () := by
  intro h
  exact absurd (h Symbolic.lateManifest) (by decide +kernel)

/-! ### What a batch is promoted on -/

omit [DecidableEq H] in
theorem Judged.ordinaryRule {db : Db} {cp : Checkpoint} {raw : Option Bytes} {batch : List PendingPromotion}
    {rotationFor : Option Nat} {claimedRoot : H} {admission : Admission} {visible : List Bytes}
    {list : List (GovernanceState K)} {active : GovernanceState K}
    (h : Judged crates config db cp raw batch rotationFor claimedRoot admission visible list active) :
    admission.seriesMember = true ↔ ordinaryRule crates config db cp raw batch = .ok () := by
  rw [h.member]
  unfold AhlMirror.ordinaryRule
  rw [h.root]
  simp only [mapErr, ok_bind, h.visiblePrefix, h.versions, h.activeVersion, okOr]

/-- **A batch is promoted on an admission of either kind.** An admission that promotes entries is one of
the series exactly where the checkpoint passes the ordinary rule or the batch names no new entry. -/
theorem promotion_rests_on_member_iff {db after : Db} (hreach : Reachable crates config db) {cp : Checkpoint}
    {raw : Option Bytes} {batch : List PendingPromotion} {rotationFor : Option Nat} {admission : Admission}
    (h : ingestCheckpoint crates config db cp raw batch rotationFor = (after, .ok admission)) :
    (db.entries.length < after.entries.length →
      admission.seriesMember = true ∧ ordinaryRule crates config db cp raw batch = .ok ()) ↔
    ordinaryRule crates config db cp raw batch = .ok () ∨ ∀ p ∈ batch, p.leafIndex < db.entries.length := by
  have hrep := hreach.represents
  obtain ⟨claimedRoot, judged, hjudge, hcommit⟩ := ingestCheckpoint_eq_ok h
  obtain ⟨rfl, mid, recorded, hcommitted⟩ := commitAdmission_cases hcommit
  obtain ⟨visible, list, active, hjudged⟩ := judgeCheckpoint_cases hjudge
  obtain ⟨hproposed, hbelow⟩ := promoteBatch_proposes hrep hcommitted.batch
  have hlength : after.entries.length = mid.entries.length := by
    rw [← length_canonicalEntries, hcommitted.canonicalEntries, length_canonicalEntries]
  constructor
  · intro hgrew
    by_cases hgrow : db.entries.length < after.entries.length
    · exact Or.inl (hgrew hgrow).2
    · -- nothing was promoted, so every index named was there
      exact Or.inr fun p hp => by
        have := hbelow p hp
        omega
  · rintro (hordinary | hnothing) hgrow
    · exact ⟨hjudged.ordinaryRule.2 hordinary, hordinary⟩
    · rw [proposedEntries_of_canonical hnothing] at hproposed
      have := congrArg List.length hproposed
      rw [length_canonicalEntries, length_canonicalEntries] at this
      omega

/-- Genesis and the rotation of the log key from `A` to `B`, under a checkpoint of `B`. -/
def Symbolic.rotated : List Call :=
  [stage 1, stage 2, stage 5,
    ingest (checkpoint "B" 2 (rootOf [[1], [2]]) 5) [pending [[1], [2]] 0, pending [[1], [2]] 1]]

/-- A checkpoint over one more entry, under either key. -/
def Symbolic.third (key : String) : Checkpoint := checkpoint key 3 (rootOf [[1], [2], [5]]) 6

/-- The store once that checkpoint promoted the entry. -/
def Symbolic.promotedBy (key : String) : Db :=
  after (rotated ++ [ingest (third key) [pending [[1], [2], [5]] 2]])

theorem promotion_rests_on_member_third :
    (Symbolic.after Symbolic.rotated).entries.length < (Symbolic.promotedBy "B").entries.length ∧
      ordinaryRule (Symbolic.crates Symbolic.documents) Symbolic.config (Symbolic.after Symbolic.rotated)
        (Symbolic.third "B") none [Symbolic.pending [[1], [2], [5]] 2] = .ok () := by
  obtain ⟨hgrew, hadmitted, hrule⟩ :
      (Symbolic.after Symbolic.rotated).entries.length < (Symbolic.promotedBy "B").entries.length ∧
      ingestCheckpoint (Symbolic.crates Symbolic.documents) Symbolic.config (Symbolic.after Symbolic.rotated)
        (Symbolic.third "B") none [Symbolic.pending [[1], [2], [5]] 2] none =
          (Symbolic.promotedBy "B", .ok ⟨true, []⟩) ∧
      ordinaryRule (Symbolic.crates Symbolic.documents) Symbolic.config (Symbolic.after Symbolic.rotated)
        (Symbolic.third "B") none [Symbolic.pending [[1], [2], [5]] 2] = .ok () := by
    decide +kernel
  exact ⟨hgrew, ((promotion_rests_on_member_iff (Symbolic.reachable_after _) hadmitted).2 (Or.inl hrule) hgrew).2⟩

theorem retired_key_promotes : ¬ ∀ (calls : List Call) (cp : Checkpoint) (batch : List PendingPromotion) (after : Db)
    (admission : Admission), ingestCheckpoint (Symbolic.crates Symbolic.documents) Symbolic.config
      (Symbolic.after calls) cp none batch none = (after, .ok admission) →
      (Symbolic.after calls).entries.length < after.entries.length → admission.seriesMember = true := by
  intro h
  obtain ⟨hadmitted, hgrew⟩ :
      ingestCheckpoint (Symbolic.crates Symbolic.documents) Symbolic.config (Symbolic.after Symbolic.rotated)
        (Symbolic.third "A") none [Symbolic.pending [[1], [2], [5]] 2] none =
          (Symbolic.promotedBy "A", .ok ⟨false, [1]⟩) ∧
      (Symbolic.after Symbolic.rotated).entries.length < (Symbolic.promotedBy "A").entries.length := by
    decide +kernel
  have hmember := h Symbolic.rotated (Symbolic.third "A") _ _ _ hadmitted hgrew
  cases hmember

end AhlMirror
