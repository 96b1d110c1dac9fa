import AhlMirror.Series.Locks
import AhlMirror.Series.Served
import AhlMirror.Server.Account
import AhlMirror.Service.Published
import AhlMirror.Store.RangeResponse

/-!
# What an internal error means

`500` stands for a fault of the mirror's own. No read answers it on any store a schedule leads to, the
rotation route apart, which answers it in two cases only: an index no entry can have, and an anchor the
entries have since contradicted.
-/

namespace AhlMirror

open AhlMirror.Core Merkle

variable {H K : Type}

/-! ### Computations without faults -/

def MirrorError.IsFault (e : MirrorError) : Prop := e.status = .internalServerError

instance (e : MirrorError) : Decidable e.IsFault := inferInstanceAs (Decidable (_ = _))

/-- Whatever error comes out, it is not a fault. -/
def Faultless {α : Type} (result : MirrorResult α) : Prop := ∀ e, result = .error e → ¬ e.IsFault

namespace Faultless
variable {α β : Type}

theorem ok (value : α) : Faultless (.ok value : MirrorResult α) := fun _ h => by cases h

theorem error {e : MirrorError} (h : ¬ e.IsFault) : Faultless (.error e : MirrorResult α) := fun _ he => by
  cases he
  exact h

theorem bind {x : MirrorResult α} {f : α → MirrorResult β} (hx : Faultless x) (hf : ∀ a, x = .ok a → Faultless (f a)) :
    Faultless (x >>= f) := by
  cases x with
  | error e => exact error (hx e rfl)
  | ok a => exact hf a rfl

theorem ite {p : Prop} [Decidable p] {x y : MirrorResult α} (hx : p → Faultless x) (hy : ¬ p → Faultless y) :
    Faultless (if p then x else y) := by
  split_ifs with h
  · exact hx h
  · exact hy h

theorem okOr {e : MirrorError} (h : ¬ e.IsFault) (value : Option α) : Faultless (okOr e value) := by
  cases value with
  | none => exact error h
  | some value => exact ok value

theorem ahl (result : Except AhlError α) : Faultless (mapErr .ahl result) := by
  cases result with
  | error e => exact error (by simp [MirrorError.IsFault, MirrorError.status])
  | ok value => exact ok value

end Faultless

theorem faulty_iff {α : Type} {f : α → Response} {result : MirrorResult α}
    (hf : ∀ value, (f value).status ≠ .internalServerError) :
    (Response.of f result).status = .internalServerError ↔ ∃ e, result = .error e ∧ e.IsFault := by
  cases result with
  | error e => exact ⟨fun h => ⟨e, rfl, h⟩, fun ⟨_, he, hfault⟩ => Except.error.inj he ▸ hfault⟩
  | ok value => exact ⟨fun h => absurd h (hf value), fun ⟨_, he, _⟩ => by cases he⟩

theorem Faultless.response {α : Type} {f : α → Response} {result : MirrorResult α} (h : Faultless result)
    (hf : ∀ value, (f value).status ≠ .internalServerError) : (Response.of f result).status ≠ .internalServerError := by
  intro hfaulty
  obtain ⟨e, he, hfault⟩ := (faulty_iff hf).1 hfaulty
  exact h e he hfault

variable [HashOctets H]

/-! ### The view -/

omit [HashOctets H] in
theorem parseCheckpointTime_faultless (crates : Crates H K) (value : String) :
    Faultless (parseCheckpointTime crates value) := by
  have hbad : ¬ (MirrorError.badCheckpointTime value).IsFault := by simp [MirrorError.IsFault, MirrorError.status]
  refine .ite (fun _ => .error hbad) fun _ => (Faultless.okOr hbad _).bind fun nanos _ => .ite (fun _ => .error hbad) fun _ => ?_
  refine (Faultless.okOr (by simp [MirrorError.IsFault, MirrorError.status]) _).bind fun rendered _ => ?_
  exact .ite (fun _ => .error hbad) fun _ => .ok _

omit [HashOctets H] in
theorem refuseAtFloor_faultless (view : SeriesView) (treeSize : Nat) : Faultless (refuseAtFloor view treeSize) := by
  unfold refuseAtFloor
  split
  · exact .ite (fun _ => .error (by simp [MirrorError.IsFault, MirrorError.status])) fun _ => .ok ()
  · exact .ok ()

variable {crates : Crates H K} {config : Config K} {db : Db}

omit [HashOctets H] in
theorem WalkFailure.not_isFault {entries : List Bytes} {e : MirrorError} (h : WalkFailure crates entries e) : ¬ e.IsFault := by
  obtain ⟨index, bytes, envelope, payload, kind, -, -, hfailed⟩ := h
  cases hfailed with
  | verification _ => simp [MirrorError.IsFault, MirrorError.status]
  | version _ => simp [MirrorError.IsFault, MirrorError.status]

theorem computeGapFreeFrontier_faultless (hrep : Represents crates db) {usable : List Checkpoint} (floor : Option Nat)
    (husable : ∀ cp ∈ usable, cp.treeSize < i64Bound) :
    Faultless (computeGapFreeFrontier crates config db usable floor) := by
  intro e h
  rcases computeGapFreeFrontier_failure hrep husable h with hwalk | ⟨cp, -, htime⟩
  · exact hwalk.not_isFault
  · exact parseCheckpointTime_faultless crates _ e htime

variable [DecidableEq H]

section sound
variable (hprover : ViewLaws crates) (hconsistency : ConsistencyLaws crates)
  (hsound : Sound crates db) (hbounded : Bounded db)
include hprover hconsistency hsound hbounded

theorem seriesView_faultless : Faultless (seriesView crates config db) := by
  obtain ⟨members, hmembers, hmem⟩ := hsound.labelled hprover hconsistency
  have hlabelled : judgeMembers crates db none (allCheckpoints db) = .ok members := hmembers
  unfold seriesView
  rw [hlabelled, ok_bind]
  refine (computeGapFreeFrontier_faultless hsound.represents _ fun cp hcp => ?_).bind fun _ _ => .ok _
  exact hbounded.checkpoints cp ((hmem _).1 (mem_usableCheckpoints.1 hcp)).1

theorem seriesUsableCheckpoint_faultless (treeSize : Nat) : Faultless (seriesUsableCheckpoint crates config db treeSize) := by
  refine (seriesView_faultless hprover hconsistency hsound hbounded).bind fun view _ => ?_
  refine (refuseAtFloor_faultless view treeSize).bind fun _ _ => ?_
  exact .ite (fun _ => .error (by simp [MirrorError.IsFault, MirrorError.status])) fun _ =>
    .okOr (by simp [MirrorError.IsFault, MirrorError.status]) _

omit hbounded in
theorem seriesUsableCheckpoint_usable {treeSize : Nat} {cp : Checkpoint}
    (h : seriesUsableCheckpoint crates config db treeSize = .ok cp) :
    cp.treeSize = treeSize ∧ cp ∈ db.checkpoints ∧ cp.treeSize < i64Bound ∧ UsableRow crates db cp := by
  obtain ⟨view, hview, hmem, hsize⟩ := seriesUsableCheckpoint_mem h
  exact ⟨hsize, (hview.mem_usable_iff hprover hconsistency hsound.represents hsound.positive).1 hmem⟩

theorem getCheckpointHandler_faultless (treeSize : Nat) : Faultless (getCheckpointHandler crates config db treeSize) := by
  refine (seriesView_faultless hprover hconsistency hsound hbounded).bind fun view _ => ?_
  refine (refuseAtFloor_faultless view treeSize).bind fun _ _ => ?_
  exact .okOr (by simp [MirrorError.IsFault, MirrorError.status]) _

theorem itubHandler_faultless (index : Nat) : Faultless (itubHandler crates config db index) :=
  (seriesView_faultless hprover hconsistency hsound hbounded).bind fun _ _ => .ok _

theorem consistencyHandler_faultless (fromSize toSize : Nat) :
    Faultless (consistencyHandler crates config db fromSize toSize) := by
  have hchosen : ∀ size, Faultless (seriesUsableCheckpoint crates config db size) :=
    seriesUsableCheckpoint_faultless hprover hconsistency hsound hbounded
  refine .ite (fun _ => .error (by simp [MirrorError.IsFault, MirrorError.status])) fun horder => ?_
  refine (hchosen fromSize).bind fun fromCp hfrom => (hchosen toSize).bind fun toCp hto => ?_
  obtain ⟨hfromSize, -⟩ := seriesUsableCheckpoint_usable hprover hconsistency hsound hfrom
  obtain ⟨htoSize, -, hbound, husable⟩ := seriesUsableCheckpoint_usable hprover hconsistency hsound hto
  obtain ⟨treeNodes, hproof⟩ := hsound.represents.consistencyProofMeasuredRaw hprover.toConsistencyProofLaws
    (show fromCp.treeSize ≤ toCp.treeSize by omega) husable.held hbound
  rw [hproof]
  exact .ok _

end sound

/-! ### Windows -/

omit [HashOctets H] [DecidableEq H] in
theorem enumerateEntries_faultless (fromIndex : Nat) : ∀ (window : List Bytes) (offset : Nat),
    fromIndex + offset + window.length < u64Bound → Faultless (enumerateEntries crates fromIndex offset window)
  | [], _, _ => .ok _
  | bytes :: rest, offset, hbound => by
    rw [List.length_cons] at hbound
    have hlater := enumerateEntries_faultless fromIndex rest (offset + 1) (by omega)
    rw [enumerateEntries, checkedAdd_of_lt (by omega)]
    simp only [okOr, ok_bind]
    cases crates.fromSlice bytes with
    | error e => exact Faultless.error (e := .json e) (by simp [MirrorError.IsFault, MirrorError.status])
    | ok value => exact hlater.bind fun _ _ => .ok _

theorem buildRangeResponse_faultless (hsplit : SplitLaws crates) (hsubtree : SubtreeLaws crates)
    (hrange : RangeLaws crates) (hrep : Represents crates db) {cp : Checkpoint} (hone : 1 ≤ cp.treeSize)
    (hbound : cp.treeSize < i64Bound)
    (husable : UsableRow crates db cp) (start stop : Nat) : Faultless (buildRangeResponse crates db cp start stop) := by
  have hheld := husable.held
  have hu64 := i64Bound_lt_u64Bound
  obtain ⟨treeNodes, hopen⟩ := openSubtrees_eq hsubtree hrep (outsideSpans start stop 0 cp.treeSize)
    (saturatingAdd 0 (countOnes cp.treeSize)) fun span hspan => by
      have hwithin := outsideSpans_within hone hspan
      omega
  have hroot := husable.root
  rw [mth_leafHashes crates hone hheld] at hroot
  refine Faultless.bind ?_ fun _ _ => .ok _
  unfold buildRangeResponseIn
  simp only [hrep.toCanonical.countEntriesRaw_held hbound hheld, ok_bind, ne_eq, not_true_eq_false, if_false]
  refine .ite (fun _ => .error (by simp [MirrorError.IsFault, MirrorError.status])) fun hwindow => ?_
  have hverified : crates.rangeProofVerify (windowProof crates db cp.treeSize start stop)
      (((leafHashes crates db).take stop).drop start) (spanRoot crates.hashChildren (leafAt crates db) 0 cp.treeSize) = .ok true := by
    apply hrange.verify _ _ _ _ _ (leafAt crates db) _ (by omega) (by omega)
    · rw [List.length_drop, List.length_take, length_leafHashes]
      omega
    · intro i hi
      simp only [List.getElem_drop, List.getElem_take]
      exact leafHashes_getElem crates db _
    · exact rebuild_outsideSpans (fun i _ _ => rfl) hone
  simp only [hroot, mapErr, ok_bind, openSubtree]
  rw [hrep.subtreeRootRaw hsubtree hone (by omega)]
  simp only [ok_bind, not_true_eq_false, if_false]
  rw [outsideSubtrees_eq hsplit.largestPowerOf2LessThan hone (by omega), hopen]
  simp only [ok_bind]
  rw [hrep.leafHashesRangeRaw (by omega) (by omega)]
  simp only [ok_bind]
  rw [show crates.rangeProofVerify ⟨cp.treeSize, start, stop, _⟩ _ _ = _ from hverified]
  simp only [ok_bind, Bool.true_eq_false, if_false]
  rw [hrep.toCanonical.getEntriesRangeRaw (by omega) (by omega)]
  simp only [ok_bind]
  refine (enumerateEntries_faultless start _ 0 ?_).bind fun _ _ => .ok _
  rw [List.length_drop, List.length_take, length_canonicalEntries]
  omega

theorem rangeHandler_faultless (hprover : ViewLaws crates) (hsplit : SplitLaws crates)
    (hconsistency : ConsistencyLaws crates) (hrange : RangeLaws crates) (hsound : Sound crates db) (hbounded : Bounded db)
    (req : RangeRequest) : Faultless (rangeHandler crates config db req) := by
  refine (seriesUsableCheckpoint_faultless hprover hconsistency hsound hbounded _).bind fun cp hcp => ?_
  obtain ⟨-, hrow, hbound, husable⟩ := seriesUsableCheckpoint_usable hprover hconsistency hsound hcp
  exact buildRangeResponse_faultless hsplit hprover.toSubtreeLaws hrange hsound.represents (hsound.positive cp hrow) hbound husable _ _

/-! ### Retrieval -/

omit [DecidableEq H] in
theorem retrieveById_faultless (hfiled : ∀ row ∈ db.entries, sha256Id crates row.envelope = row.entryId) (entryId : String) :
    Faultless (retrieveById crates db entryId) := by
  unfold retrieveById getEntryById
  cases hfind : db.entries.find? fun row => row.entryId == entryId with
  | none => exact .ok _
  | some row =>
    have hrow := hfiled row (List.mem_of_find?_eq_some hfind)
    have hid : row.entryId = entryId := by simpa using List.find?_some hfind
    simp only [Option.map_some]
    rw [if_neg (by rw [hrow, hid]; simp)]
    exact .ok _

/-! ### The rotation route -/

variable (crates config db) in
/-- The anchor served for a rotation, where it can be compared with the entries, has another root than they have. -/
structure Contradicted (manifestEntryIndex : Nat) (cp : Checkpoint) : Prop where
  served : getRotationCheckpoint db manifestEntryIndex = .ok (some cp)
  viewed : (seriesView crates config db).isOk = true
  floor : ∀ f ∈ (findRootDivergences (authenticatedCheckpoints db)).min?, cp.treeSize < f
  held : cp.treeSize ≤ db.entries.length
  root : ∃ claimed, crates.parseHashHex cp.rootHash = .ok claimed ∧
    mth crates.hashChildren (crates.digest []) ((leafHashes crates db).take cp.treeSize) ≠ claimed

omit [HashOctets H] [DecidableEq H] in
theorem auditPath_rejected (hopens : InclusionVerifyLaws crates) {index n : Nat} (hindex : index < n) {claimed : H}
    (hne : spanRoot crates.hashChildren (leafAt crates db) 0 n ≠ claimed) :
    crates.verifyInclusion (leafAt crates db index)
      ⟨index, n, auditPath crates.hashChildren (leafAt crates db) 0 n index⟩ claimed ≠ .ok true := by
  intro haccepted
  have hpath : openPath crates.hashChildren n index (leafAt crates db index)
      (auditPath crates.hashChildren (leafAt crates db) 0 n index) =
        some (spanRoot crates.hashChildren (leafAt crates db) 0 n) := by
    rw [← openPath_auditPath crates.hashChildren (leafAt crates db) hindex, Nat.zero_add]
  exact hne (Option.some.inj (hpath.symm.trans (hopens.verifyInclusion haccepted)))

omit [HashOctets H] [DecidableEq H] in
theorem head?_leafHashes {index : Nat} (hindex : index < db.entries.length) :
    (((leafHashes crates db).take (index + 1)).drop index).head? = some (leafAt crates db index) := by
  have hlt : index < (leafHashes crates db).length := by simpa using hindex
  rw [List.head?_drop, List.getElem?_take_of_lt (Nat.lt_succ_self index), List.getElem?_eq_getElem hlt,
    leafHashes_getElem crates db hlt]

omit [HashOctets H] [DecidableEq H] in
theorem getRotationCheckpoint_mem {index : Nat} {cp : Checkpoint} (h : getRotationCheckpoint db index = .ok (some cp)) :
    (index, cp) ∈ db.rotationCheckpoints := by
  unfold getRotationCheckpoint at h
  simp only [bind_eq_ok, toI64_eq_ok] at h
  obtain ⟨_, ⟨-, rfl⟩, h⟩ := h
  exact mem_rotationRows.1 (List.mem_of_head? (Except.ok.inj h))

/-- The route past its refusals: the stored leaf's path is checked against the root the anchor declares. -/
theorem rotationProofElement_compared (hproof : InclusionProofLaws crates) (hrep : Represents crates db)
    {index : Nat} {cp : Checkpoint} {view : SeriesView} {claimed : H} (hindex : index < cp.treeSize)
    (hsize : cp.treeSize < i64Bound) (hheld : cp.treeSize ≤ db.entries.length)
    (hget : getRotationCheckpoint db index = .ok (some cp)) (hview : seriesView crates config db = .ok view)
    (hfloor : refuseAtFloor view cp.treeSize = .ok ()) (hclaimed : crates.parseHashHex cp.rootHash = .ok claimed) :
    rotationProofElement crates config db index = (do
      let included ← mapErr .atl (crates.verifyInclusion (leafAt crates db index)
        ⟨index, cp.treeSize, auditPath crates.hashChildren (leafAt crates db) 0 cp.treeSize index⟩ claimed)
      if included = false then .error (.checkpointRootMismatch cp.treeSize)
      else .ok ⟨index, cp, crates.proofPathHex
        ⟨index, cp.treeSize, auditPath crates.hashChildren (leafAt crates db) 0 cp.treeSize index⟩⟩) := by
  have hnext : saturatingAdd index 1 = index + 1 := saturatingAdd_of_lt (by
    have := i64Bound_lt_u64Bound
    omega)
  unfold rotationProofElement
  rw [hget, hview, hnext]
  simp only [okOr, ok_bind, hfloor]
  rw [hrep.toCanonical.countEntriesRaw_held hsize hheld, hrep.inclusionProofRaw hproof hindex hheld, hclaimed,
    hrep.leafHashesRangeRaw (by omega) (by omega)]
  simp only [mapErr, ok_bind, ne_eq, not_true_eq_false, if_false, head?_leafHashes (hindex.trans_le hheld)]

theorem Contradicted.fault (hproof : InclusionProofLaws crates) (hopens : InclusionVerifyLaws crates)
    (hrep : Represents crates db) {index : Nat} {cp : Checkpoint} (hindex : index < cp.treeSize)
    (hsize : cp.treeSize < i64Bound) (h : Contradicted crates config db index cp) :
    ∃ e, rotationProofElement crates config db index = .error e ∧ e.IsFault := by
  obtain ⟨claimed, hclaimed, hne⟩ := h.root
  cases hview : seriesView crates config db with
  | error e =>
    have hok := h.viewed
    rw [hview] at hok
    cases hok
  | ok view =>
    have hviewed := seriesView_cases hview
    have hfloor : refuseAtFloor view cp.treeSize = .ok () := by
      rw [refuseAtFloor_eq_ok, hviewed.floor, hviewed.divergences]
      exact h.floor
    rw [rotationProofElement_compared hproof hrep hindex hsize h.held h.served hview hfloor hclaimed]
    rw [mth_leafHashes crates (by omega) h.held] at hne
    have hrejected := auditPath_rejected hopens hindex hne
    -- rejected or not even checked, both are faults
    cases hresult : crates.verifyInclusion (leafAt crates db index)
        ⟨index, cp.treeSize, auditPath crates.hashChildren (leafAt crates db) 0 cp.treeSize index⟩ claimed with
    | error e => exact ⟨.atl e, rfl, rfl⟩
    | ok included =>
      cases included with
      | false => exact ⟨.checkpointRootMismatch cp.treeSize, rfl, rfl⟩
      | true => exact absurd hresult hrejected

theorem rotationProofElement_fault_iff (hprover : ViewLaws crates) (hproof : InclusionProofLaws crates)
    (hconsistency : ConsistencyLaws crates) (hpath : PathLaws crates) (hopens : InclusionVerifyLaws crates)
    (hsound : Sound crates db) (hbounded : Bounded db) (index : Nat) :
    (∃ e, rotationProofElement crates config db index = .error e ∧ e.IsFault) ↔
      i64Bound ≤ index ∨ ∃ cp, Contradicted crates config db index cp := by
  have hrep := hsound.represents
  constructor
  · contrapose!
    rintro ⟨hindex, hnone⟩
    show Faultless (rotationProofElement crates config db index)
    refine Faultless.bind ?_ fun found hfound => ?_
    · unfold getRotationCheckpoint
      rw [toI64_of_lt hindex]
      exact .ok _
    refine (Faultless.okOr (by simp [MirrorError.IsFault, MirrorError.status]) found).bind fun cp hcp => ?_
    obtain rfl := okOr_eq_ok.1 hcp
    obtain ⟨hcovers, hsize⟩ : index < cp.treeSize ∧ cp.treeSize < i64Bound := hbounded.rotations _ (getRotationCheckpoint_mem hfound)
    refine (seriesView_faultless hprover hconsistency hsound hbounded).bind fun view hview => ?_
    refine (refuseAtFloor_faultless view _).bind fun _ hfloor => ?_
    rw [hrep.toCanonical.countEntriesRaw hsize, ok_bind]
    refine .ite (fun _ => .error (by simp [MirrorError.IsFault, MirrorError.status])) fun hcount => ?_
    have hheld : cp.treeSize ≤ db.entries.length := by omega
    rw [hrep.inclusionProofRaw hproof hcovers hheld, ok_bind]
    refine (Faultless.ahl _).bind fun claimed hclaimed => ?_
    have hnext : saturatingAdd index 1 = index + 1 := saturatingAdd_of_lt (by
      have := i64Bound_lt_u64Bound
      omega)
    rw [hnext, hrep.leafHashesRangeRaw (by omega) (by omega), ok_bind, head?_leafHashes (by omega)]
    simp only [okOr, ok_bind]
    -- an anchor with another root would be contradicted
    have hroot : mth crates.hashChildren (crates.digest []) ((leafHashes crates db).take cp.treeSize) = claimed := by
      by_contra hne
      have hviewed := seriesView_cases hview
      rw [refuseAtFloor_eq_ok, hviewed.floor, hviewed.divergences] at hfloor
      exact hnone cp ⟨hfound, by rw [hview]; rfl, hfloor, hheld, claimed, mapErr_eq_ok.1 hclaimed, hne⟩
    rw [← hroot, mth_leafHashes crates (by omega) hheld, hpath.verifyInclusion _ _ _ hcovers]
    exact .ok _
  · rintro (hindex | ⟨cp, h⟩)
    · refine ⟨.indexOverflow "manifest_entry_index", ?_, rfl⟩
      unfold rotationProofElement getRotationCheckpoint toI64
      rw [if_neg (by omega)]
      rfl
    · obtain ⟨hcovers, hsize⟩ : index < cp.treeSize ∧ cp.treeSize < i64Bound :=
        hbounded.rotations _ (getRotationCheckpoint_mem h.served)
      exact Contradicted.fault hproof hopens hrep hcovers hsize h

/-! ### Reads -/

/-- **A read answers `500` for a contradicted anchor, and for nothing else.** On the store of every schedule, the one
read answered with an internal error is that of a rotation whose index no entry can have, or whose anchor declares
another root than the entries have. -/
theorem reads_fault_iff (hprover : ViewLaws crates) (hsplit : SplitLaws crates) (hproof : InclusionProofLaws crates)
    (hconsistency : ConsistencyLaws crates) (hpath : PathLaws crates) (hopens : InclusionVerifyLaws crates)
    (hrange : RangeLaws crates) (base64 : Base64)
    (schedule : List Event) {request : Request} (hreads : request.Reads) :
    (respond base64 crates config (serverAfter crates config schedule).db request).2.status = .internalServerError ↔
      ∃ index, request = .rotationProof index ∧ (i64Bound ≤ index ∨
        ∃ cp, Contradicted crates config (serverAfter crates config schedule).db index cp) := by
  have hsound := (serverAfter_written crates config schedule).sound
  have hbounded := serverAfter_bounded crates config schedule
  have hfiled := (serverAfter_accounted crates config schedule).entries
  generalize (serverAfter crates config schedule).db = db at *
  cases request with
  | stage req => exact hreads.elim
  | promote req => exact hreads.elim
  | ingestCheckpoint req => exact hreads.elim
  | rotationProof index =>
    rw [show (respond base64 crates config db (.rotationProof index)).2 = Response.of _ _ from rfl, faulty_iff (by simp),
      rotationProofElement_fault_iff hprover hproof hconsistency hpath hopens hsound hbounded]
    simp
  | health => simp [respond]
  | retrieve entryId encoding =>
    refine iff_of_false ?_ (by simp)
    refine (retrieveById_faultless (fun row hrow => (hfiled row hrow).1.1) entryId).response fun value => ?_
    split
    · simp
    · split_ifs <;> simp
  | range req =>
    exact iff_of_false ((rangeHandler_faultless hprover hsplit hconsistency hrange hsound hbounded req).response (by simp)) (by simp)
  | listCheckpoints =>
    exact iff_of_false ((seriesView_faultless hprover hconsistency hsound hbounded).response (by simp)) (by simp)
  | getCheckpoint treeSize =>
    exact iff_of_false ((getCheckpointHandler_faultless hprover hconsistency hsound hbounded treeSize).response (by simp)) (by simp)
  | itub index =>
    refine iff_of_false ?_ (by simp)
    refine (itubHandler_faultless hprover hconsistency hsound hbounded index).response fun value => ?_
    split <;> simp
  | consistency fromSize toSize =>
    exact iff_of_false ((consistencyHandler_faultless hprover hconsistency hsound hbounded fromSize toSize).response (by simp))
      (by simp)

theorem Symbolic.inclusionVerifyLaws (documents : List (Bytes × Value)) : InclusionVerifyLaws (Symbolic.crates documents) where
  verifyInclusion {leaf root proof} h := by
    have h : (decide (proof.leafIndex < proof.treeSize) &&
        decide (openPath Symbolic.hashChildren proof.treeSize proof.leafIndex leaf proof.path = some root)) = true :=
      Except.ok.inj h
    rw [Bool.and_eq_true, decide_eq_true_eq, decide_eq_true_eq] at h
    exact h.2

/-- The first anchor of the run declares a third entry the log has not. -/
theorem reads_fault_iff_shadowed : (respond Symbolic.standard (Symbolic.crates Symbolic.documents) Symbolic.config
    (serverAfter (Symbolic.crates Symbolic.documents) Symbolic.config (oneAtATime Symbolic.shadowed)).db
      (.rotationProof 1)).2.status = .internalServerError := by
  have hafter : (serverAfter (Symbolic.crates Symbolic.documents) Symbolic.config (oneAtATime Symbolic.shadowed)).db =
      Symbolic.after Symbolic.shadowed := by
    rw [serverAfter_oneAtATime, Symbolic.after]
  have hreads : (Request.rotationProof 1).Reads := trivial
  refine (reads_fault_iff (Symbolic.viewLaws _) (Symbolic.splitLaws _) (Symbolic.inclusionProofLaws _)
    (Symbolic.consistencyLaws _) (Symbolic.pathLaws _)
    (Symbolic.inclusionVerifyLaws _) (Symbolic.rangeLaws _) Symbolic.standard (oneAtATime Symbolic.shadowed) hreads).2
      ⟨1, rfl, Or.inr ⟨Symbolic.laterAnchor 6 6, ?_⟩⟩
  rw [hafter]
  obtain ⟨hserved, hviewed, hfloor, hheld, hne⟩ :
      getRotationCheckpoint (Symbolic.after Symbolic.shadowed) 1 = .ok (some (Symbolic.laterAnchor 6 6)) ∧
      (seriesView (Symbolic.crates Symbolic.documents) Symbolic.config (Symbolic.after Symbolic.shadowed)).isOk = true ∧
      (∀ f ∈ (findRootDivergences (authenticatedCheckpoints (Symbolic.after Symbolic.shadowed))).min?,
        (Symbolic.laterAnchor 6 6).treeSize < f) ∧
      (Symbolic.laterAnchor 6 6).treeSize ≤ (Symbolic.after Symbolic.shadowed).entries.length ∧
      mth (Symbolic.crates Symbolic.documents).hashChildren ((Symbolic.crates Symbolic.documents).digest [])
        ((leafHashes (Symbolic.crates Symbolic.documents) (Symbolic.after Symbolic.shadowed)).take
          (Symbolic.laterAnchor 6 6).treeSize) ≠ Symbolic.rootOf [[1], [2], [6]] := by
    decide +kernel
  exact ⟨hserved, hviewed, hfloor, hheld, _, Symbolic.parseHashHex_hashText (Symbolic.rootOf [[1], [2], [6]]), hne⟩

end AhlMirror
