import AhlMirror.Model.Paired
import AhlMirror.Series.Retry
import AhlMirror.Series.View
import AhlMirror.Server.Account

/-!
# Interleaved requests, one at a time

A promotion carries the checkpoint it read and an admission the verdict it was given, so a request may commit
what it would not be answered if it began only then. Two conditions rule that out: no two series members of
one size differ in their roots, so whichever of them a promotion reads is as good; and an admission is judged
on its whole prefix, which no other request can add to. Under these a schedule is serializable: its requests,
run one at a time in the order they finish, leave the same store.
-/

namespace AhlMirror

open AhlMirror.Core (Machine)

variable {H K : Type} [HashOctets H] {crates : Crates H K} {config : Config K}

/-! ### Promotions -/

theorem promoteEntryIn_congr {cp cp' : Checkpoint} (hsize : cp'.treeSize = cp.treeSize) (hroot : cp'.rootHash = cp.rootHash)
    (db : Db) (entryId : String) (leafIndex : Nat) (path : List String) :
    promoteEntryIn crates db cp' entryId leafIndex path = promoteEntryIn crates db cp entryId leafIndex path := by
  unfold promoteEntryIn
  rw [hsize, hroot]

omit [HashOctets H] in
theorem getCheckpoint_of_mem {db : Db} {cp : Checkpoint} (hcp : cp ∈ db.checkpoints) (hsize : cp.treeSize < i64Bound) :
    ∃ found, getCheckpoint db cp.treeSize = .ok (some found) := by
  unfold getCheckpoint
  rw [toI64_of_lt hsize, ok_bind]
  cases hhead : ((db.checkpoints.filter fun row => row.treeSize == cp.treeSize).insertionSort
      fun a b => b.checkpointTime ≤ a.checkpointTime).head? with
  | some found => exact ⟨found, rfl⟩
  | none =>
    rw [List.head?_eq_none_iff] at hhead
    have hmem : cp ∈ (db.checkpoints.filter fun row => row.treeSize == cp.treeSize).insertionSort
        fun a b => b.checkpointTime ≤ a.checkpointTime :=
      (List.mem_insertionSort _).2 (List.mem_filter.2 ⟨hcp, by simp⟩)
    rw [hhead] at hmem
    exact absurd hmem List.not_mem_nil

/-! ### Admissions -/

theorem promoteBatch_verified {cp : Checkpoint} {root : H} (hroot : crates.parseHashHex cp.rootHash = .ok root) :
    ∀ {batch : List PendingPromotion} {db after : Db}, Represents crates db → promoteBatch crates cp batch db = .ok after →
      ∀ p ∈ batch, ∃ bytes, getStagedRaw db p.entryId = some bytes ∧
        verifyInclusionFor crates bytes p.leafIndex cp.treeSize p.inclusionPath root = .ok true
  | [], _, _, _, _, p, hp => absurd hp List.not_mem_nil
  | first :: rest, db, after, hrep, h, p, hp => by
    simp only [promoteBatch, bind_eq_ok] at h
    obtain ⟨⟨outcome, mid⟩, hpromote, hrest⟩ := h
    obtain ⟨hrep', hgrow⟩ := promoteEntryIn_grow hrep hpromote
    rcases List.mem_cons.1 hp with rfl | hp
    · simp only [promoteEntryIn, bind_eq_ok, ite_error_eq_ok, okOr_eq_ok, mapErr_eq_ok] at hpromote
      obtain ⟨bytes, hstaged, root', hroot', included, hincluded, htrue, -⟩ := hpromote
      obtain rfl := Except.ok.inj (hroot'.symm.trans hroot)
      have htrue : included = true := by simpa using htrue
      exact ⟨bytes, hstaged, htrue ▸ hincluded⟩
    · obtain ⟨bytes, hstaged, hverified⟩ := promoteBatch_verified hroot hrep' hrest p hp
      unfold getStagedRaw at hstaged ⊢
      rw [hgrow.staged] at hstaged
      exact ⟨bytes, hstaged, hverified⟩

omit [HashOctets H] in
theorem overlayPending_completes {db : Db} (canonicalLen : Nat) {target : Nat} {root : H} {batch : List PendingPromotion}
    (h : ∀ p ∈ batch, ∃ bytes, getStagedRaw db p.entryId = some bytes ∧
      verifyInclusionFor crates bytes p.leafIndex target p.inclusionPath root = .ok true) (overlay : Overlay) :
    ∃ after, batch.foldlM (overlayPending crates db canonicalLen target root) overlay = .ok after := by
  induction batch generalizing overlay with
  | nil => exact ⟨overlay, rfl⟩
  | cons p rest ih =>
    obtain ⟨bytes, hstaged, hverified⟩ := h p List.mem_cons_self
    have hturn : ∃ next, overlayPending crates db canonicalLen target root overlay p = .ok next := by
      unfold overlayPending
      split_ifs
      · exact ⟨_, rfl⟩
      · exact ⟨_, rfl⟩
      · exact ⟨_, rfl⟩
      · rw [hstaged, okOr, ok_bind, hverified, ok_bind, if_neg (by decide)]
        exact ⟨_, rfl⟩
    obtain ⟨next, hnext⟩ := hturn
    obtain ⟨after, hafter⟩ := ih (fun q hq => h q (List.mem_cons_of_mem _ hq)) next
    exact ⟨after, by rw [List.foldlM_cons, hnext]; exact hafter⟩

theorem buildVisiblePrefix_promoted {db mid : Db} {cp : Checkpoint} {batch : List PendingPromotion} {root : H}
    (hrep : Represents crates db) (hsize : cp.treeSize < i64Bound) (hroot : crates.parseHashHex cp.rootHash = .ok root)
    (hpromote : promoteBatch crates cp batch db = .ok mid) :
    buildVisiblePrefix crates db batch cp.treeSize root = .ok ((canonicalEntries mid).take cp.treeSize) := by
  obtain ⟨overlay, hoverlay⟩ := overlayPending_completes ((canonicalEntries db).take cp.treeSize).length
    (promoteBatch_verified hroot hrep hpromote) []
  have hnow : ∃ now, buildVisiblePrefix crates db batch cp.treeSize root = .ok now := by
    unfold buildVisiblePrefix
    rw [hrep.toCanonical.entriesPrefix hsize, ok_bind, hoverlay, ok_bind]
    exact ⟨_, rfl⟩
  obtain ⟨now, hnow⟩ := hnow
  rw [hnow, visiblePrefix_eq_promoted hrep hsize hnow hpromote]

/-- Where the batch goes through, an admission that had its whole prefix in view still has the same one. -/
theorem buildVisiblePrefix_steady {judged db mid : Db} {cp : Checkpoint} {batch : List PendingPromotion} {root : H}
    {visible : List Bytes} (hjudged : Represents crates judged) (hrep : Represents crates db) (hgrow : Grows judged db)
    (hsize : cp.treeSize < i64Bound) (hroot : crates.parseHashHex cp.rootHash = .ok root)
    (hvisible : buildVisiblePrefix crates judged batch cp.treeSize root = .ok visible)
    (hwhole : visible.length = cp.treeSize) (hpromote : promoteBatch crates cp batch db = .ok mid) :
    buildVisiblePrefix crates db batch cp.treeSize root = .ok visible := by
  have hseen := visiblePrefix_committed hjudged hrep hgrow hsize hvisible hpromote
  rw [buildVisiblePrefix_promoted hrep hsize hroot hpromote, ← hwhole]
  exact congrArg Except.ok (List.prefix_iff_eq_take.1 hseen).symm

variable [DecidableEq H]

/-! ### The order of finishing -/

/-- The call an event completes: its own, or that of the request it takes through the last lock. -/
def Server.completes (s : Server H) : Event → List Call
  | .arrive (.stage claimedEntryId bytes atlMetadata) => [.stage claimedEntryId bytes atlMetadata]
  | .arrive _ => []
  | .advance position =>
    match s.inFlight[position]? with
    | some (.promoting _ req) => [.promote req]
    | some (.admitting cp raw entriesToPromote rotationFor _ _) => [.ingest cp raw entriesToPromote rotationFor]
    | _ => []
  | .restart => []

variable (crates config) in
/-- The calls a schedule completes, in order. -/
def completed : Server H → List Event → List Call
  | _, [] => []
  | s, event :: rest => s.completes event ++ completed ((server crates config).next s event) rest

def arrivals (schedule : List Event) : List Call :=
  schedule.filterMap fun
    | .arrive call => some call
    | _ => none

/-! ### The two conditions -/

section judges
variable (crates config)

/-- An admission that the event judges good has its whole prefix in view. -/
def JudgesWhole (s : Server H) (event : Event) : Prop :=
  ∀ verdict ∈ s.judges crates config event, verdict.2.length = verdict.1.treeSize

instance (s : Server H) (event : Event) : Decidable (JudgesWhole crates config s event) :=
  inferInstanceAs (Decidable (∀ verdict ∈ s.judges crates config event, verdict.2.length = verdict.1.treeSize))

end judges

/-- Series members of one size have one root. -/
def OneRoot (db : Db) : Prop :=
  ∀ a ∈ db.checkpoints, ∀ b ∈ db.checkpoints, a.treeSize = b.treeSize → a.rootHash = b.rootHash

theorem OneRoot.of_grows {db after : Db} (h : OneRoot after) (hgrow : Grows db after) : OneRoot db :=
  fun a ha b hb => h a (hgrow.checkpoints.subset ha) b (hgrow.checkpoints.subset hb)

theorem Viewed.oneRoot {db : Db} {view : SeriesView} (h : Viewed crates config db view)
    (hnone : view.equivocationFloor = none) : OneRoot db := by
  intro a ha b hb hsize
  by_contra hroot
  have hmem : a.treeSize ∈ view.rootDivergences := by
    rw [h.divergences, mem_rootDivergences]
    exact ⟨a, mem_authenticatedCheckpoints.2 (Or.inl ha), b, mem_authenticatedCheckpoints.2 (Or.inl hb), rfl, hsize.symm, hroot⟩
  obtain ⟨floor, hfloor, -⟩ := h.floor_le hmem
  rw [hnone] at hfloor
  cases hfloor

variable (crates config) in
/-- An admission in flight was judged on its whole prefix. -/
def InFlight.Whole (db : Db) : InFlight H → Prop
  | .promoting _ _ => True
  | .judging _ _ _ _ _ _ _ _ => True
  | .admitting cp raw batch rotationFor claimedRoot admission => ∃ judged visible, Represents crates judged ∧
      Grows judged db ∧ crates.parseHashHex cp.rootHash = .ok claimedRoot ∧ cp.treeSize < i64Bound ∧
      judgeCheckpoint crates config judged cp raw batch rotationFor = .ok (claimedRoot, admission) ∧
      buildVisiblePrefix crates judged batch cp.treeSize claimedRoot = .ok visible ∧ visible.length = cp.treeSize

omit [DecidableEq H] in
theorem InFlight.Whole.grow {db after : Db} {request : InFlight H} (h : request.Whole crates config db)
    (hgrow : Grows db after) : request.Whole crates config after := by
  cases request with
  | promoting => trivial
  | judging => trivial
  | admitting =>
    obtain ⟨judged, visible, hrep, hgrow', hrest⟩ := h
    exact ⟨judged, visible, hrep, hgrow'.trans hgrow, hrest⟩

theorem Stepped.whole {s after : Server H} {event : Event} (hs : s.Sound crates config)
    (h : ∀ request ∈ s.inFlight, request.Whole crates config s.db) (hwhole : JudgesWhole crates config s event)
    (hstep : Stepped crates config s event after) : ∀ request ∈ after.inFlight, request.Whole crates config after.db := by
  have hgrow := (hstep.keeps hs).2
  have herase : ∀ position, ∀ request ∈ s.inFlight.eraseIdx position, request.Whole crates config after.db :=
    fun position request hrequest => (h request (List.mem_of_mem_eraseIdx hrequest)).grow hgrow
  cases hstep with
  | idle => exact h
  | staged hstage => exact fun request hrequest => (h request hrequest).grow hgrow
  | began hbegin =>
    obtain ⟨claimedRoot, canonical, rfl, -⟩ := beginAdmission_cases hs.represents hbegin
    exact forall_mem_concat h trivial
  | turned => exact forall_mem_set h trivial
  | judged hat hverdict =>
    have hgathered : Gathered crates s.db _ _ _ _ _ _ := hs.based _ (List.mem_of_getElem? hat)
    obtain ⟨judged, hrep, hgrow, hvisible⟩ := hgathered.visiblePrefix
    have hjudge := hgathered.judgeCheckpoint hvisible hverdict
    obtain ⟨visible, list, active, hjudged⟩ := judgeCheckpoint_cases hjudge
    exact forall_mem_set h ⟨judged, _, hrep, hgrow, hgathered.root, hjudged.size, hjudge, hvisible,
      hwhole _ (Server.judges_of_verdict hat hverdict)⟩
  | read => exact forall_mem_concat h trivial
  | failed position => exact herase position
  | promoted => exact herase _
  | committed => exact herase _
  | restarted => exact fun request hrequest => absurd hrequest List.not_mem_nil

/-! ### One event -/

theorem promote_serial {db : Db} {cp : Checkpoint} {req : PromoteRequest} (hroots : OneRoot db)
    (hbased : InFlight.Based crates config db (.promoting cp req)) :
    (promoteEntry crates db cp req.entryId req.leafIndex req.inclusionPath).1 = (serve crates config db (.promote req)).1 := by
  obtain ⟨hmember, hsize, hbound⟩ := hbased
  obtain ⟨found, hfound⟩ := getCheckpoint_of_mem hmember (hsize ▸ hbound)
  rw [hsize] at hfound
  obtain ⟨hfoundMember, hfoundSize, -⟩ := getCheckpoint_mem hfound
  have hsame : cp.treeSize = found.treeSize := hsize.trans hfoundSize.symm
  unfold serve promoteHandler
  dsimp only
  rw [hfound]
  unfold promoteEntry
  simp only [promoteEntryIn_congr hsame (hroots cp hmember found hfoundMember hsame)]

/-- An admission that was judged on its whole prefix is judged alike when it commits. -/
theorem admit_serial {db : Db} {cp : Checkpoint} {raw : Option Bytes} {batch : List PendingPromotion}
    {rotationFor : Option Nat} {claimedRoot : H} {admission : Admission} (hrep : Represents crates db)
    (hwhole : InFlight.Whole crates config db (.admitting cp raw batch rotationFor claimedRoot admission)) :
    (withTransaction db (commitAdmission crates cp batch claimedRoot admission)).1 =
      (ingestCheckpoint crates config db cp raw batch rotationFor).1 := by
  obtain ⟨judged, visible, hjudged, hgrow, hroot, hsize, hjudge, hvisible, hlength⟩ := hwhole
  cases hbatch : promoteBatch crates cp batch db with
  | error e =>
    -- a batch that fails now fails whatever the verdict
    have hfails : ∀ (root : H) (verdict : Admission),
        withTransaction db (commitAdmission crates cp batch root verdict) = (db, .error e) := by
      intro root verdict
      unfold withTransaction commitAdmission
      rw [hbatch]
      rfl
    unfold ingestCheckpoint
    rw [hfails]
    cases judgeCheckpoint crates config db cp raw batch rotationFor with
    | error => rfl
    | ok verdict => exact (congrArg Prod.fst (hfails verdict.1 verdict.2)).symm
  | ok mid =>
    have hsteady := buildVisiblePrefix_steady hjudged hrep hgrow hsize hroot hvisible hlength hbatch
    unfold ingestCheckpoint
    rw [judgeCheckpoint_congr hroot (hsteady.trans hvisible.symm), hjudge]

theorem next_serial {s : Server H} (hs : s.Sound crates config)
    (hwhole : ∀ request ∈ s.inFlight, request.Whole crates config s.db) (hroots : OneRoot s.db) (event : Event) :
    ((server crates config).next s event).db = (mirror crates config).exec s.db (s.completes event) := by
  cases event with
  | arrive call =>
    show (s.arrive crates call).1.db = _
    unfold Server.arrive Server.completes
    cases call with
    | stage claimed bytes metadata => rfl
    | ingest cp raw batch rotationFor =>
      dsimp only
      cases beginAdmission crates s.db cp raw batch rotationFor <;> rfl
    | promote req =>
      dsimp only
      cases getCheckpoint s.db req.treeSize with
      | error e => rfl
      | ok found => cases found <;> rfl
  | advance position =>
    show (s.advance crates config position).1.db = _
    unfold Server.advance Server.completes
    dsimp only
    cases hat : s.inFlight[position]? with
    | none => rfl
    | some request =>
      have hmem := List.mem_of_getElem? hat
      cases request with
      | promoting cp req => exact promote_serial hroots (hs.based _ hmem)
      | judging cp raw batch rotationFor claimedRoot canonical overlay rest =>
        dsimp only
        cases continueAdmission crates config s.db cp raw batch rotationFor claimedRoot canonical overlay rest <;> rfl
      | admitting cp raw batch rotationFor claimedRoot admission => exact admit_serial hs.represents (hwhole _ hmem)
  | restart => exact hs.represents.reopened hs.schema

/-! ### A schedule -/

theorem exec_serial : ∀ (schedule : List Event) {s : Server H}, s.Sound crates config →
    (∀ request ∈ s.inFlight, request.Whole crates config s.db) →
    (server crates config).Along (JudgesWhole crates config) s schedule → OneRoot ((server crates config).exec s schedule).db →
      ((server crates config).exec s schedule).db = (mirror crates config).exec s.db (completed crates config s schedule)
  | [], _, _, _, _, _ => rfl
  | event :: rest, s, hs, hwhole, halong, hroots => by
    have hstep := next_stepped hs event
    obtain ⟨hs', hgrow⟩ := hstep.keeps hs
    have hlater : Grows ((server crates config).next s event).db ((server crates config).exec s (event :: rest)).db :=
      exec_grows hs' rest
    rw [completed, Machine.exec_append,
      ← next_serial hs hwhole (hroots.of_grows (hgrow.trans hlater)) event]
    exact exec_serial rest hs' (hstep.whole hs hwhole halong.1) halong.2 hroots

omit [HashOctets H] [DecidableEq H] in
theorem beginAdmission_call {db : Db} {cp : Checkpoint} {raw : Option Bytes} {batch : List PendingPromotion}
    {rotationFor : Option Nat} {request : InFlight H} (h : beginAdmission crates db cp raw batch rotationFor = .ok request) :
    request.call = .ingest cp raw batch rotationFor := by
  unfold beginAdmission at h
  simp only [ite_error_eq_ok, bind_eq_ok] at h
  obtain ⟨-, claimedRoot, -, canonical, -, h⟩ := h
  rw [← Except.ok.inj h]
  rfl

omit [DecidableEq H] in
theorem continueAdmission_call {db : Db} {cp : Checkpoint} {raw : Option Bytes} {batch rest : List PendingPromotion}
    {rotationFor : Option Nat} {claimedRoot : H} {canonical : List Bytes} {overlay : Overlay} {request : InFlight H}
    (h : continueAdmission crates config db cp raw batch rotationFor claimedRoot canonical overlay rest = .ok request) :
    request.call = .ingest cp raw batch rotationFor := by
  cases rest with
  | nil =>
    obtain ⟨admission, -, h⟩ := bind_eq_ok.1 h
    rw [← Except.ok.inj h]
    rfl
  | cons p rest =>
    obtain ⟨laid, -, h⟩ := bind_eq_ok.1 h
    rw [← Except.ok.inj h]
    rfl

variable (crates config) in
theorem next_calls (s : Server H) (event : Event) :
    (s.completes event ++ ((server crates config).next s event).inFlight.map InFlight.call).Subperm
      (s.inFlight.map InFlight.call ++ arrivals [event]) := by
  cases event with
  | arrive call =>
    show (s.completes (.arrive call) ++ (s.arrive crates call).1.inFlight.map InFlight.call).Subperm
      (s.inFlight.map InFlight.call ++ [call])
    unfold Server.arrive Server.completes
    cases call with
    | stage claimed bytes metadata => exact List.perm_append_comm.subperm
    | ingest cp raw batch rotationFor =>
      dsimp only
      cases hbegin : beginAdmission crates s.db cp raw batch rotationFor with
      | error e => exact (List.sublist_append_left _ _).subperm
      | ok request =>
        rw [List.map_append, List.map_singleton, beginAdmission_call hbegin]
        exact List.Subperm.refl _
    | promote req =>
      dsimp only
      rcases getCheckpoint s.db req.treeSize with e | _ | cp
      · exact (List.sublist_append_left _ _).subperm
      · exact (List.sublist_append_left _ _).subperm
      · rw [List.map_append]
        exact List.Subperm.refl _
  | advance position =>
    show (s.completes (.advance position) ++ (s.advance crates config position).1.inFlight.map InFlight.call).Subperm
      (s.inFlight.map InFlight.call ++ [])
    unfold Server.advance Server.completes
    dsimp only
    rw [List.append_nil]
    cases hat : s.inFlight[position]? with
    | none => exact List.Subperm.refl _
    | some request =>
      obtain ⟨hlt, hget⟩ := List.getElem?_eq_some_iff.1 hat
      -- a request that goes through the last lock, or fails before it, is taken out
      have hout : (request.call :: (s.inFlight.eraseIdx position).map InFlight.call).Subperm (s.inFlight.map InFlight.call) := by
        rw [← hget]
        exact ((List.getElem_cons_eraseIdx_perm hlt).map InFlight.call).subperm
      cases request with
      | promoting cp req => exact hout
      | judging cp raw batch rotationFor claimedRoot canonical overlay rest =>
        dsimp only
        cases hgoes : continueAdmission crates config s.db cp raw batch rotationFor claimedRoot canonical overlay rest with
        | error e => exact (List.sublist_cons_self _ _).subperm.trans hout
        | ok request =>
          have hsame : (s.inFlight.map InFlight.call)[position]? = some request.call := by
            rw [List.getElem?_map, hat, continueAdmission_call hgoes]
            rfl
          obtain ⟨hlt', hget'⟩ := List.getElem?_eq_some_iff.1 hsame
          rw [List.map_set, ← hget', List.set_getElem_self]
          exact List.Subperm.refl _
      | admitting cp raw batch rotationFor claimedRoot admission => exact hout
  | restart => exact List.nil_subperm

theorem completed_subperm : ∀ (schedule : List Event) (s : Server H),
    (completed crates config s schedule).Subperm (s.inFlight.map InFlight.call ++ arrivals schedule)
  | [], s => List.nil_subperm
  | event :: rest, s => by
    have hsplit : arrivals (event :: rest) = arrivals [event] ++ arrivals rest := List.filterMap_append (l := [event])
    have ih := completed_subperm rest ((server crates config).next s event)
    have hnext := (next_calls crates config s event).append (List.Subperm.refl (arrivals rest))
    rw [completed, hsplit, ← List.append_assoc]
    rw [List.append_assoc (s.completes event)] at hnext
    exact ((List.subperm_append_left _).2 ih).trans hnext

/-- **Requests are serializable.** Take a schedule whose admissions are each judged on their whole prefix, on a
mirror that ends without an equivocation floor. Running the calls it completes one at a time, in the order
they finish, leaves the same store; and each of these calls arrived, and runs no more often than it did. -/
theorem server_serializable {schedule : List Event} {view : SeriesView}
    (hwhole : (server crates config).Along (JudgesWhole crates config) Server.init schedule)
    (hview : seriesView crates config (serverAfter crates config schedule).db = .ok view)
    (hnone : view.equivocationFloor = none) :
    (serverAfter crates config schedule).db = storeAfter crates config (completed crates config Server.init schedule) ∧
      (completed crates config Server.init schedule).Subperm (arrivals schedule) :=
  ⟨exec_serial schedule Server.Sound.init (by simp [Server.init]) hwhole ((seriesView_cases hview).oneRoot hnone),
    completed_subperm schedule Server.init⟩

namespace Symbolic

/-- A promotion reads its checkpoint, then a larger admission arrives, is judged and commits before it. -/
def interleaved : List Event :=
  let held := checkpoint "A" 2 (Binding.root [[1], [5]]) 5
  let larger := checkpoint "A" 3 (Binding.root [[1], [5], [6]]) 6
  [.arrive (stage 1), .arrive (stage 5), .arrive (ingest held [Binding.pending [[1], [5]] 0, Binding.pending [[1], [5]] 1]),
    .advance 0, .advance 0, .advance 0, .advance 0, .arrive (promote 2 (Binding.pending [[1], [5]] 1)),
    .arrive (ingest larger [Binding.pending [[1], [5], [6]] 2]), .arrive (stage 6), .advance 1, .advance 1, .advance 1,
    .advance 0]

end Symbolic

theorem server_serializable_interleaved :
    canonicalEntries (serverAfter Symbolic.binding Symbolic.config Symbolic.interleaved).db = [[1], [5], [6]] ∧
      (serverAfter Symbolic.binding Symbolic.config Symbolic.interleaved).db =
        Symbolic.Binding.after (completed Symbolic.binding Symbolic.config Server.init Symbolic.interleaved) := by
  obtain ⟨hentries, hwhole, hview⟩ :
      canonicalEntries (serverAfter Symbolic.binding Symbolic.config Symbolic.interleaved).db = [[1], [5], [6]] ∧
      (server Symbolic.binding Symbolic.config).Along (JudgesWhole Symbolic.binding Symbolic.config) Server.init
        Symbolic.interleaved ∧
      ((seriesView Symbolic.binding Symbolic.config
        (serverAfter Symbolic.binding Symbolic.config Symbolic.interleaved).db).map (·.equivocationFloor)) = .ok none := by
    decide +kernel
  obtain ⟨view, hview, hnone⟩ := map_eq_ok.1 hview
  exact ⟨hentries, (server_serializable hwhole hview hnone).1⟩

end AhlMirror
