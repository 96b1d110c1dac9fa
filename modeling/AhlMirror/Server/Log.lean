import AhlMirror.Merkle.Binding
import AhlMirror.Model.Paired
import AhlMirror.Series.Provenance
import AhlMirror.Series.Usable
import AhlMirror.Server.Steps

/-!
# The mirror and the log

A promotion verifies an inclusion path, and over binding hashes a path opens a root for one entry at one
index. So a server that admits only checkpoints of one log holds a prefix of that log, whatever requests it
interleaves and whenever it restarts. Two mirrors need not be honest with each other: where each labels a
checkpoint usable, a consistency proof between the two roots exists exactly where the mirrors agree that far.
-/

namespace AhlMirror

open Merkle

variable {H K : Type} {crates : Crates H K} {config : Config K}

/-! ### What a verified path tells -/

theorem LeafLaws.logLeafHash (h : LeafLaws crates) : Function.Injective (logLeafHash crates) :=
  fun _ _ hsame => h.digest (h.computeLeafHash _ hsame)

theorem verifyInclusionFor_binding (hinclusion : InclusionLaws crates) (hverify : InclusionVerifyLaws crates)
    (hfree : CollisionFree crates) {leaves : List H} {bytes : Bytes} {leafIndex treeSize : Nat} {path : List String}
    (hlength : leaves.length = treeSize) (hok : verifyInclusionFor crates bytes leafIndex treeSize path
      (mth crates.hashChildren (crates.digest []) leaves) = .ok true) :
    leaves[leafIndex]? = some (logLeafHash crates bytes) := by
  unfold verifyInclusionFor at hok
  simp only [bind_eq_ok, mapErr_eq_ok] at hok
  obtain ⟨proof, hproof, hok⟩ := hok
  obtain ⟨rfl, hsize⟩ := hinclusion.proofFromHex hproof
  subst hlength
  have hindex := hinclusion.verifyInclusion hok
  have hopens := hverify.verifyInclusion hok
  rw [hsize] at hindex hopens
  have hleaf : ∀ i (h : i < leaves.length), leaves[i]?.getD (crates.digest []) = leaves[i] := fun i h => by simp [h]
  have hroot := mth_take crates.hashChildren (crates.digest []) leaves (fun i => leaves[i]?.getD (crates.digest []))
    (show 1 ≤ leaves.length by omega) le_rfl hleaf
  rw [List.take_length] at hroot
  rw [hroot] at hopens
  have hat := openPath_binding hfree.hashChildren hindex hopens
  rw [Nat.zero_add, hleaf _ hindex] at hat
  rw [List.getElem?_eq_getElem hindex, hat]

variable (crates) in
/-- The root the checkpoint declares is that of the log's first entries. -/
def OfLog (log : List Bytes) (cp : Checkpoint) : Prop :=
  cp.treeSize ≤ log.length ∧ crates.parseHashHex cp.rootHash =
    .ok (mth crates.hashChildren (crates.digest []) ((log.take cp.treeSize).map (logLeafHash crates)))

instance [DecidableEq H] (log : List Bytes) (cp : Checkpoint) : Decidable (OfLog crates log cp) :=
  inferInstanceAs (Decidable (_ ∧ _))

variable [HashOctets H] [DecidableEq H]

section log
variable (hinclusion : InclusionLaws crates) (hverify : InclusionVerifyLaws crates) (hfree : CollisionFree crates)
  (hleaf : LeafLaws crates)
include hinclusion hverify hfree hleaf

omit [HashOctets H] [DecidableEq H] in
theorem OfLog.entry {log : List Bytes} {cp : Checkpoint} (h : OfLog crates log cp) {bytes : Bytes} {leafIndex : Nat}
    {path : List String} {root : H} (hroot : crates.parseHashHex cp.rootHash = .ok root)
    (hok : verifyInclusionFor crates bytes leafIndex cp.treeSize path root = .ok true) : log[leafIndex]? = some bytes := by
  obtain rfl := Except.ok.inj (hroot.symm.trans h.2)
  have hlength : ((log.take cp.treeSize).map (logLeafHash crates)).length = cp.treeSize := by
    rw [List.length_map, List.length_take, Nat.min_eq_left h.1]
  have hat := verifyInclusionFor_binding hinclusion hverify hfree hlength hok
  rw [List.getElem?_map] at hat
  obtain ⟨entry, hentry, hsame⟩ := Option.map_eq_some_iff.1 hat
  rw [hleaf.logLeafHash hsame, List.getElem?_take] at hentry
  split_ifs at hentry
  exact hentry

end log

/-! ### A server of one log -/

section admits
variable (crates config)

/-- An admission that the event judges good names a checkpoint of the log. -/
def AdmitsFrom (log : List Bytes) (s : Server H) (event : Event) : Prop :=
  ∀ verdict ∈ s.judges crates config event, OfLog crates log verdict.1

instance (log : List Bytes) (s : Server H) (event : Event) : Decidable (AdmitsFrom crates config log s event) :=
  inferInstanceAs (Decidable (∀ verdict ∈ s.judges crates config event, OfLog crates log verdict.1))

end admits

variable (crates) in
/-- A request that may write names a checkpoint of the log. -/
def InFlight.FromLog (log : List Bytes) : InFlight H → Prop
  | .promoting checkpoint _ => OfLog crates log checkpoint
  | .judging _ _ _ _ _ _ _ _ => True
  | .admitting cp _ _ _ _ _ => OfLog crates log cp

variable (crates) in
structure FollowsLog (log : List Bytes) (s : Server H) : Prop where
  entries : ∀ row ∈ s.db.entries, log[row.entryIndex]? = some row.envelope
  checkpoints : ∀ cp ∈ s.db.checkpoints, OfLog crates log cp
  inFlight : ∀ request ∈ s.inFlight, request.FromLog crates log

section follow
variable (hinclusion : InclusionLaws crates) (hverify : InclusionVerifyLaws crates) (hfree : CollisionFree crates)
  (hleaf : LeafLaws crates) {log : List Bytes}
include hinclusion hverify hfree hleaf

theorem Stepped.followsLog {s after : Server H} {event : Event} (hs : s.Sound crates config)
    (h : FollowsLog crates log s) (hfrom : AdmitsFrom crates config log s event)
    (hstep : Stepped crates config s event after) : FollowsLog crates log after := by
  have herase : ∀ position, ∀ request ∈ s.inFlight.eraseIdx position, request.FromLog crates log :=
    fun position request hrequest => h.inFlight request (List.mem_of_mem_eraseIdx hrequest)
  have hplaces : ∀ {cp : Checkpoint} {batch : List PendingPromotion} {mid : Db}, OfLog crates log cp →
      Places crates cp batch s.db mid → ∀ row ∈ mid.entries, log[row.entryIndex]? = some row.envelope := by
    intro cp batch mid hof hplaces row hrow
    rcases hplaces.rows row hrow with hold | ⟨p, -, -, -, -, root, hroot, hok⟩
    · exact h.entries row hold
    · exact hof.entry hinclusion hverify hfree hleaf hroot hok
  have hjoin : ∀ {request : InFlight H}, request.FromLog crates log →
      FollowsLog crates log ⟨s.db, s.inFlight ++ [request]⟩ :=
    fun hof => ⟨h.entries, h.checkpoints, forall_mem_concat h.inFlight hof⟩
  have hput : ∀ {position : Nat} {request : InFlight H}, request.FromLog crates log →
      FollowsLog crates log ⟨s.db, s.inFlight.set position request⟩ :=
    fun hof => ⟨h.entries, h.checkpoints, forall_mem_set h.inFlight hof⟩
  cases hstep with
  | idle => exact h
  | staged hstage =>
    obtain ⟨staged, -, rfl⟩ := stageEntry_staged hstage
    exact ⟨h.entries, h.checkpoints, h.inFlight⟩
  | began hbegin =>
    obtain ⟨claimedRoot, canonical, rfl, -⟩ := beginAdmission_cases hs.represents hbegin
    exact hjoin trivial
  | turned => exact hput trivial
  | judged hat hverdict => exact hput (hfrom _ (Server.judges_of_verdict hat hverdict))
  | read hget => exact hjoin (h.checkpoints _ (getCheckpoint_mem hget).1)
  | failed position => exact ⟨h.entries, h.checkpoints, herase position⟩
  | @promoted position cp req outcome db hat hpromote =>
    have hof : OfLog crates log cp := h.inFlight _ (List.mem_of_getElem? hat)
    have hgrow := (promoteEntryIn_grow hs.represents hpromote).2
    exact ⟨hplaces hof (promoteEntryIn_places (p := ⟨req.entryId, req.leafIndex, req.inclusionPath⟩) hs.represents hpromote),
      fun row hrow => h.checkpoints row (hgrow.checkpoints ▸ hrow), herase position⟩
  | @committed position cp raw batch rotationFor claimedRoot admission db hat hcommit =>
    have hof : OfLog crates log cp := h.inFlight _ (List.mem_of_getElem? hat)
    obtain ⟨-, mid, recorded, hcommitted⟩ := commitAdmission_cases hcommit
    refine ⟨fun row hrow => ?_, fun row hrow => ?_, herase position⟩
    · exact hplaces hof (promoteBatch_places hs.represents hcommitted.batch) row (hcommitted.entries.1 ▸ hrow)
    · rcases hcommitted.checkpoints hs.represents hrow with hold | ⟨rfl, -⟩
      · exact h.checkpoints row hold
      · exact hof
  | restarted => exact ⟨h.entries, h.checkpoints, by simp⟩

theorem serverAfter_fromLog {schedule : List Event}
    (hfrom : (server crates config).Along (AdmitsFrom crates config log) Server.init schedule) :
    canonicalEntries (serverAfter crates config schedule).db <+: log := by
  have hfollows : FollowsLog crates log (serverAfter crates config schedule) :=
    server_keeps_along ⟨by simp [Server.init, Db.empty], by simp [Server.init, Db.empty], by simp [Server.init]⟩
      (fun s event after hs h hP hstep => hstep.followsLog hinclusion hverify hfree hleaf hs h hP) hfrom
  have hrep := (serverAfter_sound crates config schedule).represents
  refine List.prefix_iff_getElem?.2 fun i hi => ?_
  have hi' : i < (serverAfter crates config schedule).db.entries.length := by simpa using hi
  have hat := hfollows.entries _ (List.getElem_mem hi')
  rw [hrep.contiguous.getElem hi'] at hat
  rw [hat]
  simp [canonicalEntries]

/-- **A mirror of one log holds a prefix of it.** In every schedule, however its requests interleave and
wherever it restarts, whose admissions name checkpoints of the log only, the canonical entries are the log's
first entries, byte for byte. -/
theorem mirror_prefix_of_log {schedule : List Event}
    (hfrom : (server crates config).Along (AdmitsFrom crates config log) Server.init schedule) :
    canonicalEntries (serverAfter crates config schedule).db <+: log :=
  serverAfter_fromLog hinclusion hverify hfree hleaf hfrom

end follow

namespace Symbolic

/-- An admission lost to a restart, one that commits, and one that a standalone promotion overtakes. -/
def overtaken : List Event :=
  let cp := checkpoint "A" 2 (Binding.root [[1], [5]]) 5
  let admission := ingest cp [Binding.pending [[1], [5]] 0]
  [.arrive (stage 1), .arrive (stage 5), .arrive admission, .advance 0, .restart, .arrive admission, .advance 0,
    .advance 0, .advance 0, .arrive (promote 2 (Binding.pending [[1], [5]] 1)), .arrive admission, .advance 1, .advance 0,
    .advance 0, .advance 0]

end Symbolic

theorem mirror_prefix_of_log_overtaken :
    canonicalEntries (serverAfter Symbolic.binding Symbolic.config Symbolic.overtaken).db = [[1], [5]] ∧
      canonicalEntries (serverAfter Symbolic.binding Symbolic.config Symbolic.overtaken).db <+: [[1], [5], [6]] :=
  ⟨by decide +kernel, mirror_prefix_of_log Symbolic.Binding.inclusionLaws Symbolic.Binding.inclusionVerifyLaws
    Symbolic.Binding.collisionFree Symbolic.Binding.leafLaws (by decide +kernel)⟩

/-! ### Two mirrors -/

section audit
variable (hprover : ViewLaws crates) (hconsistency : ConsistencyLaws crates)
  (hverify : ConsistencyVerifyLaws crates) (hfree : CollisionFree crates) (hleaf : LeafLaws crates)

omit [HashOctets H] [DecidableEq H] in
include hconsistency hverify hfree hleaf in
theorem UsableRow.consistent_iff {db other : Db} {older newer : Checkpoint} (holder : UsableRow crates db older)
    (hnewer : UsableRow crates other newer) (hpos : 1 ≤ older.treeSize) (hle : older.treeSize ≤ newer.treeSize) :
    (∃ path, crates.verifyConsistency ⟨older.treeSize, newer.treeSize, path⟩
        (mth crates.hashChildren (crates.digest []) ((leafHashes crates db).take older.treeSize))
        (mth crates.hashChildren (crates.digest []) ((leafHashes crates other).take newer.treeSize)) = .ok true) ↔
      (canonicalEntries db).take older.treeSize = (canonicalEntries other).take older.treeSize := by
  have hheld : older.treeSize ≤ other.entries.length := hle.trans hnewer.held
  have holdRoot := mth_leafHashes crates hpos hheld
  have hnewRoot := mth_leafHashes crates (hpos.trans hle) hnewer.held
  have hentries : (leafHashes crates db).take older.treeSize = (leafHashes crates other).take older.treeSize ↔
      (canonicalEntries db).take older.treeSize = (canonicalEntries other).take older.treeSize := by
    unfold leafHashes
    rw [← List.map_take, ← List.map_take]
    exact (List.map_injective_iff.2 hleaf.logLeafHash).eq_iff
  rw [hnewRoot, ← hentries]
  constructor
  · rintro ⟨path, hok⟩
    have hopens := hverify.verifyConsistency hpos hle hok
    have hbound := openConsistency_binding hfree.hashChildren hpos hle hopens
    refine mth_binding hfree.hashChildren ?_ (hbound.trans holdRoot.symm)
    have hdb := holder.held
    rw [List.length_take, List.length_take, length_leafHashes, length_leafHashes]
    omega
  · intro hsame
    rw [hsame, holdRoot]
    exact ⟨_, hconsistency.verifyConsistency (leafAt crates other) _ _ hpos hle⟩

include hprover hconsistency in
theorem serverAfter_usable (schedule : List Event) {view : SeriesView} {cp : Checkpoint}
    (hview : seriesView crates config (serverAfter crates config schedule).db = .ok view)
    (hcp : cp ∈ usableCheckpoints view.members) :
    1 ≤ cp.treeSize ∧ UsableRow crates (serverAfter crates config schedule).db cp := by
  have hsound := (serverAfter_written crates config schedule).sound
  obtain ⟨hrow, -, husable⟩ := ((seriesView_cases hview).mem_usable_iff hprover hconsistency hsound.represents
    hsound.positive).1 hcp
  exact ⟨hsound.positive cp hrow, husable⟩

include hprover hconsistency hverify hfree hleaf in
/-- **Mirrors can be audited against each other.** Take a checkpoint that one mirror labels usable and a later
one that another does, under whatever configurations and after whatever schedules. Their roots parse, and
there is a path that proves the two roots consistent exactly where the mirrors hold the same entries below
the older size. -/
theorem mirrors_consistent_iff {config' : Config K} (schedule schedule' : List Event) {view view' : SeriesView}
    {older newer : Checkpoint} (hview : seriesView crates config (serverAfter crates config schedule).db = .ok view)
    (hview' : seriesView crates config' (serverAfter crates config' schedule').db = .ok view')
    (holder : older ∈ usableCheckpoints view.members) (hnewer : newer ∈ usableCheckpoints view'.members)
    (hle : older.treeSize ≤ newer.treeSize) :
    ∃ oldRoot newRoot, crates.parseHashHex older.rootHash = .ok oldRoot ∧ crates.parseHashHex newer.rootHash = .ok newRoot ∧
      ((∃ path, crates.verifyConsistency ⟨older.treeSize, newer.treeSize, path⟩ oldRoot newRoot = .ok true) ↔
        (canonicalEntries (serverAfter crates config schedule).db).take older.treeSize =
          (canonicalEntries (serverAfter crates config' schedule').db).take older.treeSize) := by
  obtain ⟨hpos, husable⟩ := serverAfter_usable hprover hconsistency schedule hview holder
  obtain ⟨-, husable'⟩ := serverAfter_usable hprover hconsistency schedule' hview' hnewer
  exact ⟨_, _, husable.root, husable'.root, husable.consistent_iff hconsistency hverify hfree hleaf husable' hpos hle⟩

end audit

namespace Symbolic

/-- The small log mirrored up to `[5]`, and another that forks at the second entry and goes on. -/
def straight : List Event :=
  oneAtATime [stage 1, stage 5, ingest (checkpoint "A" 2 (Binding.root [[1], [5]]) 5)
    [Binding.pending [[1], [5]] 0, Binding.pending [[1], [5]] 1]]

def forked : List Event :=
  oneAtATime [stage 1, stage 6, stage 7, ingest (checkpoint "A" 3 (Binding.root [[1], [6], [7]]) 5)
    [Binding.pending [[1], [6], [7]] 0, Binding.pending [[1], [6], [7]] 1, Binding.pending [[1], [6], [7]] 2]]

/-- What a view of one usable member says. -/
def soleView (cp : Checkpoint) : SeriesView := ⟨[⟨cp, .seriesUsable⟩], some cp.treeSize, none, [], none⟩

theorem mem_soleView (cp : Checkpoint) : cp ∈ usableCheckpoints (soleView cp).members := List.mem_singleton_self cp

end Symbolic

theorem mirrors_consistent_iff_forked : ∃ oldRoot newRoot,
    Symbolic.binding.parseHashHex (Symbolic.checkpoint "A" 2 (Symbolic.Binding.root [[1], [5]]) 5).rootHash = .ok oldRoot ∧
    Symbolic.binding.parseHashHex (Symbolic.checkpoint "A" 3 (Symbolic.Binding.root [[1], [6], [7]]) 5).rootHash =
      .ok newRoot ∧
    ∀ path, Symbolic.binding.verifyConsistency ⟨2, 3, path⟩ oldRoot newRoot ≠ .ok true := by
  obtain ⟨hview, hentries⟩ : seriesView Symbolic.binding Symbolic.config
        (serverAfter Symbolic.binding Symbolic.config Symbolic.straight).db =
        .ok (Symbolic.soleView (Symbolic.checkpoint "A" 2 (Symbolic.Binding.root [[1], [5]]) 5)) ∧
      canonicalEntries (serverAfter Symbolic.binding Symbolic.config Symbolic.straight).db = [[1], [5]] := by
    decide +kernel
  obtain ⟨hview', hentries'⟩ : seriesView Symbolic.binding Symbolic.config
        (serverAfter Symbolic.binding Symbolic.config Symbolic.forked).db =
        .ok (Symbolic.soleView (Symbolic.checkpoint "A" 3 (Symbolic.Binding.root [[1], [6], [7]]) 5)) ∧
      canonicalEntries (serverAfter Symbolic.binding Symbolic.config Symbolic.forked).db = [[1], [6], [7]] := by
    decide +kernel
  obtain ⟨oldRoot, newRoot, hold, hnew, hiff⟩ := mirrors_consistent_iff Symbolic.Binding.viewLaws
    Symbolic.Binding.consistencyLaws Symbolic.Binding.consistencyVerifyLaws Symbolic.Binding.collisionFree
    Symbolic.Binding.leafLaws Symbolic.straight Symbolic.forked hview hview' (Symbolic.mem_soleView _)
    (Symbolic.mem_soleView _) (by decide +kernel)
  rw [hentries, hentries'] at hiff
  refine ⟨oldRoot, newRoot, hold, hnew, fun path hok => ?_⟩
  have hsame := hiff.1 ⟨path, hok⟩
  revert hsame
  decide +kernel

end AhlMirror
