import AhlMirror.Series.Divergence
import AhlMirror.Series.Usable

/-!
# What a label says

The state of a member is computed on every call, from the entries held and the members before it. It
is nevertheless a fact about the entries alone (`Labelled`), admission checks the root by the same
measure, and a usable member stays one.
-/

namespace AhlMirror

open Merkle (mth)

variable {H K : Type} [HashOctets H] {crates : Crates H K} {config : Config K}

/-! ### Admission's own root check -/

theorem Represents.contradictsStored [DecidableEq H] (hsubtree : SubtreeLaws crates) {db : Db}
    (hrep : Represents crates db) {cp : Checkpoint} {claimedRoot : H} (hempty : cp.treeSize = 0 → RootLaws crates)
    (hbound : cp.treeSize < i64Bound)
    (hparse : crates.parseHashHex cp.rootHash = .ok claimedRoot) :
    ∃ refused, contradictsStored crates db cp.treeSize claimedRoot = .ok refused ∧
      (refused = true ↔ cp.treeSize ≤ db.entries.length ∧ ¬ UsableRow crates db cp) := by
  unfold AhlMirror.contradictsStored
  rw [hrep.holdsPrefix hbound]
  simp only [ok_bind, decide_eq_false_iff_not]
  by_cases hheld : cp.treeSize ≤ db.entries.length
  · rw [if_neg (not_not.2 hheld), hrep.logRootRaw hsubtree hempty hheld]
    refine ⟨_, rfl, ?_⟩
    have huse : UsableRow crates db cp ↔
        mth crates.hashChildren (crates.digest []) ((leafHashes crates db).take cp.treeSize) = claimedRoot :=
      ⟨fun h => Except.ok.inj (h.root.symm.trans hparse), fun h => ⟨hheld, h ▸ hparse⟩⟩
    rw [huse, decide_eq_true_iff]
    exact ⟨fun h => ⟨hheld, h⟩, And.right⟩
  · rw [if_pos hheld]
    exact ⟨false, rfl, by simp [hheld]⟩

omit [HashOctets H] in
theorem UsableRow.congr {db other : Db} {cp : Checkpoint} (h : UsableRow crates db cp)
    (hsame : canonicalEntries other = canonicalEntries db) : UsableRow crates other cp where
  held := by
    have hlength := congrArg List.length hsame
    rw [length_canonicalEntries, length_canonicalEntries] at hlength
    exact hlength ▸ h.held
  root := by
    unfold leafHashes
    rw [hsame]
    exact h.root

theorem Committed.usable [DecidableEq H] (hsubtree : SubtreeLaws crates) {cp : Checkpoint}
    {batch : List PendingPromotion} {claimedRoot : H} {admission : Admission}
    {db mid recorded after : Db} (hrep : Represents crates db)
    (h : Committed crates cp batch claimedRoot admission db mid recorded after) (hone : 1 ≤ cp.treeSize)
    (hbound : cp.treeSize < i64Bound) (hparse : crates.parseHashHex cp.rootHash = .ok claimedRoot)
    (hmember : admission.seriesMember = true)
    (hheld : cp.treeSize ≤ after.entries.length) : cp ∈ after.checkpoints ∧ UsableRow crates after cp := by
  have hsame := h.canonicalEntries
  have hmid : cp.treeSize ≤ mid.entries.length := by
    have hlength := congrArg List.length hsame
    rw [length_canonicalEntries, length_canonicalEntries] at hlength
    exact hlength ▸ hheld
  obtain ⟨refused, hrefused, hiff⟩ := (promoteBatch_grow hrep h.batch).1.contradictsStored hsubtree
    (fun hzero => by omega) hbound hparse
  obtain rfl := Except.ok.inj (hrefused.symm.trans h.agrees)
  constructor
  · obtain ⟨kept, -, -, rfl⟩ := insertRotationCheckpoints_cases h.rotations
    rcases recordSeriesMember_cases h.member with ⟨rfl, hmem⟩ | ⟨-, rfl, -⟩
    · exact hmem hmember
    · exact List.mem_append_right _ (List.mem_singleton_self cp)
  · have husable : UsableRow crates mid cp := by
      by_contra hnot
      exact absurd (hiff.2 ⟨hmid, hnot⟩) (by decide)
    exact husable.congr hsame

/-! ### The members of a view -/

variable [DecidableEq H]

/-- The members are the recorded checkpoints, a member is usable exactly where its prefix is held and its
root recomputes, and the last usable member before it never speaks against such a one. -/
structure Labelled (crates : Crates H K) (db : Db) (members : List ReportedCheckpoint) : Prop where
  recorded : members.map (·.checkpoint) = allCheckpoints db
  usable : ∀ m ∈ members, m.state = .seriesUsable ↔ UsableRow crates db m.checkpoint
  accepted : ∀ before m after pred, members = before ++ m :: after →
    (usableCheckpoints before).getLast? = some pred → UsableRow crates db m.checkpoint →
      seriesConsistencyStored crates db pred m.checkpoint = .ok true

omit [DecidableEq H] in
theorem Labelled.mem {db : Db} {members : List ReportedCheckpoint} (h : Labelled crates db members) {cp : Checkpoint}
    (hrow : cp ∈ db.checkpoints) (husable : UsableRow crates db cp) : ⟨cp, .seriesUsable⟩ ∈ members := by
  have hcp := mem_allCheckpoints.2 hrow
  rw [← h.recorded] at hcp
  obtain ⟨m, hm, rfl⟩ := List.mem_map.1 hcp
  obtain ⟨cp, state⟩ := m
  obtain rfl : state = .seriesUsable := (h.usable _ hm).2 husable
  exact hm

section laws
variable (hprover : ViewLaws crates) (hinclusion : InclusionLaws crates) (hconsistency : ConsistencyLaws crates)
include hprover hinclusion hconsistency

theorem Viewed.labelled {db : Db} (hreach : Reachable crates config db) {view : SeriesView}
    (h : Viewed crates config db view) : Labelled crates db view.members := by
  have haddressable := hreach.addressable hinclusion
  obtain ⟨members, hmembers, hmap, hcounted⟩ := judgeMembers_spec hprover hconsistency hreach.represents
    (allCheckpoints_sorted db) (fun cp hcp => hreach.rowsGoverned.positive (mem_allCheckpoints.1 hcp))
    (fun cp _ pred (hpred : pred ∈ none) => by simp at hpred)
  obtain rfl := Except.ok.inj (h.members.symm.trans hmembers)
  have hstates : ∀ m ∈ view.members, m.state = .seriesUsable ↔ UsableRow crates db m.checkpoint := fun m hm =>
    (hcounted m hm).trans (and_iff_right_of_imp fun husable => husable.held.trans_lt haddressable)
  refine ⟨hmap, hstates, fun before m after pred hsplit hlast husable => ?_⟩
  have hpred : pred ∈ usableCheckpoints before := List.mem_of_getLast? hlast
  have hearlier := mem_usableCheckpoints.1 hpred
  have hmem : ⟨pred, .seriesUsable⟩ ∈ view.members := hsplit ▸ List.mem_append_left _ hearlier
  -- the list is in series order, so the predecessor is no larger
  have hsorted := allCheckpoints_sorted db
  rw [← hmap, hsplit, List.map_append, List.map_cons] at hsorted
  have hle := (List.pairwise_append.1 hsorted).2.2 _ (List.mem_map_of_mem hearlier) _ List.mem_cons_self
  have hrow : pred ∈ allCheckpoints db := hmap ▸ List.mem_map_of_mem hmem
  exact husable.seriesConsistencyStored hprover hconsistency hreach.represents (husable.held.trans_lt haddressable)
    ⟨(hstates _ hmem).1 rfl, hreach.rowsGoverned.positive (mem_allCheckpoints.1 hrow), hle.treeSize_le⟩

/-- **A label says that the prefix is held and the root recomputes.** In every view that comes out of a
run the labels are exact and the consistency check refuses none of them; admission refuses for its root
exactly a checkpoint whose prefix is held and that would not be usable; a member admitted over a held
prefix is usable in the next view; and a usable member is usable in every later one. -/
theorem seriesUsable_exact (hempty : RootLaws crates) (calls : List Call) :
    (∀ view, seriesView crates config (storeAfter crates config calls) = .ok view →
      Labelled crates (storeAfter crates config calls) view.members) ∧
    (∀ cp batch mid claimedRoot, promoteBatch crates cp batch (storeAfter crates config calls) = .ok mid →
      cp.treeSize < i64Bound → crates.parseHashHex cp.rootHash = .ok claimedRoot →
        ∃ refused, contradictsStored crates mid cp.treeSize claimedRoot = .ok refused ∧
          (refused = true ↔ cp.treeSize ≤ mid.entries.length ∧ ¬ UsableRow crates mid cp)) ∧
    (∀ cp raw batch rotationFor admission view,
      (ingestCheckpoint crates config (storeAfter crates config calls) cp raw batch rotationFor).2 = .ok admission →
      admission.seriesMember = true →
      cp.treeSize ≤ (storeAfter crates config (calls ++ [.ingest cp raw batch rotationFor])).entries.length →
      seriesView crates config (storeAfter crates config (calls ++ [.ingest cp raw batch rotationFor])) = .ok view →
        ⟨cp, .seriesUsable⟩ ∈ view.members) ∧
    ∀ later view view', seriesView crates config (storeAfter crates config calls) = .ok view →
      seriesView crates config (storeAfter crates config (calls ++ later)) = .ok view' →
        ∀ m ∈ view.members, m.state = .seriesUsable → m ∈ view'.members := by
  have hlabelled : ∀ run view, seriesView crates config (storeAfter crates config run) = .ok view →
      Labelled crates (storeAfter crates config run) view.members := fun run view hview =>
    (seriesView_cases hview).labelled hprover hinclusion hconsistency ⟨run, rfl⟩
  have hrep := storeAfter_represents crates config calls
  refine ⟨hlabelled calls, fun cp batch mid claimedRoot hbatch hbound hparse =>
    (promoteBatch_grow hrep hbatch).1.contradictsStored hprover.toSubtreeLaws (fun _ => hempty) hbound hparse,
    fun cp raw batch rotationFor admission view hok hmember hheld hview => ?_, fun later view view' hview hview' m hm hstate => ?_⟩
  · have hafter := hlabelled _ view hview
    rw [storeAfter_ingest] at hheld hafter
    obtain ⟨claimedRoot, judged, hjudge, hcommit⟩ := ingestCheckpoint_eq_ok (Prod.ext rfl hok)
    obtain ⟨rfl, mid, recorded, hcommitted⟩ := commitAdmission_cases hcommit
    obtain ⟨visible, list, active, hjudged⟩ := judgeCheckpoint_cases hjudge
    obtain ⟨hrow, husable⟩ :=
      hcommitted.usable hprover.toSubtreeLaws hrep hjudged.positive hjudged.size hjudged.root hmember hheld
    exact hafter.mem hrow husable
  · have hbefore := hlabelled calls view hview
    have hgrow := storeAfter_grows crates config calls later
    have hrow : m.checkpoint ∈ (storeAfter crates config calls).checkpoints := by
      rw [← mem_allCheckpoints, ← hbefore.recorded]
      exact List.mem_map_of_mem hm
    have husable := ((hbefore.usable m hm).1 hstate).grow hgrow
    have hstay := (hlabelled _ view' hview').mem (hgrow.checkpoints.subset hrow) husable
    obtain ⟨cp, state⟩ := m
    obtain rfl : state = .seriesUsable := hstate
    exact hstay

end laws

namespace Symbolic

/-- A member over two entries, of which one is held, and a second one of its size. -/
def halfHeld : List Call := [stage 1, stage 5, ingest (checkpoint "A" 2 (rootOf [[1], [5]]) 5) [pending [[1], [5]] 0]]

def sameSize : Checkpoint := checkpoint "A" 2 (rootOf [[1], [5]]) 6

def halfHeldView : SeriesView := ⟨[⟨checkpoint "A" 2 (rootOf [[1], [5]]) 5, .authenticated⟩], none, none, [], none⟩

/-- The view once the second one came with the entry that was missing. -/
def sameSizeView : SeriesView :=
  ⟨[⟨checkpoint "A" 2 (rootOf [[1], [5]]) 5, .seriesUsable⟩, ⟨sameSize, .seriesUsable⟩], some 2, none, [], none⟩

end Symbolic

theorem seriesUsable_exact_sameSize :
    Labelled (Symbolic.crates Symbolic.documents) (Symbolic.after Symbolic.halfHeld) Symbolic.halfHeldView.members ∧
      ⟨Symbolic.sameSize, .seriesUsable⟩ ∈ Symbolic.sameSizeView.members := by
  have hview : seriesView (Symbolic.crates Symbolic.documents) Symbolic.config (Symbolic.after Symbolic.halfHeld) =
      .ok Symbolic.halfHeldView := by decide +kernel
  have hview' : seriesView (Symbolic.crates Symbolic.documents) Symbolic.config
      (Symbolic.after (Symbolic.halfHeld ++
        [Symbolic.ingest Symbolic.sameSize [Symbolic.pending [[1], [5]] 1]])) = .ok Symbolic.sameSizeView := by
    decide +kernel
  obtain ⟨hlabelled, -, hadmitted, -⟩ := @seriesUsable_exact _ _ _ _ Symbolic.config _
    (Symbolic.viewLaws Symbolic.documents) (Symbolic.inclusionLaws _) (Symbolic.consistencyLaws _) (Symbolic.rootLaws _)
    Symbolic.halfHeld
  refine ⟨hlabelled _ hview, hadmitted _ none _ none ⟨true, []⟩ _ ?_ rfl ?_ hview'⟩
  · decide +kernel
  · decide +kernel

end AhlMirror
