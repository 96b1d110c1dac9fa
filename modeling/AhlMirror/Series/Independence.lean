import AhlMirror.Series.Anchors
import AhlMirror.Series.Divergence
import AhlMirror.Store.Beside

/-!
# The series and the rotation rows

An admission files its rotation rows in the transaction that files the series member, and a row already
filed at the checkpoint's size and time with other content undoes both. So two stores that differ in
their rotation rows treat a submission alike exactly where they agree on such a clash.
-/

namespace AhlMirror

/-- The same store, its rotation rows aside. -/
def SameButRotations (db other : Db) : Prop := other = { db with rotationCheckpoints := other.rotationCheckpoints }

instance (db other : Db) : Decidable (SameButRotations db other) := inferInstanceAs (Decidable (_ = _))

/-- The same canonical entries, derived nodes and series members. -/
structure SameSeries (db other : Db) : Prop extends SameTree db other where
  checkpoints : other.checkpoints = db.checkpoints

/-- Two stores answer a submission alike: both with `Ok`, the same flag and the same series, or both with
an error and their series unchanged. -/
def Independent (db other : Db) (out otherOut : Db × MirrorResult Admission) : Prop :=
  (∃ admission otherAdmission, out.2 = .ok admission ∧ otherOut.2 = .ok otherAdmission ∧
    otherAdmission.seriesMember = admission.seriesMember ∧ SameSeries out.1 otherOut.1) ∨
  (∃ e otherE, out.2 = .error e ∧ otherOut.2 = .error otherE ∧ SameSeries db out.1 ∧ SameSeries other otherOut.1)

/-- Another checkpoint is filed for the rotation at this size and time. -/
def Clash (db : Db) (index : Nat) (cp : Checkpoint) : Prop :=
  ∃ held, (index, held) ∈ db.rotationCheckpoints ∧ held.treeSize = cp.treeSize ∧
    held.checkpointTime = cp.checkpointTime ∧ held ≠ cp

/-- No two rows of a rotation share their size and time. -/
def RotationsKeyed (db : Db) : Prop :=
  ∀ index a b, (index, a) ∈ db.rotationCheckpoints → (index, b) ∈ db.rotationCheckpoints →
    a.treeSize = b.treeSize → a.checkpointTime = b.checkpointTime → a = b

theorem SameButRotations.beside {db other : Db} (h : SameButRotations db other) : Beside db other := by
  rw [h]
  exact ⟨⟨rfl, rfl⟩, rfl, fun _ _ hstaged => hstaged⟩

theorem SameButRotations.not_excused {db other : Db} (h : SameButRotations db other) (e : MirrorError) :
    ¬ Excused db other e := by
  rintro ⟨entryId, -, hne⟩
  apply hne
  rw [h]
  rfl

theorem SameSeries.refl (db : Db) : SameSeries db db := ⟨SameTree.refl db, rfl⟩

theorem SameSeries.symm {db other : Db} (h : SameSeries db other) : SameSeries other db :=
  ⟨h.toSameTree.symm, h.checkpoints.symm⟩

theorem SameSeries.trans {a b c : Db} (h : SameSeries a b) (h' : SameSeries b c) : SameSeries a c :=
  ⟨⟨h'.entries.trans h.entries, h'.subtreeRoots.trans h.subtreeRoots⟩, h'.checkpoints.trans h.checkpoints⟩

theorem SameButRotations.symm {db other : Db} (h : SameButRotations db other) : SameButRotations other db := by
  unfold SameButRotations at h ⊢
  rw [h]

theorem Independent.refused {db other : Db} (e otherE : MirrorError) :
    Independent db other (db, .error e) (other, .error otherE) :=
  Or.inr ⟨e, otherE, rfl, rfl, SameSeries.refl db, SameSeries.refl other⟩

/-! ### The rotation rows -/

theorem RotationsKeyed.insert {db after : Db} (h : RotationsKeyed db) {index : Nat} {cp : Checkpoint}
    {outcome : InsertOutcome} (hinsert : insertRotationCheckpointRaw db index cp = .ok (outcome, after)) :
    RotationsKeyed after := by
  rcases insertRotationCheckpointRaw_cases hinsert with ⟨rfl, -⟩ | ⟨rfl, hfree⟩
  · exact h
  · -- a row of the same key would be served no later than the new one
    have hnew : ∀ held, (index, held) ∈ db.rotationCheckpoints → held.treeSize = cp.treeSize →
        held.checkpointTime = cp.checkpointTime → False :=
      fun held hheld hsize htime => hfree held hheld (Or.inr ⟨hsize, htime.le⟩)
    intro i a b ha hb hsize htime
    rcases List.mem_append.1 ha with hold | hadded <;> rcases List.mem_append.1 hb with hold' | hadded'
    · exact h i a b hold hold' hsize htime
    · obtain ⟨rfl, rfl⟩ := Prod.mk.inj (List.mem_singleton.1 hadded')
      exact (hnew a hold hsize htime).elim
    · obtain ⟨rfl, rfl⟩ := Prod.mk.inj (List.mem_singleton.1 hadded)
      exact (hnew b hold' hsize.symm htime.symm).elim
    · rw [(Prod.mk.inj (List.mem_singleton.1 hadded)).2, (Prod.mk.inj (List.mem_singleton.1 hadded')).2]

theorem RotationsKeyed.inserts {cp : Checkpoint} : ∀ {anchors : List Nat} {db after : Db}, RotationsKeyed db →
    insertRotationCheckpoints cp anchors db = .ok after → RotationsKeyed after
  | [], _, _, h, hinserts => Except.ok.inj hinserts ▸ h
  | index :: rest, db, after, h, hinserts => by
    simp only [insertRotationCheckpoints, bind_eq_ok] at hinserts
    obtain ⟨⟨outcome, mid⟩, hinsert, hrest⟩ := hinserts
    exact (h.insert hinsert).inserts hrest

theorem insertRotationCheckpointRaw_ok_iff {db : Db} (h : RotationsKeyed db) {index : Nat} {cp : Checkpoint}
    (hindex : index < i64Bound) (hsize : cp.treeSize < i64Bound) :
    (∃ out, insertRotationCheckpointRaw db index cp = .ok out) ↔ ¬ Clash db index cp := by
  unfold insertRotationCheckpointRaw
  rw [toI64_of_lt hindex, toI64_of_lt hsize]
  simp only [ok_bind]
  cases hfind : db.rotationCheckpoints.find? fun row =>
      row.1 == index && row.2.treeSize == cp.treeSize && row.2.checkpointTime == cp.checkpointTime with
  | some existing =>
    obtain ⟨i, row⟩ := existing
    have hmem := List.mem_of_find?_eq_some hfind
    have hkey := List.find?_some hfind
    simp only [Bool.and_eq_true, beq_iff_eq] at hkey
    obtain ⟨⟨rfl, hrowSize⟩, hrowTime⟩ := hkey
    dsimp only
    split_ifs with hsame
    · refine iff_of_true ⟨_, rfl⟩ ?_
      rintro ⟨held, hheld, hheldSize, hheldTime, hne⟩
      apply hne
      rw [← hsame]
      exact h i held row hheld hmem (hheldSize.trans hrowSize.symm) (hheldTime.trans hrowTime.symm)
    · refine iff_of_false ?_ (not_not.2 ⟨row, hmem, hrowSize, hrowTime, hsame⟩)
      rintro ⟨out, hout⟩
      cases hout
  | none =>
    refine iff_of_true ?_ ?_
    · dsimp only
      cases (rotationRows db index).head? with
      | none => exact ⟨_, rfl⟩
      | some held =>
        dsimp only
        split_ifs <;> exact ⟨_, rfl⟩
    · rintro ⟨held, hheld, hheldSize, hheldTime, -⟩
      simpa [hheldSize, hheldTime] using List.find?_eq_none.1 hfind _ hheld

theorem Clash.insert_iff {db after : Db} {index i : Nat} {cp : Checkpoint} {outcome : InsertOutcome}
    (h : insertRotationCheckpointRaw db index cp = .ok (outcome, after)) : Clash after i cp ↔ Clash db i cp := by
  rcases insertRotationCheckpointRaw_cases h with ⟨rfl, -⟩ | ⟨rfl, -⟩
  · exact Iff.rfl
  · constructor
    · rintro ⟨held, hheld, hsize, htime, hne⟩
      rcases List.mem_append.1 hheld with hheld | hnew
      · exact ⟨held, hheld, hsize, htime, hne⟩
      · exact absurd (Prod.mk.inj (List.mem_singleton.1 hnew)).2 hne
    · rintro ⟨held, hheld, hkey⟩
      exact ⟨held, List.mem_append_left _ hheld, hkey⟩

theorem insertRotationCheckpoints_ok_iff {cp : Checkpoint} (hsize : cp.treeSize < i64Bound) :
    ∀ {anchors : List Nat} {db : Db}, RotationsKeyed db → (∀ index ∈ anchors, index < i64Bound) →
      ((∃ after, insertRotationCheckpoints cp anchors db = .ok after) ↔ ∀ index ∈ anchors, ¬ Clash db index cp)
  | [], db, _, _ => by simp [insertRotationCheckpoints]
  | index :: rest, db, h, hindices => by
    have hraw := insertRotationCheckpointRaw_ok_iff h (hindices index List.mem_cons_self) hsize
    unfold insertRotationCheckpoints
    cases hinsert : insertRotationCheckpointRaw db index cp with
    | error e =>
      rw [hinsert] at hraw
      refine iff_of_false ?_ fun hnone => ?_
      · rintro ⟨after, hafter⟩
        cases hafter
      · obtain ⟨out, hout⟩ := hraw.2 (hnone index List.mem_cons_self)
        cases hout
    | ok out =>
      obtain ⟨outcome, mid⟩ := out
      rw [hinsert] at hraw
      simp only [ok_bind, List.forall_mem_cons]
      rw [insertRotationCheckpoints_ok_iff hsize (h.insert hinsert) fun i hi => hindices i (List.mem_cons_of_mem _ hi)]
      simp only [Clash.insert_iff hinsert]
      exact (and_iff_right (hraw.1 ⟨_, rfl⟩)).symm

variable {H K : Type} [HashOctets H] [DecidableEq H] {crates : Crates H K} {config : Config K}

theorem Committed.rotationsKeyed {cp : Checkpoint} {batch : List PendingPromotion} {claimedRoot : H}
    {admission : Admission} {db mid recorded after : Db} (hrep : Represents crates db)
    (h : Committed crates cp batch claimedRoot admission db mid recorded after) (hkeyed : RotationsKeyed db) :
    RotationsKeyed after := by
  have hmid := (promoteBatch_grow hrep h.batch).2.rotationCheckpoints
  refine RotationsKeyed.inserts ?_ h.rotations
  unfold RotationsKeyed
  rcases recordSeriesMember_cases h.member with ⟨rfl, -⟩ | ⟨-, rfl, -⟩ <;> exact hmid ▸ hkeyed

theorem CallEffect.rotationsKeyed {db after : Db} {call : Call} (hrep : Represents crates db) (hdb : RotationsKeyed db)
    (h : CallEffect crates config db call after) : RotationsKeyed after := by
  cases h with
  | unchanged => exact hdb
  | staged => exact hdb
  | admitted _ hcommit =>
    obtain ⟨-, mid, recorded, hcommitted⟩ := commitAdmission_cases hcommit
    exact hcommitted.rotationsKeyed hrep hdb
  | promoted _ hpromote =>
    unfold RotationsKeyed
    rw [(promoteEntryIn_grow hrep hpromote).2.rotationCheckpoints]
    exact hdb

theorem Reachable.rotationsKeyed {db : Db} (h : Reachable crates config db) : RotationsKeyed db :=
  h.keeps (fun _ _ _ ha => absurd ha List.not_mem_nil) fun _ _ _ hrep hdb heffect => heffect.rotationsKeyed hrep hdb

section conditions
variable (crates : Crates H K) (config : Config K) (db : Db) (cp : Checkpoint) (raw : Option Bytes)
  (batch : List PendingPromotion) (rotationFor : Option Nat)

/-- A submission that nothing but its rotation rows could still refuse. -/
def ReachesRotations : Prop :=
  ∃ claimedRoot admission mid, judgeCheckpoint crates config db cp raw batch rotationFor = .ok (claimedRoot, admission) ∧
    commitMember crates cp batch claimedRoot admission.seriesMember db = .ok mid

/-- Another checkpoint of this size and time is filed for a rotation this one anchors. -/
def RotationConflict : Prop :=
  ∃ anchors, rotationRule crates config db cp raw batch rotationFor = .ok anchors ∧ ∃ index ∈ anchors, Clash db index cp

end conditions

/-- Where only the rotation rows are left, a submission is refused for a conflict among them and else
admitted. -/
theorem ingestCheckpoint_of_reaches {db mid : Db} {cp : Checkpoint} {raw : Option Bytes} {batch : List PendingPromotion}
    {rotationFor : Option Nat} {claimedRoot : H} {admission : Admission} (hkeyed : RotationsKeyed db)
    (hjudge : judgeCheckpoint crates config db cp raw batch rotationFor = .ok (claimedRoot, admission))
    (hmid : commitMember crates cp batch claimedRoot admission.seriesMember db = .ok mid) (hframe : Frame db mid) :
    (RotationConflict crates config db cp raw batch rotationFor ∧
      ∃ e, ingestCheckpoint crates config db cp raw batch rotationFor = (db, .error e)) ∨
    (¬ RotationConflict crates config db cp raw batch rotationFor ∧
      ∃ after, ingestCheckpoint crates config db cp raw batch rotationFor = (after, .ok admission) ∧ SameSeries mid after) := by
  obtain ⟨visible, list, active, hjudged⟩ := judgeCheckpoint_cases hjudge
  have hindices : ∀ index ∈ admission.rotationAnchors, index < i64Bound := by
    intro index hindex
    obtain ⟨-, -, -, -, -, -, -, hlt, -⟩ := ((rotationAnchorsFor_eq_ok hjudged.anchors).1 index).1 hindex
    exact hlt.trans hjudged.size
  have hconflict : RotationConflict crates config db cp raw batch rotationFor ↔
      ∃ index ∈ admission.rotationAnchors, Clash mid index cp := by
    unfold RotationConflict Clash
    rw [hframe.rotationCheckpoints, hjudged.rotationRule]
    constructor
    · rintro ⟨anchors, hanchors, hclash⟩
      exact Except.ok.inj hanchors ▸ hclash
    · exact fun hclash => ⟨_, rfl, hclash⟩
  have hmidKeyed : RotationsKeyed mid := by
    unfold RotationsKeyed
    rw [hframe.rotationCheckpoints]
    exact hkeyed
  have hok := insertRotationCheckpoints_ok_iff hjudged.size hmidKeyed hindices
  unfold ingestCheckpoint withTransaction
  rw [hjudge]
  dsimp only
  rw [commitAdmission_eq, hmid, hconflict]
  simp only [ok_bind]
  cases hinserts : insertRotationCheckpoints cp admission.rotationAnchors mid with
  | error e =>
    refine Or.inl ⟨?_, e, rfl⟩
    by_contra hnone
    push Not at hnone
    obtain ⟨after, hafter⟩ := hok.2 hnone
    rw [hinserts] at hafter
    cases hafter
  | ok after =>
    refine Or.inr ⟨?_, after, rfl, ?_⟩
    · rintro ⟨index, hindex, hclash⟩
      exact hok.1 ⟨after, hinserts⟩ index hindex hclash
    · obtain ⟨kept, -, -, rfl⟩ := insertRotationCheckpoints_cases hinserts
      exact ⟨⟨rfl, rfl⟩, rfl⟩

theorem ingestCheckpoint_of_not_reaches {db : Db} {cp : Checkpoint} {raw : Option Bytes} {batch : List PendingPromotion}
    {rotationFor : Option Nat} (h : ¬ ReachesRotations crates config db cp raw batch rotationFor) :
    ∃ e, ingestCheckpoint crates config db cp raw batch rotationFor = (db, .error e) := by
  unfold ingestCheckpoint withTransaction
  cases hjudge : judgeCheckpoint crates config db cp raw batch rotationFor with
  | error e => exact ⟨e, rfl⟩
  | ok judged =>
    obtain ⟨claimedRoot, admission⟩ := judged
    dsimp only
    rw [commitAdmission_eq]
    cases hmid : commitMember crates cp batch claimedRoot admission.seriesMember db with
    | error e => exact ⟨e, rfl⟩
    | ok mid => exact absurd ⟨claimedRoot, admission, mid, hjudge, hmid⟩ h

theorem SameButRotations.commitMember {db other mid : Db} (h : SameButRotations db other) {cp : Checkpoint}
    {raw : Option Bytes} {batch : List PendingPromotion} {rotationFor : Option Nat} {claimedRoot : H}
    {admission : Admission}
    (hjudge : judgeCheckpoint crates config db cp raw batch rotationFor = .ok (claimedRoot, admission))
    (hmid : commitMember crates cp batch claimedRoot admission.seriesMember db = .ok mid) :
    judgeCheckpoint crates config other cp raw batch rotationFor = .ok (claimedRoot, admission) ∧
      ∃ otherMid, AhlMirror.commitMember crates cp batch claimedRoot admission.seriesMember other = .ok otherMid ∧
        Steps db other mid otherMid := by
  have hjudges := (h.beside.judgeCheckpoint crates config cp raw batch rotationFor).eq fun e _ => h.not_excused e
  have hmatches := h.beside.commitMember crates cp batch claimedRoot admission.seriesMember
  rw [hmid] at hmatches
  exact ⟨hjudges.trans hjudge, hmatches⟩

/-- **The series depends on the rotation rows by their conflicts alone.** Two reachable stores that differ
in nothing else answer a submission alike if and only if, where only the rotation rows are left to
refuse it, they agree on whether one conflicts. -/
theorem series_independent_iff {db other : Db} (hdb : Reachable crates config db)
    (hother : Reachable crates config other)
    (hsame : SameButRotations db other) (cp : Checkpoint) (raw : Option Bytes) (batch : List PendingPromotion)
    (rotationFor : Option Nat) :
    Independent db other (ingestCheckpoint crates config db cp raw batch rotationFor)
        (ingestCheckpoint crates config other cp raw batch rotationFor) ↔
      (ReachesRotations crates config db cp raw batch rotationFor →
        (RotationConflict crates config db cp raw batch rotationFor ↔
          RotationConflict crates config other cp raw batch rotationFor)) := by
  by_cases hreaches : ReachesRotations crates config db cp raw batch rotationFor
  · rw [forall_prop_of_true hreaches]
    obtain ⟨claimedRoot, admission, mid, hjudge, hmid⟩ := hreaches
    obtain ⟨hjudge', otherMid, hmid', hsteps⟩ := hsame.commitMember hjudge hmid
    have hmids : SameSeries mid otherMid := ⟨hsteps.beside.toSameTree, hsteps.beside.checkpoints⟩
    rcases ingestCheckpoint_of_reaches hdb.rotationsKeyed hjudge hmid hsteps.frame with
        ⟨hconflict, e, hout⟩ | ⟨hclear, after, hout, hafter⟩ <;>
      rcases ingestCheckpoint_of_reaches hother.rotationsKeyed hjudge' hmid' hsteps.otherFrame with
        ⟨hconflict', e', hout'⟩ | ⟨hclear', after', hout', hafter'⟩ <;> rw [hout, hout']
    · exact iff_of_true (.refused e e') (iff_of_true hconflict hconflict')
    · refine iff_of_false ?_ fun hiff => hclear' (hiff.1 hconflict)
      rintro (⟨_, _, hok, -⟩ | ⟨_, _, -, herror, -⟩)
      · cases hok
      · cases herror
    · refine iff_of_false ?_ fun hiff => hclear (hiff.2 hconflict')
      rintro (⟨_, _, -, hok, -⟩ | ⟨_, _, herror, -⟩)
      · cases hok
      · cases herror
    · exact iff_of_true (Or.inl ⟨admission, admission, rfl, rfl, rfl, (hafter.symm.trans hmids).trans hafter'⟩)
        (iff_of_false hclear hclear')
  · have hother' : ¬ ReachesRotations crates config other cp raw batch rotationFor := by
      rintro ⟨claimedRoot, admission, mid, hjudge, hmid⟩
      obtain ⟨hjudge', otherMid, hmid', -⟩ := hsame.symm.commitMember hjudge hmid
      exact hreaches ⟨claimedRoot, admission, otherMid, hjudge', hmid'⟩
    obtain ⟨e, hout⟩ := ingestCheckpoint_of_not_reaches hreaches
    obtain ⟨e', hout'⟩ := ingestCheckpoint_of_not_reaches hother'
    rw [hout, hout']
    exact iff_of_true (.refused e e') fun h => absurd h hreaches

namespace Symbolic

/-- A manifest that names several log keys. -/
def manifestOf (predecessor : List (String × Value)) (logKeys : List String) : Value :=
  .object ([("type", .string "manifest"), ("ahl_version", .string "1"), ("keys", .array [keyObject "P"]),
    ("log", .object [("log_id", .string logId), ("operator", .string "O"),
      ("adaptor", .object [("id", .string "D"), ("hash", .string "H")]), ("checkpoint_cadence", .string "PT1S"),
      ("cadence_epoch", .string "1970-01-01T00:00:00Z"), ("witness_grace_period", .string "PT1S"),
      ("keys", .array (logKeys.map keyObject))])] ++ predecessor)

/-- The genesis names the log keys `A` and `B`; `2` succeeds it and keeps `B` alone. -/
def shrinking : List (Bytes × Value) :=
  [document [1] (manifestOf [] ["A", "B"]) (signedBy "P"),
    document [2] (manifestOf [("predecessor", .string (hashText [1]))] ["B"]) (signedBy "P")]

/-- A checkpoint over the two manifests. -/
def overRotation (key : String) (nanos : Nat) : Checkpoint := checkpoint key 2 (rootOf [[1], [2]]) nanos

/-- Both manifests held, the second promoted after the checkpoint that brought the first. -/
def shrunk : List Call :=
  [stage 1, stage 2, ingest (overRotation "B" 4) [pending [[1], [2]] 0], promote 2 (pending [[1], [2]] 1)]

/-- The same, and an anchor for the rotation filed under the retired key. -/
def shrunkAnchored : List Call := shrunk ++ [ingest (overRotation "A" 5) []]

end Symbolic

theorem series_independent_iff_shrunk :
    Independent (storeAfter (Symbolic.crates Symbolic.shrinking) Symbolic.config Symbolic.shrunk)
      (storeAfter (Symbolic.crates Symbolic.shrinking) Symbolic.config Symbolic.shrunkAnchored)
      (ingestCheckpoint (Symbolic.crates Symbolic.shrinking) Symbolic.config
        (storeAfter (Symbolic.crates Symbolic.shrinking) Symbolic.config Symbolic.shrunk) (Symbolic.overRotation "B" 6) none [] none)
      (ingestCheckpoint (Symbolic.crates Symbolic.shrinking) Symbolic.config
        (storeAfter (Symbolic.crates Symbolic.shrinking) Symbolic.config Symbolic.shrunkAnchored)
        (Symbolic.overRotation "B" 6) none [] none) := by
  have hsame : SameButRotations (storeAfter (Symbolic.crates Symbolic.shrinking) Symbolic.config Symbolic.shrunk)
      (storeAfter (Symbolic.crates Symbolic.shrinking) Symbolic.config Symbolic.shrunkAnchored) := by decide +kernel
  refine (series_independent_iff ⟨Symbolic.shrunk, rfl⟩ ⟨Symbolic.shrunkAnchored, rfl⟩ hsame _ _ _ _).2 fun _ => iff_of_false ?_ ?_
  · rintro ⟨anchors, -, index, -, held, hheld, -, htime, -⟩
    have hrows : ∀ row ∈ (storeAfter (Symbolic.crates Symbolic.shrinking) Symbolic.config Symbolic.shrunk).rotationCheckpoints,
        row.2.checkpointTime ≠ (Symbolic.overRotation "B" 6).checkpointTime := by decide +kernel
    exact hrows _ hheld htime
  · rintro ⟨anchors, -, index, -, held, hheld, -, htime, -⟩
    have hrows : ∀ row ∈ (storeAfter (Symbolic.crates Symbolic.shrinking) Symbolic.config Symbolic.shrunkAnchored).rotationCheckpoints,
        row.2.checkpointTime ≠ (Symbolic.overRotation "B" 6).checkpointTime := by decide +kernel
    exact hrows _ hheld htime

/-- An anchor filed under a retired key keeps out a member of its size and time. -/
theorem filed_anchor_refuses_member : ¬ ∀ (db other : Db) (cp : Checkpoint) (raw : Option Bytes)
    (batch : List PendingPromotion) (rotationFor : Option Nat),
    Reachable (Symbolic.crates Symbolic.shrinking) Symbolic.config db →
    Reachable (Symbolic.crates Symbolic.shrinking) Symbolic.config other → SameButRotations db other →
      Independent db other (ingestCheckpoint (Symbolic.crates Symbolic.shrinking) Symbolic.config db cp raw batch rotationFor)
        (ingestCheckpoint (Symbolic.crates Symbolic.shrinking) Symbolic.config other cp raw batch rotationFor) := by
  intro h
  have hadmitted : (ingestCheckpoint (Symbolic.crates Symbolic.shrinking) Symbolic.config
      (storeAfter (Symbolic.crates Symbolic.shrinking) Symbolic.config Symbolic.shrunk) (Symbolic.overRotation "B" 5)
      none [] none).2 = .ok ⟨true, [1]⟩ := by decide +kernel
  have hrefused : (ingestCheckpoint (Symbolic.crates Symbolic.shrinking) Symbolic.config
      (storeAfter (Symbolic.crates Symbolic.shrinking) Symbolic.config Symbolic.shrunkAnchored) (Symbolic.overRotation "B" 5)
      none [] none).2.isOk = false := by decide +kernel
  rcases h _ _ (Symbolic.overRotation "B" 5) none [] none ⟨Symbolic.shrunk, rfl⟩ ⟨Symbolic.shrunkAnchored, rfl⟩
      (by decide +kernel) with ⟨_, _, -, hok, -⟩ | ⟨_, _, herror, -⟩
  · rw [hok] at hrefused
    cases hrefused
  · rw [herror] at hadmitted
    cases hadmitted

end AhlMirror
