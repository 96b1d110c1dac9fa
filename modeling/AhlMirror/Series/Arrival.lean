import AhlMirror.Series.Independence
import AhlMirror.Series.Provenance

/-!
# Rotation anchors in the order they arrive

Over a whole run the anchor held for a rotation is the least of those its admissions found
(`anchor_least`). But an admission finds the rotations of the prefix it sees, and a rotation that becomes
canonical later is not looked for again (`mem_rotationAnchors_iff`).
-/

namespace AhlMirror

open AhlMirror.Core (Machine)

/-! ### The rows of one admission -/

/-- What an anchor leaves behind: its rotation holds a row to serve no later than it, and no other one of
its size and time. -/
structure Covers (db : Db) (index : Nat) (cp : Checkpoint) : Prop where
  held : ∃ held, (index, held) ∈ db.rotationCheckpoints ∧ seriesLE held cp
  unrivalled : ¬ Clash db index cp

theorem Covers.congr {db after : Db} {index : Nat} {cp : Checkpoint} (h : Covers db index cp)
    (hrows : after.rotationCheckpoints = db.rotationCheckpoints) : Covers after index cp := by
  refine ⟨?_, ?_⟩
  · rw [hrows]
    exact h.held
  · unfold Clash
    rw [hrows]
    exact h.unrivalled

theorem Covers.insert {db after : Db} {index i : Nat} {cp other : Checkpoint} {outcome : InsertOutcome}
    (h : Covers db index cp) (hinsert : insertRotationCheckpointRaw db i other = .ok (outcome, after)) :
    Covers after index cp := by
  obtain ⟨held, hheld, hle⟩ := h.held
  rcases insertRotationCheckpointRaw_cases hinsert with ⟨rfl, -⟩ | ⟨rfl, hfree⟩
  · exact h
  · refine ⟨⟨held, List.mem_append_left _ hheld, hle⟩, ?_⟩
    rintro ⟨rival, hrival, hsize, htime, hne⟩
    rcases List.mem_append.1 hrival with hold | hnew
    · exact h.unrivalled ⟨rival, hold, hsize, htime, hne⟩
    · obtain ⟨rfl, rfl⟩ := Prod.mk.inj (List.mem_singleton.1 hnew)
      exact hfree held hheld (hle.trans (Or.inr ⟨hsize.symm, htime.ge⟩))

theorem Covers.inserts {index : Nat} {cp other : Checkpoint} : ∀ {anchors : List Nat} {db after : Db},
    Covers db index cp → insertRotationCheckpoints other anchors db = .ok after → Covers after index cp
  | [], _, _, h, hinserts => Except.ok.inj hinserts ▸ h
  | i :: rest, db, after, h, hinserts => by
    simp only [insertRotationCheckpoints, bind_eq_ok] at hinserts
    obtain ⟨⟨outcome, mid⟩, hinsert, hrest⟩ := hinserts
    exact (h.insert hinsert).inserts hrest

theorem covers_of_insert {db after : Db} (hkeyed : RotationsKeyed db) {index : Nat} {cp : Checkpoint}
    {outcome : InsertOutcome} (hindex : index < i64Bound) (hsize : cp.treeSize < i64Bound)
    (hinsert : insertRotationCheckpointRaw db index cp = .ok (outcome, after)) : Covers after index cp := by
  refine ⟨?_, fun hclash => (insertRotationCheckpointRaw_ok_iff hkeyed hindex hsize).1 ⟨_, hinsert⟩
    ((Clash.insert_iff hinsert).1 hclash)⟩
  rcases insertRotationCheckpointRaw_cases hinsert with ⟨rfl, held, hheld, hle⟩ | ⟨rfl, -⟩
  · exact ⟨held, hheld, hle⟩
  · exact ⟨cp, List.mem_append_right _ (List.mem_singleton_self _), seriesLE.refl cp⟩

theorem covers_of_inserts {cp : Checkpoint} (hsize : cp.treeSize < i64Bound) : ∀ {anchors : List Nat} {db after : Db},
    RotationsKeyed db → (∀ index ∈ anchors, index < i64Bound) → insertRotationCheckpoints cp anchors db = .ok after →
      ∀ index ∈ anchors, Covers after index cp
  | [], _, _, _, _, _, index, hmem => absurd hmem List.not_mem_nil
  | i :: rest, db, after, hkeyed, hindices, hinserts, index, hmem => by
    simp only [insertRotationCheckpoints, bind_eq_ok] at hinserts
    obtain ⟨⟨outcome, mid⟩, hinsert, hrest⟩ := hinserts
    rcases List.mem_cons.1 hmem with rfl | hmem
    · exact (covers_of_insert hkeyed (hindices index List.mem_cons_self) hsize hinsert).inserts hrest
    · exact covers_of_inserts hsize (hkeyed.insert hinsert) (fun i hi => hindices i (List.mem_cons_of_mem _ hi)) hrest
        index hmem

variable {H K : Type} [HashOctets H] [DecidableEq H] {crates : Crates H K} {config : Config K}

theorem Committed.recorded_rotationCheckpoints {cp : Checkpoint} {batch : List PendingPromotion} {claimedRoot : H}
    {admission : Admission} {db mid recorded after : Db} (hrep : Represents crates db)
    (h : Committed crates cp batch claimedRoot admission db mid recorded after) :
    recorded.rotationCheckpoints = db.rotationCheckpoints := by
  have hmid := (promoteBatch_grow hrep h.batch).2.rotationCheckpoints
  rcases recordSeriesMember_cases h.member with ⟨rfl, -⟩ | ⟨-, rfl, -⟩ <;> exact hmid

/-- The rows of one admission are its own checkpoint's, for the rotations it anchors; each of these is
covered afterwards. -/
theorem ingestCheckpoint_rotationRows {db after : Db} (hrep : Represents crates db) (hkeyed : RotationsKeyed db)
    {cp : Checkpoint} {raw : Option Bytes} {batch : List PendingPromotion} {rotationFor : Option Nat} {admission : Admission}
    (h : ingestCheckpoint crates config db cp raw batch rotationFor = (after, .ok admission)) :
    (∀ index held, (index, held) ∈ after.rotationCheckpoints →
      (index, held) ∈ db.rotationCheckpoints ∨ held = cp ∧ index ∈ admission.rotationAnchors) ∧
    ∀ index ∈ admission.rotationAnchors, index < cp.treeSize ∧ cp.treeSize < i64Bound ∧ Covers after index cp := by
  obtain ⟨claimedRoot, judged, hjudge, hcommit⟩ := ingestCheckpoint_eq_ok h
  obtain ⟨rfl, mid, recorded, hcommitted⟩ := commitAdmission_cases hcommit
  obtain ⟨visible, list, active, hjudged⟩ := judgeCheckpoint_cases hjudge
  have hrecorded := hcommitted.recorded_rotationCheckpoints hrep
  have hbelow : ∀ index ∈ admission.rotationAnchors, index < cp.treeSize := by
    intro index hindex
    obtain ⟨-, -, -, -, -, -, -, hlt, -⟩ := ((rotationAnchorsFor_eq_ok hjudged.anchors).1 index).1 hindex
    exact hlt
  constructor
  · intro index held hmem
    obtain ⟨kept, hkept, -, rfl⟩ := insertRotationCheckpoints_cases hcommitted.rotations
    rcases List.mem_append.1 hmem with hold | hnew
    · exact Or.inl (hrecorded ▸ hold)
    · obtain ⟨i, hi, hrow⟩ := List.mem_map.1 hnew
      obtain ⟨rfl, rfl⟩ := Prod.mk.inj hrow
      exact Or.inr ⟨rfl, (hkept i hi).1⟩
  · intro index hindex
    have hkeyed' : RotationsKeyed recorded := by
      unfold RotationsKeyed
      rw [hrecorded]
      exact hkeyed
    exact ⟨hbelow index hindex, hjudged.size, covers_of_inserts hjudged.size hkeyed'
      (fun i hi => (hbelow i hi).trans hjudged.size) hcommitted.rotations index hindex⟩

theorem CallEffect.covers {db after : Db} {call : Call} (hrep : Represents crates db) {index : Nat} {cp : Checkpoint}
    (hcovers : Covers db index cp) (h : CallEffect crates config db call after) : Covers after index cp := by
  cases h with
  | unchanged => exact hcovers
  | staged => exact hcovers.congr rfl
  | admitted _ hcommit =>
    obtain ⟨-, mid, recorded, hcommitted⟩ := commitAdmission_cases hcommit
    exact (hcovers.congr (hcommitted.recorded_rotationCheckpoints hrep)).inserts hcommitted.rotations
  | promoted _ hpromote => exact hcovers.congr (promoteEntryIn_grow hrep hpromote).2.rotationCheckpoints

/-! ### Over a run -/

section history
variable (crates : Crates H K) (config : Config K)

/-- An admission of the run, answered with `Ok`, reported the checkpoint as an anchor of the rotation. -/
def Anchored (calls : List Call) (index : Nat) (cp : Checkpoint) : Prop :=
  ∃ before raw batch rotationFor, before ++ [.ingest cp raw batch rotationFor] <+: calls ∧ ∃ admission,
    (ingestCheckpoint crates config (storeAfter crates config before) cp raw batch rotationFor).2 = .ok admission ∧
      index ∈ admission.rotationAnchors

/-- A checkpoint that the run admitted and that verifies for the rotation at `index`, by the version before
it. -/
def Offered (calls : List Call) (index : Nat) (outgoing : GovernanceState K) (cp : Checkpoint) : Prop :=
  ∃ before raw batch rotationFor, before ++ [.ingest cp raw batch rotationFor] <+: calls ∧
    Admitted crates config (storeAfter crates config before) cp raw batch rotationFor ∧
      index < cp.treeSize ∧ verifiesUnder crates config outgoing cp raw = .ok ()

/-- The same, and the rotating entry was canonical by then or in the checkpoint's own batch. -/
def OfferedInView (calls : List Call) (index : Nat) (outgoing : GovernanceState K) (cp : Checkpoint) : Prop :=
  ∃ before raw batch rotationFor, before ++ [.ingest cp raw batch rotationFor] <+: calls ∧
    Admitted crates config (storeAfter crates config before) cp raw batch rotationFor ∧
      index < cp.treeSize ∧ verifiesUnder crates config outgoing cp raw = .ok () ∧
        index < (proposedEntries (storeAfter crates config before) batch).length

end history

theorem Anchored.mono {calls calls' : List Call} {index : Nat} {cp : Checkpoint}
    (h : Anchored crates config calls index cp) (hle : calls <+: calls') : Anchored crates config calls' index cp := by
  obtain ⟨before, raw, batch, rotationFor, hbefore, hanchors⟩ := h
  exact ⟨before, raw, batch, rotationFor, hbefore.trans hle, hanchors⟩

theorem Served.rotationRow {before : List Call} {call : Call} {after : Db} {index : Nat} {held : Checkpoint}
    (h : Served crates config (storeAfter crates config before) call after)
    (hmem : (index, held) ∈ after.rotationCheckpoints) :
    (index, held) ∈ (storeAfter crates config before).rotationCheckpoints ∨
      Anchored crates config (before ++ [call]) index held := by
  cases h with
  | staged hstage => obtain ⟨-, rfl | rfl⟩ := stageEntry_cases hstage <;> exact Or.inl hmem
  | promoted _ hpromote =>
    rw [(promoteEntryIn_grow (storeAfter_represents crates config before) hpromote).2.rotationCheckpoints] at hmem
    exact Or.inl hmem
  | @admitted cp raw batch rotationFor claimedRoot admission _ hjudge hcommit =>
    have hingest : ingestCheckpoint crates config (storeAfter crates config before) cp raw batch rotationFor =
        (after, .ok admission) := by
      unfold ingestCheckpoint withTransaction
      rw [hjudge]
      dsimp only
      rw [hcommit]
    have hreach : Reachable crates config (storeAfter crates config before) := ⟨before, rfl⟩
    refine ((ingestCheckpoint_rotationRows hreach.represents hreach.rotationsKeyed hingest).1 index held hmem).imp_right ?_
    rintro ⟨rfl, hindex⟩
    exact ⟨before, raw, batch, rotationFor, List.prefix_rfl, admission, by rw [hingest], hindex⟩

theorem rotationRow_anchored (calls : List Call) : ∀ index held,
    (index, held) ∈ (storeAfter crates config calls).rotationCheckpoints → Anchored crates config calls index held := by
  apply (mirror crates config).exec_history
    (I := fun calls db => ∀ index held, (index, held) ∈ db.rotationCheckpoints → Anchored crates config calls index held)
  · exact fun _ _ hmem => absurd hmem List.not_mem_nil
  · intro before call ih index held hmem
    have hold : (index, held) ∈ (storeAfter crates config before).rotationCheckpoints →
        Anchored crates config (before ++ [call]) index held := fun hmem =>
      (ih index held hmem).mono (List.prefix_append before [call])
    rcases serve_cases crates config (storeAfter crates config before) call with ⟨-, hsame⟩ | ⟨-, hserved⟩
    · apply hold
      rw [← hsame]
      exact hmem
    · exact (hserved.rotationRow hmem).elim hold id

theorem Anchored.covers {calls : List Call} {index : Nat} {cp : Checkpoint}
    (h : Anchored crates config calls index cp) :
    index < cp.treeSize ∧ cp.treeSize < i64Bound ∧ Covers (storeAfter crates config calls) index cp := by
  obtain ⟨before, raw, batch, rotationFor, ⟨later, rfl⟩, admission, hok, hmem⟩ := h
  have hreach : Reachable crates config (storeAfter crates config before) := ⟨before, rfl⟩
  have hingest : ingestCheckpoint crates config (storeAfter crates config before) cp raw batch rotationFor =
      (storeAfter crates config (before ++ [.ingest cp raw batch rotationFor]), .ok admission) :=
    Prod.ext (storeAfter_ingest crates config before cp raw batch rotationFor).symm hok
  obtain ⟨hlt, hsize, hcovers⟩ := (ingestCheckpoint_rotationRows hreach.represents hreach.rotationsKeyed hingest).2 index hmem
  refine ⟨hlt, hsize, ?_⟩
  unfold storeAfter
  rw [Machine.exec_append]
  exact mirror_keeps (fun _ _ _ hrep hdb heffect => heffect.covers hrep hdb)
    (storeAfter_represents crates config (before ++ [.ingest cp raw batch rotationFor])) hcovers later

/-- The anchor read for a rotation is the least of those the run's admissions found. -/
theorem anchor_least {calls : List Call} {index : Nat} (hindex : index < i64Bound) {a : Checkpoint} :
    getRotationCheckpoint (storeAfter crates config calls) index = .ok (some a) →
      Anchored crates config calls index a ∧ ∀ cp, Anchored crates config calls index cp → seriesLE a cp := by
  intro hget
  unfold getRotationCheckpoint at hget
  rw [toI64_of_lt hindex] at hget
  simp only [ok_bind] at hget
  have hhead := Except.ok.inj hget
  refine ⟨rotationRow_anchored calls _ _ (mem_rotationRows.1 (List.mem_of_head? hhead)), fun cp hcp => ?_⟩
  obtain ⟨held, hheld, hle⟩ := hcp.covers.2.2.held
  exact (head?_rotationRows_le hhead hheld).trans hle

theorem Anchored.getRotationCheckpoint {calls : List Call} {index : Nat} {cp : Checkpoint}
    (h : Anchored crates config calls index cp) :
    ∃ a, getRotationCheckpoint (storeAfter crates config calls) index = .ok (some a) ∧ seriesLE a cp ∧
      (seriesLE cp a → cp = a) := by
  obtain ⟨hlt, hsize, hcovers⟩ := h.covers
  have hindex : index < i64Bound := hlt.trans hsize
  obtain ⟨held, hheld, -⟩ := hcovers.held
  cases hhead : (rotationRows (storeAfter crates config calls) index).head? with
  | none =>
    rw [List.head?_eq_none_iff] at hhead
    simpa [hhead] using mem_rotationRows.2 hheld
  | some a =>
    have hget : AhlMirror.getRotationCheckpoint (storeAfter crates config calls) index = .ok (some a) := by
      unfold AhlMirror.getRotationCheckpoint
      rw [toI64_of_lt hindex, ← hhead]
      rfl
    have hle := (anchor_least hindex hget).2 cp h
    refine ⟨a, hget, hle, fun hge => ?_⟩
    by_contra hne
    obtain ⟨hsizes, htimes⟩ := hle.antisymm hge
    exact hcovers.unrivalled ⟨a, mem_rotationRows.1 (List.mem_of_head? hhead), hsizes, htimes, Ne.symm hne⟩

/-! ### What is in view -/

theorem mem_rotationAnchors_iff {calls before : List Call} {list : List (GovernanceState K)} {index : Nat}
    {outgoing : GovernanceState K} {cp : Checkpoint} {raw : Option Bytes} {batch : List PendingPromotion}
    {rotationFor : Option Nat} {admission : Admission}
    (hlist : versions crates config (canonicalEntries (storeAfter crates config calls)) = .ok list)
    (hrotation : RotationAt list index outgoing) (hupto : before ++ [.ingest cp raw batch rotationFor] <+: calls)
    (hok : (ingestCheckpoint crates config (storeAfter crates config before) cp raw batch rotationFor).2 = .ok admission) :
    index ∈ admission.rotationAnchors ↔ index < cp.treeSize ∧ verifiesUnder crates config outgoing cp raw = .ok () ∧
      index < (proposedEntries (storeAfter crates config before) batch).length := by
  have hrep := storeAfter_represents crates config before
  obtain ⟨claimedRoot, judged, hjudge, hcommit⟩ := ingestCheckpoint_eq_ok (Prod.ext rfl hok)
  obtain ⟨rfl, mid, recorded, hcommitted⟩ := commitAdmission_cases hcommit
  obtain ⟨visible, shown, active, hjudged⟩ := judgeCheckpoint_cases hjudge
  have hproposed := (promoteBatch_proposes hrep hcommitted.batch).1
  have hvisible := visiblePrefix_eq_promoted hrep hjudged.size hjudged.visiblePrefix hcommitted.batch
  obtain ⟨later, rfl⟩ := hupto
  -- what was visible is a prefix of the entries canonical in the end
  have hgrow := (storeAfter_grows crates config (before ++ [.ingest cp raw batch rotationFor]) later).canonicalEntries
  rw [storeAfter_ingest, hcommitted.canonicalEntries, hproposed] at hgrow
  rw [hproposed] at hvisible
  have hlength : visible.length = min cp.treeSize (proposedEntries (storeAfter crates config before) batch).length := by
    rw [hvisible, List.length_take]
  have htake := List.prefix_iff_eq_take.1 ((List.take_prefix cp.treeSize _).trans hgrow)
  rw [← hvisible] at htake
  have hshown := hjudged.versions
  rw [htake] at hshown
  have hle : visible.length ≤ (canonicalEntries (storeAfter crates config
      (before ++ [.ingest cp raw batch rotationFor] ++ later))).length := by
    rw [hvisible]
    exact ((List.take_prefix _ _).trans hgrow).length_le
  rw [(rotationAnchorsFor_eq_ok hjudged.anchors).1, anchors_take_iff hlist hle hshown hrotation, hlength, lt_min_iff]
  tauto

/-- **A rotation has an anchor by the submissions that came when it was in view.** Of a rotation of the
final canonical entries an anchor at or before a checkpoint is held if and only if some admitted
checkpoint at or before it qualifies and was submitted with the rotating entry canonical or in its batch. -/
theorem rotation_anchor_held_iff {calls : List Call} {list : List (GovernanceState K)} {index : Nat}
    {outgoing : GovernanceState K}
    (hlist : versions crates config (canonicalEntries (storeAfter crates config calls)) = .ok list)
    (hrotation : RotationAt list index outgoing) (cp : Checkpoint) :
    (∃ a, getRotationCheckpoint (storeAfter crates config calls) index = .ok (some a) ∧ seriesLE a cp) ↔
      ∃ first, OfferedInView crates config calls index outgoing first ∧ seriesLE first cp := by
  have hindex : index < i64Bound := by
    obtain ⟨before, incoming, after, rfl, -, rfl⟩ := hrotation
    have hrep := storeAfter_represents crates config calls
    have hlt := (versions_chain hlist).2.lt_stop incoming (by simp)
    rw [length_canonicalEntries] at hlt
    exact hlt.trans_le hrep.representable
  constructor
  · rintro ⟨a, hget, hle⟩
    obtain ⟨before, raw, batch, rotationFor, hupto, admission, hok, hmem⟩ := (anchor_least hindex hget).1
    exact ⟨a, ⟨before, raw, batch, rotationFor, hupto, ⟨admission, hok⟩,
      (mem_rotationAnchors_iff hlist hrotation hupto hok).1 hmem⟩, hle⟩
  · rintro ⟨first, ⟨before, raw, batch, rotationFor, hupto, ⟨admission, hok⟩, hview⟩, hle⟩
    have hanchored : Anchored crates config calls index first :=
      ⟨before, raw, batch, rotationFor, hupto, admission, hok,
      (mem_rotationAnchors_iff hlist hrotation hupto hok).2 hview⟩
    obtain ⟨a, hget, hle', -⟩ := hanchored.getRotationCheckpoint
    exact ⟨a, hget, hle'.trans hle⟩

namespace Symbolic

/-- The versions of the small log once its manifest `2` follows the genesis. -/
def twoVersions : List (GovernanceState String) :=
  (versions (Symbolic.crates documents) Symbolic.config [[1], [2]]).toOption.getD []

theorem twoVersions_rotates : RotationAt twoVersions 1 (twoVersions.head (by decide +kernel)) :=
  ⟨[], twoVersions.getLast (by decide +kernel), [], by decide +kernel, by decide +kernel, by decide +kernel⟩

end Symbolic

theorem rotation_anchor_held_iff_anchored : ∃ a,
    getRotationCheckpoint (Symbolic.after Symbolic.anchored) 1 = .ok (some a) ∧
      seriesLE a (Symbolic.checkpoint "A" 2 (Symbolic.rootOf [[1], [2]]) 5) := by
  have hlist : versions (Symbolic.crates Symbolic.documents) Symbolic.config
      (canonicalEntries (Symbolic.after Symbolic.anchored)) = .ok Symbolic.twoVersions := by decide +kernel
  refine (rotation_anchor_held_iff hlist Symbolic.twoVersions_rotates _).2
    ⟨_, ⟨Symbolic.rotated, none, [], none, List.prefix_rfl, ⟨⟨false, [1]⟩, by decide +kernel⟩, ?_⟩, seriesLE.refl _⟩
  exact ⟨by decide +kernel, by decide +kernel, by decide +kernel⟩

/-- A member admitted before the rotating entry came is no anchor once it has come. -/
theorem late_rotation_unanchored : ¬ ∀ (calls : List Call) (list : List (GovernanceState String)) (index : Nat)
    (outgoing : GovernanceState String),
    versions (Symbolic.crates Symbolic.documents) Symbolic.config (canonicalEntries (Symbolic.after calls)) = .ok list →
    RotationAt list index outgoing → ∀ cp, Offered (Symbolic.crates Symbolic.documents) Symbolic.config calls index outgoing cp →
      ∃ a, getRotationCheckpoint (Symbolic.after calls) index = .ok (some a) ∧ seriesLE a cp := by
  intro h
  obtain ⟨a, hget, -⟩ := h Symbolic.lateManifest Symbolic.twoVersions 1 _ (by decide +kernel) Symbolic.twoVersions_rotates
    (Symbolic.checkpoint "A" 2 (Symbolic.rootOf [[1], [2]]) 5)
    ⟨[Symbolic.stage 1, Symbolic.stage 2], none, [Symbolic.pending [[1], [2]] 0], none,
      ⟨[Symbolic.promote 2 (Symbolic.pending [[1], [2]] 1)], rfl⟩, ⟨⟨true, []⟩, by decide +kernel⟩, by decide +kernel,
      by decide +kernel⟩
  have hnone : getRotationCheckpoint (Symbolic.after Symbolic.lateManifest) 1 = .ok none := by decide +kernel
  rw [hnone] at hget
  cases hget

end AhlMirror
