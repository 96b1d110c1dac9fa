import AhlMirror.Core.Keyed
import AhlMirror.Series.Equivocation
import AhlMirror.Series.Staging

/-!
# Stores that differ in the order of their rows

Two stores are `Alike` where they hold the same log and nodes, have the same bytes staged under each id, and
hold the same rows of both checkpoint tables, whatever order they came in. No read tells such stores apart,
and every write takes them to stores alike.
-/

namespace AhlMirror

open AhlMirror.Core (Keyed Matches)

/-! ### Keys -/

/-- The key of `checkpoints`. -/
def Checkpoint.seriesKey (cp : Checkpoint) : Nat × String := (cp.treeSize, cp.checkpointTime)

/-- The key of `rotation_checkpoints`. -/
def rotationKey (row : Nat × Checkpoint) : Nat × Nat × String := (row.1, row.2.seriesKey)

/-- The two `UNIQUE` constraints. -/
structure UniqueKeys (db : Db) : Prop where
  series : Keyed Checkpoint.seriesKey db.checkpoints
  rotations : Keyed rotationKey db.rotationCheckpoints

theorem seriesKey_eq {a b : Checkpoint} : a.seriesKey = b.seriesKey ↔ a.treeSize = b.treeSize ∧ a.checkpointTime = b.checkpointTime :=
  Prod.mk.injEq _ _ _ _ ▸ Iff.rfl

theorem seriesKey_of_seriesLE {a b : Checkpoint} (h : seriesLE a b) (h' : seriesLE b a) : a.seriesKey = b.seriesKey :=
  seriesKey_eq.2 (h.antisymm h')

theorem UniqueKeys.insertCheckpoint {db after : Db} {cp : Checkpoint} {outcome : InsertOutcome} (h : UniqueKeys db)
    (hinsert : insertCheckpointRaw db cp = .ok (outcome, after)) : UniqueKeys after := by
  rcases insertCheckpointRaw_cases hinsert with ⟨rfl, -⟩ | ⟨rfl, hnew⟩
  · exact h
  · exact ⟨Keyed.concat_iff.2 ⟨h.series, fun held hheld hkey => hnew held hheld (seriesKey_eq.1 hkey)⟩, h.rotations⟩

theorem UniqueKeys.insertRotationCheckpoint {db after : Db} {index : Nat} {cp : Checkpoint} {outcome : InsertOutcome}
    (h : UniqueKeys db) (hinsert : insertRotationCheckpointRaw db index cp = .ok (outcome, after)) : UniqueKeys after := by
  rcases insertRotationCheckpointRaw_cases hinsert with ⟨rfl, -⟩ | ⟨rfl, hfree⟩
  · exact h
  · refine ⟨h.series, Keyed.concat_iff.2 ⟨h.rotations, fun held hheld hkey => ?_⟩⟩
    obtain ⟨i, row⟩ := held
    obtain ⟨rfl, hsame⟩ : i = index ∧ row.seriesKey = cp.seriesKey := Prod.mk.inj hkey
    obtain ⟨hsize, htime⟩ := seriesKey_eq.1 hsame
    exact hfree row hheld (Or.inr ⟨hsize, htime.le⟩)

/-! ### The relation -/

structure Alike (db other : Db) : Prop extends SameNodes db other where
  staged : ∀ entryId, getStagedRaw other entryId = getStagedRaw db entryId
  checkpoints : other.checkpoints.Perm db.checkpoints
  rotationCheckpoints : other.rotationCheckpoints.Perm db.rotationCheckpoints
  keys : UniqueKeys db

theorem Alike.refl {db : Db} (h : UniqueKeys db) : Alike db db :=
  ⟨⟨rfl, fun _ _ => rfl⟩, fun _ => rfl, List.Perm.refl _, List.Perm.refl _, h⟩

/-! ### Checkpoint tables -/

namespace Alike
variable {db other : Db} (h : Alike db other)
include h

theorem allCheckpoints : allCheckpoints other = allCheckpoints db :=
  h.keys.series.insertionSort_perm h.checkpoints fun _ _ _ _ => seriesKey_of_seriesLE

theorem rootDivergences : findRootDivergences (authenticatedCheckpoints other) = findRootDivergences (authenticatedCheckpoints db) := by
  have hsorted : ∀ store, (authenticatedCheckpoints store).Pairwise fun x y => x.treeSize ≤ y.treeSize := fun store =>
    (List.pairwise_insertionSort seriesLE _).imp fun h => h.treeSize_le
  have hrows : (recordedRows other).Perm (recordedRows db) := h.checkpoints.append (h.rotationCheckpoints.map _)
  refine findRootDivergences_perm ?_ (hsorted other) (hsorted db)
  exact (authenticatedCheckpoints_perm other).trans (hrows.trans (authenticatedCheckpoints_perm db).symm)

theorem rotationRows (index : Nat) : rotationRows other index = rotationRows db index := by
  have hkeyed : Keyed Checkpoint.seriesKey ((db.rotationCheckpoints.filter fun row => row.1 == index).map (·.2)) := by
    refine List.Nodup.of_map (fun key => (index, key)) ?_
    have hkeyed := h.keys.rotations.filter fun row => row.1 == index
    unfold Keyed at hkeyed
    rw [List.map_map, List.map_map]
    refine (List.map_congr_left fun row hrow => ?_) ▸ hkeyed
    have hindex : row.1 = index := by simpa using (List.mem_filter.1 hrow).2
    simp [rotationKey, hindex]
  exact hkeyed.insertionSort_perm ((h.rotationCheckpoints.filter _).map _) fun _ _ _ _ => seriesKey_of_seriesLE

theorem getCheckpoint (treeSize : Nat) : getCheckpoint other treeSize = getCheckpoint db treeSize := by
  unfold AhlMirror.getCheckpoint
  congr 1
  funext size
  have hkeyed := h.keys.series.filter fun row => row.treeSize == size
  rw [hkeyed.insertionSort_perm (h.checkpoints.filter _) fun a ha b hb hab hba => ?_]
  have hasize : a.treeSize = size := by simpa using (List.mem_filter.1 ha).2
  have hbsize : b.treeSize = size := by simpa using (List.mem_filter.1 hb).2
  exact seriesKey_eq.2 ⟨hasize.trans hbsize.symm, le_antisymm hba hab⟩

end Alike

/-! ### Reads -/

variable {H K : Type} [HashOctets H] {crates : Crates H K} {config : Config K}

theorem Alike.reads [DecidableEq H] {db other : Db} (h : Alike db other) : SameReads crates config db other where
  toSameNodes := h.toSameNodes
  seriesView := by
    unfold AhlMirror.seriesView
    rw [h.allCheckpoints, h.rootDivergences, h.toSameNodes.judgeMembers]
    simp only [h.toSameNodes.computeGapFreeFrontier crates config]
  rotationRows := funext h.rotationRows

/-! ### Writes -/

/-- Two computations end alike: with one error, or with values in relation. -/
abbrev Likewise {α β : Type} (R : α → β → Prop) : MirrorResult α → MirrorResult β → Prop := Matches (fun _ => False) R

/-- One outcome, on stores alike. -/
def OutcomeAlike {α : Type} (out otherOut : α × Db) : Prop := otherOut.1 = out.1 ∧ Alike out.2 otherOut.2

omit [HashOctets H] in
theorem subtreeBlob_putSubtreeRow {db : Db} {level index l i : Nat} {hash : Bytes} :
    subtreeBlob (putSubtreeRow db level index hash) l i = if l = level ∧ i = index then some hash else subtreeBlob db l i := by
  unfold subtreeBlob putSubtreeRow
  dsimp only
  by_cases hkey : l = level ∧ i = index
  · obtain ⟨rfl, rfl⟩ := hkey
    rw [AhlMirror.Core.find?_replaced (by simp)]
    simp
  · have hother : ∀ row : SubtreeRow, (row.level == (l : Int) && row.nodeIndex == (i : Int)) = true →
        (row.level == (level : Int) && row.nodeIndex == (index : Int)) = false := by
      intro row hrow
      simp only [Bool.and_eq_true, beq_iff_eq] at hrow
      rw [hrow.1, hrow.2, Bool.and_eq_false_iff, beq_eq_false_iff_ne, beq_eq_false_iff_ne, Ne, Ne, Nat.cast_inj, Nat.cast_inj]
      exact not_and_or.1 hkey
    have hnew : ([⟨level, index, hash⟩] : List SubtreeRow).find? (fun row => row.level == (l : Int) && row.nodeIndex == (i : Int)) = none := by
      rw [List.find?_singleton, if_neg]
      intro hrow
      simpa using hother _ hrow
    rw [if_neg hkey, List.find?_append, hnew, Option.or_none, AhlMirror.Core.find?_filter_not hother]

namespace Alike
variable {db other : Db} (h : Alike db other)
include h

omit [HashOctets H] in
theorem put (level index : Nat) (hash : Bytes) : Alike (putSubtreeRow db level index hash) (putSubtreeRow other level index hash) where
  entries := h.entries
  subtreeBlob l i := by rw [subtreeBlob_putSubtreeRow, subtreeBlob_putSubtreeRow, h.subtreeBlob]
  staged := h.staged
  checkpoints := h.checkpoints
  rotationCheckpoints := h.rotationCheckpoints
  keys := ⟨h.keys.series, h.keys.rotations⟩

omit [HashOctets H] in
theorem appendEntry (row : EntryRow) : Alike { db with entries := db.entries ++ [row] } { other with entries := other.entries ++ [row] } where
  entries := by rw [h.entries]
  subtreeBlob := h.subtreeBlob
  staged := h.staged
  checkpoints := h.checkpoints
  rotationCheckpoints := h.rotationCheckpoints
  keys := ⟨h.keys.series, h.keys.rotations⟩

end Alike

theorem Alike.extendSubtreeCacheLoop {count : Nat} : ∀ {fuel level width : Nat} {db other : Db}, Alike db other →
    Likewise Alike (extendSubtreeCacheLoop crates count fuel level width db) (extendSubtreeCacheLoop crates count fuel level width other)
  | 0, _, _, _, _, h => .ok h
  | fuel + 1, level, width, db, other, h => by
    have hrequire : ∀ level index, requireNode (H := H) db level index = requireNode other level index := by
      intro level index
      unfold requireNode
      rw [h.toSameNodes.treeNodeRaw]
    unfold AhlMirror.extendSubtreeCacheLoop
    split_ifs
    · refine (Matches.refl _).bind_eq fun rem => ?_
      split_ifs
      · exact .ok h
      · refine (Matches.refl _).bind_eq fun nodeIndex => (Matches.refl _).bind_eq fun leftIndex =>
          (Matches.refl _).bind_eq fun rightIndex => (Matches.refl _).bind_eq fun childLevel =>
          (Matches.of_eq (hrequire _ _)).bind_eq fun left => (Matches.of_eq (hrequire _ _)).bind_eq fun right =>
          (Matches.refl _).bind_eq fun nodeIndex => ?_
        have hput := h.put level nodeIndex (asSlice (crates.hashChildren left right))
        cases checkedMul width 2 with
        | none => exact .ok hput
        | some nextWidth => exact extendSubtreeCacheLoop hput
    · exact .ok h

theorem Alike.promoteEntryRaw {db other : Db} (h : Alike db other) (entryIndex : Nat) (entryId : String) :
    Likewise OutcomeAlike (promoteEntryRaw crates db entryIndex entryId) (promoteEntryRaw crates other entryIndex entryId) := by
  unfold AhlMirror.promoteEntryRaw
  rw [h.staged, h.toSameNodes.entryAt, h.toSameNodes.getEntryById, h.toSameNodes.nextIndex]
  refine (Matches.refl _).bind_eq fun index => (Matches.refl _).bind_eq fun bytes => ?_
  cases entryAt db index with
  | some existing =>
    dsimp only
    split_ifs
    · exact .ok ⟨rfl, h⟩
    · exact .error _
  | none =>
    cases getEntryById db entryId with
    | some existing => exact .error _
    | none =>
      refine (Matches.refl _).bind_eq fun expected => ?_
      split_ifs
      · exact .error _
      · have hextend : Likewise Alike (extendSubtreeCache crates _ entryIndex) (extendSubtreeCache crates _ entryIndex) :=
          (Matches.refl _).bind_eq fun count =>
            (h.appendEntry ⟨index, entryId, bytes, some (asSlice (logLeafHash crates bytes))⟩).extendSubtreeCacheLoop
        exact hextend.bind fun after otherAfter hafter => .ok ⟨rfl, hafter⟩

theorem Alike.promoteEntryIn {db other : Db} (h : Alike db other) (cp : Checkpoint) (entryId : String) (leafIndex : Nat)
    (path : List String) : Likewise OutcomeAlike (promoteEntryIn crates db cp entryId leafIndex path)
      (promoteEntryIn crates other cp entryId leafIndex path) := by
  unfold AhlMirror.promoteEntryIn
  rw [h.staged]
  refine (Matches.refl _).bind_eq fun bytes => (Matches.refl _).bind_eq fun root => (Matches.refl _).bind_eq fun included => ?_
  split_ifs
  · exact .error _
  · exact h.promoteEntryRaw leafIndex entryId

theorem Alike.promoteBatch {cp : Checkpoint} : ∀ {batch : List PendingPromotion} {db other : Db}, Alike db other →
    Likewise Alike (promoteBatch crates cp batch db) (promoteBatch crates cp batch other)
  | [], _, _, h => .ok h
  | p :: _, _, _, h => (h.promoteEntryIn cp p.entryId p.leafIndex p.inclusionPath).bind
      fun _ _ hout => promoteBatch hout.2

omit [HashOctets H] in
theorem Alike.insertCheckpointRaw {db other : Db} (h : Alike db other) (cp : Checkpoint) :
    Likewise OutcomeAlike (insertCheckpointRaw db cp) (insertCheckpointRaw other cp) := by
  have hfind : ∀ size time, (other.checkpoints.find? fun row => row.treeSize == size && row.checkpointTime == time) =
      db.checkpoints.find? fun row => row.treeSize == size && row.checkpointTime == time := fun size time =>
    h.keys.series.find?_perm h.checkpoints fun a b ha hb => by
      simp only [Bool.and_eq_true, beq_iff_eq] at ha hb
      exact seriesKey_eq.2 ⟨ha.1.trans hb.1.symm, ha.2.trans hb.2.symm⟩
  have hkeys : ∀ after outcome, AhlMirror.insertCheckpointRaw db cp = .ok (outcome, after) → UniqueKeys after :=
    fun _ _ => h.keys.insertCheckpoint
  unfold AhlMirror.insertCheckpointRaw at hkeys ⊢
  cases hsize : toI64 "tree_size" cp.treeSize with
  | error e => exact .error e
  | ok size =>
    rw [hsize] at hkeys
    simp only [ok_bind, hfind] at hkeys ⊢
    cases hheld : db.checkpoints.find? fun row => row.treeSize == size && row.checkpointTime == cp.checkpointTime with
    | some existing =>
      dsimp only
      split_ifs
      · exact .ok ⟨rfl, h⟩
      · exact .error _
    | none =>
      rw [hheld] at hkeys
      exact .ok ⟨rfl, ⟨h.entries, h.subtreeBlob⟩, h.staged, h.checkpoints.append_right [cp], h.rotationCheckpoints, hkeys _ _ rfl⟩

omit [HashOctets H] in
theorem Alike.recordSeriesMember {db other : Db} (h : Alike db other) (cp : Checkpoint) (seriesMember : Bool) :
    Likewise Alike (recordSeriesMember cp seriesMember db) (recordSeriesMember cp seriesMember other) := by
  unfold AhlMirror.recordSeriesMember
  split_ifs
  · exact .ok h
  · exact (h.insertCheckpointRaw cp).bind fun _ _ hout => .ok hout.2

omit [HashOctets H] in
theorem Alike.insertRotationCheckpointRaw {db other : Db} (h : Alike db other) (manifestEntryIndex : Nat) (cp : Checkpoint) :
    Likewise OutcomeAlike (insertRotationCheckpointRaw db manifestEntryIndex cp)
      (insertRotationCheckpointRaw other manifestEntryIndex cp) := by
  have hfind : ∀ index size time, (other.rotationCheckpoints.find? fun row =>
      row.1 == index && row.2.treeSize == size && row.2.checkpointTime == time) = db.rotationCheckpoints.find? fun row =>
        row.1 == index && row.2.treeSize == size && row.2.checkpointTime == time := fun index size time =>
    h.keys.rotations.find?_perm h.rotationCheckpoints fun a b ha hb => by
      simp only [Bool.and_eq_true, beq_iff_eq] at ha hb
      exact Prod.ext (ha.1.1.trans hb.1.1.symm) (seriesKey_eq.2 ⟨ha.1.2.trans hb.1.2.symm, ha.2.trans hb.2.symm⟩)
  have hkeys : ∀ after outcome, AhlMirror.insertRotationCheckpointRaw db manifestEntryIndex cp = .ok (outcome, after) →
      UniqueKeys after := fun _ _ => h.keys.insertRotationCheckpoint
  have halike : ∀ index, UniqueKeys { db with rotationCheckpoints := db.rotationCheckpoints ++ [(index, cp)] } →
      Alike { db with rotationCheckpoints := db.rotationCheckpoints ++ [(index, cp)] }
        { other with rotationCheckpoints := other.rotationCheckpoints ++ [(index, cp)] } := fun index hunique =>
    ⟨⟨h.entries, h.subtreeBlob⟩, h.staged, h.checkpoints, h.rotationCheckpoints.append_right _, hunique⟩
  unfold AhlMirror.insertRotationCheckpointRaw at hkeys ⊢
  cases hindex : toI64 "manifest_entry_index" manifestEntryIndex with
  | error e => exact .error e
  | ok index =>
    cases hsize : toI64 "tree_size" cp.treeSize with
    | error e => exact .error e
    | ok size =>
      rw [hindex, hsize] at hkeys
      simp only [ok_bind, hfind, h.rotationRows] at hkeys ⊢
      cases hheld : db.rotationCheckpoints.find? fun row =>
          row.1 == index && row.2.treeSize == size && row.2.checkpointTime == cp.checkpointTime with
      | some existing =>
        dsimp only
        split_ifs
        · exact .ok ⟨rfl, h⟩
        · exact .error _
      | none =>
        rw [hheld] at hkeys
        dsimp only at hkeys ⊢
        cases hhead : (AhlMirror.rotationRows db index).head? with
        | none =>
          rw [hhead] at hkeys
          exact .ok ⟨rfl, halike index (hkeys _ _ rfl)⟩
        | some held =>
          rw [hhead] at hkeys
          dsimp only at hkeys ⊢
          split_ifs at hkeys ⊢ with hle
          · exact .ok ⟨rfl, h⟩
          · exact .ok ⟨rfl, halike index (hkeys _ _ rfl)⟩

omit [HashOctets H] in
theorem Alike.insertRotationCheckpoints {cp : Checkpoint} : ∀ {anchors : List Nat} {db other : Db}, Alike db other →
    Likewise Alike (insertRotationCheckpoints cp anchors db) (insertRotationCheckpoints cp anchors other)
  | [], _, _, h => .ok h
  | index :: _, _, _, h => (h.insertRotationCheckpointRaw index cp).bind fun _ _ hout => insertRotationCheckpoints hout.2

omit [HashOctets H] in
theorem Alike.overlayPending {db other : Db} (h : Alike db other) :
    overlayPending crates other = overlayPending crates db := by
  funext len target root overlay p
  unfold AhlMirror.overlayPending
  rw [h.staged]

omit [HashOctets H] in
theorem Alike.buildVisiblePrefix {db other : Db} (h : Alike db other) (batch : List PendingPromotion) (target : Nat) (root : H) :
    buildVisiblePrefix crates other batch target root = buildVisiblePrefix crates db batch target root := by
  unfold AhlMirror.buildVisiblePrefix
  rw [h.toSameNodes.getEntriesRangeRaw, h.overlayPending]

theorem Alike.judgeCheckpoint {db other : Db} (h : Alike db other) (cp : Checkpoint) (raw : Option Bytes)
    (batch : List PendingPromotion) (rotationFor : Option Nat) :
    judgeCheckpoint crates config other cp raw batch rotationFor = judgeCheckpoint crates config db cp raw batch rotationFor := by
  unfold AhlMirror.judgeCheckpoint
  simp only [h.buildVisiblePrefix]

theorem Alike.stageEntry {db other : Db} (h : Alike db other) (claimed : String) (bytes : Bytes) (metadata : Value) :
    Likewise OutcomeAlike (stageEntry crates db claimed bytes metadata) (stageEntry crates other claimed bytes metadata) := by
  rcases stageEntry_eq crates claimed bytes metadata with ⟨e, hrefused⟩ | hasked
  · rw [hrefused, hrefused]
    exact .error e
  · rw [hasked, hasked]
    unfold storeStageEntry
    rw [h.staged]
    cases getStagedRaw db (sha256Id crates bytes) with
    | some existing =>
      dsimp only
      split_ifs
      · exact .ok ⟨rfl, h⟩
      · exact .error _
    | none =>
      refine .ok ⟨rfl, ⟨h.entries, h.subtreeBlob⟩, fun entryId => ?_, h.checkpoints, h.rotationCheckpoints, ⟨h.keys.series, h.keys.rotations⟩⟩
      rw [getStagedRaw_append, getStagedRaw_append, h.staged]

theorem Alike.commitAdmission [DecidableEq H] {db other : Db} (h : Alike db other) (cp : Checkpoint) (batch : List PendingPromotion)
    (claimedRoot : H) (admission : Admission) :
    Likewise OutcomeAlike (commitAdmission crates cp batch claimedRoot admission db)
      (commitAdmission crates cp batch claimedRoot admission other) := by
  unfold AhlMirror.commitAdmission
  refine h.promoteBatch.bind fun mid otherMid hmid => ?_
  rw [hmid.toSameNodes.contradictsStored]
  refine (Matches.refl _).bind_eq fun contradicts => ?_
  split_ifs
  · exact .error _
  · refine (hmid.recordSeriesMember cp _).bind fun recorded otherRecorded hrecorded => ?_
    exact hrecorded.insertRotationCheckpoints.bind fun after otherAfter hafter => .ok ⟨rfl, hafter⟩

theorem Alike.withTransaction {α : Type} {db other : Db} (h : Alike db other) (f : Db → MirrorResult (α × Db))
    (hf : Likewise OutcomeAlike (f db) (f other)) :
    (withTransaction other f).2 = (withTransaction db f).2 ∧ Alike (withTransaction db f).1 (withTransaction other f).1 := by
  unfold AhlMirror.withTransaction
  cases hdb : f db with
  | ok out =>
    rw [hdb] at hf
    obtain ⟨otherOut, hother, hvalue, halike⟩ := hf
    rw [hother]
    exact ⟨congrArg Except.ok hvalue, halike⟩
  | error e =>
    rw [hdb] at hf
    rw [hf.resolve_left id]
    exact ⟨rfl, h⟩

end AhlMirror
