import AhlMirror.Core.Matching
import AhlMirror.Model.Checkpoint
import AhlMirror.Store.Reads

/-!
# Two stores side by side

Stores that hold the same entries, derived nodes and series members, one of them perhaps more staged rows
(`Beside`); their rotation rows are left open. An admission judges and promotes alike on both, and leaves
them so (`Steps`), unless it failed on the first for an entry that only the second has staged (`Excused`).
-/

namespace AhlMirror

open AhlMirror.Core (Matches)

/-- The same tree and series members, and every staged row. -/
structure Beside (db other : Db) : Prop extends SameTree db other where
  checkpoints : other.checkpoints = db.checkpoints
  staged : ∀ entryId bytes, getStagedRaw db entryId = some bytes → getStagedRaw other entryId = some bytes

/-- The staged and the rotation rows are left alone. -/
structure Frame (db after : Db) : Prop where
  staged : after.stagedEntries = db.stagedEntries
  rotationCheckpoints : after.rotationCheckpoints = db.rotationCheckpoints

/-- The failure for an entry that the two stores do not hold alike. -/
def Excused (db other : Db) (e : MirrorError) : Prop :=
  ∃ entryId, e = .notStaged entryId ∧ getStagedRaw other entryId ≠ getStagedRaw db entryId

/-- The stores after a step are side by side again, each with its staged and rotation rows. -/
structure Steps (db other after otherAfter : Db) : Prop where
  beside : Beside after otherAfter
  frame : Frame db after
  otherFrame : Frame other otherAfter

theorem Frame.refl (db : Db) : Frame db db := ⟨rfl, rfl⟩

theorem Frame.trans {a b c : Db} (h : Frame a b) (h' : Frame b c) : Frame a c :=
  ⟨h'.staged.trans h.staged, h'.rotationCheckpoints.trans h.rotationCheckpoints⟩

theorem Frame.getStagedRaw {db after : Db} (h : Frame db after) (entryId : String) :
    getStagedRaw after entryId = getStagedRaw db entryId := by
  unfold AhlMirror.getStagedRaw
  rw [h.staged]

theorem Beside.steps {db other : Db} (h : Beside db other) : Steps db other db other :=
  ⟨h, Frame.refl db, Frame.refl other⟩

theorem Steps.trans {db other mid otherMid after otherAfter : Db} (h : Steps db other mid otherMid)
    (h' : Steps mid otherMid after otherAfter) : Steps db other after otherAfter :=
  ⟨h'.beside, h.frame.trans h'.frame, h.otherFrame.trans h'.otherFrame⟩

theorem Steps.excused {db other mid otherMid : Db} (h : Steps db other mid otherMid) {e : MirrorError}
    (he : Excused mid otherMid e) : Excused db other e := by
  obtain ⟨entryId, rfl, hne⟩ := he
  rw [h.frame.getStagedRaw, h.otherFrame.getStagedRaw] at hne
  exact ⟨entryId, rfl, hne⟩

theorem Steps.then {db other mid otherMid : Db} (h : Steps db other mid otherMid) {x y : MirrorResult Db}
    (hnext : Matches (Excused mid otherMid) (Steps mid otherMid) x y) :
    Matches (Excused db other) (Steps db other) x y :=
  hnext.mono (fun _ => h.excused) fun _ _ => h.trans

theorem Beside.requireStaged {db other : Db} (h : Beside db other) (entryId : String) :
    Matches (Excused db other) Eq (okOr (.notStaged entryId) (getStagedRaw db entryId))
      (okOr (.notStaged entryId) (getStagedRaw other entryId)) := by
  cases hdb : getStagedRaw db entryId with
  | some bytes =>
    rw [h.staged entryId bytes hdb]
    exact .refl _
  | none =>
    cases hother : getStagedRaw other entryId with
    | none => exact .refl _
    | some bytes => exact .excuse ⟨entryId, rfl, by rw [hdb, hother]; simp⟩

variable {H K : Type} [HashOctets H] {crates : Crates H K} {config : Config K}

/-! ### Promotion -/

theorem Beside.extendSubtreeCacheLoop {count : Nat} : ∀ {fuel level width : Nat} {db other : Db}, Beside db other →
    Matches (Excused db other) (Steps db other) (extendSubtreeCacheLoop crates count fuel level width db)
      (extendSubtreeCacheLoop crates count fuel level width other)
  | 0, _, _, _, _, h => .ok h.steps
  | fuel + 1, level, width, db, other, h => by
    have hrequire : ∀ level index, requireNode (H := H) other level index = requireNode db level index := by
      intro level index
      unfold requireNode
      rw [h.toSameTree.nodes.treeNodeRaw]
    unfold AhlMirror.extendSubtreeCacheLoop
    split_ifs
    · refine (Matches.refl _).bind_eq fun rem => ?_
      split_ifs
      · exact .ok h.steps
      · refine (Matches.refl _).bind_eq fun nodeIndex => (Matches.refl _).bind_eq fun leftIndex =>
          (Matches.refl _).bind_eq fun rightIndex => (Matches.refl _).bind_eq fun childLevel =>
          (Matches.of_eq (hrequire _ _).symm).bind_eq fun left => (Matches.of_eq (hrequire _ _).symm).bind_eq fun right =>
          (Matches.refl _).bind_eq fun nodeIndex => ?_
        have hput : Steps db other (putSubtreeRow db level nodeIndex (asSlice (crates.hashChildren left right)))
            (putSubtreeRow other level nodeIndex (asSlice (crates.hashChildren left right))) :=
          ⟨⟨⟨h.entries, by unfold putSubtreeRow; rw [h.subtreeRoots]⟩, h.checkpoints, h.staged⟩, ⟨rfl, rfl⟩, ⟨rfl, rfl⟩⟩
        cases checkedMul width 2 with
        | none => exact .ok hput
        | some nextWidth => exact hput.then (extendSubtreeCacheLoop hput.beside)
    · exact .ok h.steps

/-- An outcome and the stores after it. -/
def StepsTo {α : Type} (db other : Db) (out otherOut : α × Db) : Prop :=
  otherOut.1 = out.1 ∧ Steps db other out.2 otherOut.2

theorem Beside.promoteEntryRaw {db other : Db} (h : Beside db other) (entryIndex : Nat) (entryId : String) :
    Matches (Excused db other) (StepsTo db other) (promoteEntryRaw crates db entryIndex entryId)
      (promoteEntryRaw crates other entryIndex entryId) := by
  unfold AhlMirror.promoteEntryRaw
  refine (Matches.refl _).bind_eq fun index => (h.requireStaged entryId).bind_eq fun bytes => ?_
  rw [h.toSameTree.nodes.entryAt, h.toSameTree.nodes.getEntryById, h.toSameTree.nodes.nextIndex]
  cases entryAt db index with
  | some existing =>
    dsimp only
    split_ifs
    · exact .ok ⟨rfl, h.steps⟩
    · exact .error _
  | none =>
    cases getEntryById db entryId with
    | some existing => exact .error _
    | none =>
      refine (Matches.refl _).bind_eq fun expected => ?_
      split_ifs
      · exact .error _
      · have hrow : Steps db other
            { db with entries := db.entries ++ [⟨index, entryId, bytes, some (asSlice (logLeafHash crates bytes))⟩] }
            { other with entries := other.entries ++ [⟨index, entryId, bytes, some (asSlice (logLeafHash crates bytes))⟩] } :=
          ⟨⟨⟨by rw [h.entries], h.subtreeRoots⟩, h.checkpoints, h.staged⟩, ⟨rfl, rfl⟩, ⟨rfl, rfl⟩⟩
        have hextend : Matches (Excused db other) (Steps db other) (extendSubtreeCache crates _ entryIndex)
            (extendSubtreeCache crates _ entryIndex) := hrow.then
          ((Matches.refl _).bind_eq fun count => hrow.beside.extendSubtreeCacheLoop)
        exact hextend.bind fun after otherAfter hafter => .ok ⟨rfl, hafter⟩

theorem Beside.promoteEntryIn {db other : Db} (h : Beside db other) (cp : Checkpoint) (entryId : String)
    (leafIndex : Nat) (path : List String) :
    Matches (Excused db other) (StepsTo db other) (promoteEntryIn crates db cp entryId leafIndex path)
      (promoteEntryIn crates other cp entryId leafIndex path) := by
  unfold AhlMirror.promoteEntryIn
  refine (h.requireStaged entryId).bind_eq fun bytes => (Matches.refl _).bind_eq fun root =>
    (Matches.refl _).bind_eq fun included => ?_
  split_ifs
  · exact .error _
  · exact h.promoteEntryRaw leafIndex entryId

theorem Beside.promoteBatch {cp : Checkpoint} : ∀ {batch : List PendingPromotion} {db other : Db}, Beside db other →
    Matches (Excused db other) (Steps db other) (promoteBatch crates cp batch db) (promoteBatch crates cp batch other)
  | [], _, _, h => .ok h.steps
  | p :: rest, db, other, h => by
    unfold AhlMirror.promoteBatch
    refine (h.promoteEntryIn cp p.entryId p.leafIndex p.inclusionPath).bind fun out otherOut hout => ?_
    exact hout.2.then (promoteBatch hout.2.beside)

/-! ### Admission -/

variable (crates config) in
theorem Beside.judgeCheckpoint {db other : Db} (h : Beside db other) (cp : Checkpoint) (raw : Option Bytes)
    (batch : List PendingPromotion) (rotationFor : Option Nat) :
    Matches (Excused db other) Eq (judgeCheckpoint crates config db cp raw batch rotationFor)
      (judgeCheckpoint crates config other cp raw batch rotationFor) := by
  have hoverlay : ∀ (len target : Nat) (root : H) (overlay : Overlay) (p : PendingPromotion),
      Matches (Excused db other) Eq (overlayPending crates db len target root overlay p)
        (overlayPending crates other len target root overlay p) := by
    intro len target root overlay p
    unfold overlayPending
    split_ifs
    · exact .refl _
    · exact .refl _
    · exact .refl _
    · exact (h.requireStaged p.entryId).bind_eq fun bytes => .refl _
  have hvisible : ∀ (target : Nat) (root : H), Matches (Excused db other) Eq
      (buildVisiblePrefix crates db batch target root) (buildVisiblePrefix crates other batch target root) := by
    intro target root
    unfold buildVisiblePrefix
    rw [h.toSameTree.nodes.getEntriesRangeRaw]
    exact (Matches.refl _).bind_eq fun canonical => (Matches.foldlM (hoverlay _ _ _) batch []).bind_eq fun overlay => .refl _
  unfold AhlMirror.judgeCheckpoint
  split_ifs
  · exact .error _
  · exact (Matches.refl _).bind_eq fun root => (hvisible _ root).bind_eq fun visible => .refl _

theorem Beside.recordSeriesMember {db other : Db} (h : Beside db other) (cp : Checkpoint) (seriesMember : Bool) :
    Matches (Excused db other) (Steps db other) (recordSeriesMember cp seriesMember db)
      (recordSeriesMember cp seriesMember other) := by
  unfold AhlMirror.recordSeriesMember
  split_ifs
  · exact .ok h.steps
  · have hinsert : Matches (Excused db other) (StepsTo db other) (insertCheckpointRaw db cp)
        (insertCheckpointRaw other cp) := by
      unfold insertCheckpointRaw
      rw [h.checkpoints]
      refine (Matches.refl _).bind_eq fun treeSize => ?_
      cases db.checkpoints.find? fun row => row.treeSize == treeSize && row.checkpointTime == cp.checkpointTime with
      | some existing =>
        dsimp only
        split_ifs
        · exact .ok ⟨rfl, h.steps⟩
        · exact .error _
      | none => exact .ok ⟨rfl, ⟨⟨h.entries, h.subtreeRoots⟩, rfl, h.staged⟩, ⟨rfl, rfl⟩, ⟨rfl, rfl⟩⟩
    exact hinsert.bind fun out otherOut hout => .ok hout.2

variable [DecidableEq H]

/-- The transaction of an admission before its rotation rows. -/
def commitMember (crates : Crates H K) (cp : Checkpoint) (batch : List PendingPromotion) (claimedRoot : H)
    (seriesMember : Bool) (db : Db) : MirrorResult Db := do
  let db ← promoteBatch crates cp batch db
  let contradicts ← contradictsStored crates db cp.treeSize claimedRoot
  if contradicts then .error (.checkpointRootMismatch cp.treeSize)
  else recordSeriesMember cp seriesMember db

theorem commitAdmission_eq {cp : Checkpoint} {batch : List PendingPromotion} {claimedRoot : H} {admission : Admission}
    {db : Db} : commitAdmission crates cp batch claimedRoot admission db =
      commitMember crates cp batch claimedRoot admission.seriesMember db >>= fun mid =>
        insertRotationCheckpoints cp admission.rotationAnchors mid >>= fun after => .ok (admission, after) := by
  unfold commitAdmission commitMember
  cases promoteBatch crates cp batch db with
  | error e => rfl
  | ok mid =>
    simp only [ok_bind]
    cases contradictsStored crates mid cp.treeSize claimedRoot with
    | error e => rfl
    | ok contradicts =>
      simp only [ok_bind]
      split_ifs <;> rfl

variable (crates) in
theorem Beside.commitMember {db other : Db} (h : Beside db other) (cp : Checkpoint) (batch : List PendingPromotion)
    (claimedRoot : H) (seriesMember : Bool) :
    Matches (Excused db other) (Steps db other) (commitMember crates cp batch claimedRoot seriesMember db)
      (commitMember crates cp batch claimedRoot seriesMember other) := by
  unfold AhlMirror.commitMember
  refine h.promoteBatch.bind fun mid otherMid hmid => ?_
  rw [hmid.beside.toSameTree.nodes.contradictsStored]
  refine (Matches.refl _).bind_eq fun contradicts => ?_
  split_ifs
  · exact .error _
  · exact hmid.then (hmid.beside.recordSeriesMember cp seriesMember)

end AhlMirror
