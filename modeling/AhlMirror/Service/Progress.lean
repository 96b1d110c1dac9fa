import AhlMirror.Series.Labels
import AhlMirror.Server.Log
import AhlMirror.Server.Serial
import AhlMirror.Service.Ledger

/-!
# Keeping up with a log

A mirror fed from one log is never stuck: a checkpoint over the log that verifies under the governance its own
prefix resolves to, submitted with the log's entries from anywhere the mirror already reaches, is judged a
series member, and the commit can be refused for one reason alone, another checkpoint filed at its size and
time. Whatever else the server takes in between its locks, the entries of others are the log's as well.
-/

namespace AhlMirror

open AhlMirror.Core (Keyed Machine)
open Merkle

/-! ### What a log submits -/

section submission
variable {H K : Type} (crates : Crates H K) (log : List Bytes)

def logLeaf (index : Nat) : H := logLeafHash crates (log[index]?.getD [])

variable [HashOctets H]

/-- The entry at an index, with the path the log proves it by. -/
def logPending (treeSize index : Nat) : PendingPromotion :=
  ⟨sha256Id crates (log[index]?.getD []), index,
    crates.proofPathHex ⟨index, treeSize, auditPath crates.hashChildren (logLeaf crates log) 0 treeSize index⟩⟩

/-- The entries below `treeSize`, from `start` on. -/
def logBatch (start treeSize : Nat) : List PendingPromotion :=
  (List.range' start (treeSize - start)).map (logPending crates log treeSize)

/-- The bytes of these entries are staged. -/
def StagedFrom (start treeSize : Nat) (db : Db) : Prop :=
  ∀ i bytes, start ≤ i → i < treeSize → log[i]? = some bytes → getStagedRaw db (sha256Id crates bytes) = some bytes

/-- The entries at some indices, as slots of an overlay. -/
def logSlots (indices : List Nat) : Overlay := indices.map fun i => (i, log[i]?.getD [])

/-- Of the items of a batch from `start` on, those that are laid over `reached` canonical entries. -/
def laidIndices (start reached turns : Nat) : List Nat := (List.range' start turns).filter (reached ≤ ·)

/-- A store of the log's first entries, each under its id. -/
structure HoldsLog (db : Db) : Prop where
  represents : Represents crates db
  filed : ∀ row ∈ db.entries, sha256Id crates row.envelope = row.entryId
  fromLog : canonicalEntries db <+: log

end submission

variable {H K : Type} {crates : Crates H K} {config : Config K} {log : List Bytes}

theorem getD_of_getElem? {index : Nat} {bytes : Bytes} (h : log[index]? = some bytes) : log[index]?.getD [] = bytes := by
  rw [h]
  rfl

theorem logLeaf_eq {index : Nat} {bytes : Bytes} (h : log[index]? = some bytes) :
    logLeaf crates log index = logLeafHash crates bytes := by
  unfold logLeaf
  rw [getD_of_getElem? h]

theorem logPath_verified (hpath : PathLaws crates) {treeSize index : Nat} {bytes : Bytes} (hlength : treeSize ≤ log.length)
    (hindex : index < treeSize) (hat : log[index]? = some bytes) :
    verifyInclusionFor crates bytes index treeSize
      (crates.proofPathHex ⟨index, treeSize, auditPath crates.hashChildren (logLeaf crates log) 0 treeSize index⟩)
      (mth crates.hashChildren (crates.digest []) ((log.take treeSize).map (logLeafHash crates))) = .ok true := by
  have hroot : mth crates.hashChildren (crates.digest []) ((log.map (logLeafHash crates)).take treeSize) =
      spanRoot crates.hashChildren (logLeaf crates log) 0 treeSize := by
    refine mth_take _ _ _ _ (by omega) (by simpa using hlength) fun i hi => ?_
    rw [List.getElem_map]
    exact logLeaf_eq (List.getElem?_eq_getElem (by simpa using hi))
  have hproof := hpath.proofFromHex
    ⟨index, treeSize, auditPath crates.hashChildren (logLeaf crates log) 0 treeSize index⟩
  have hverify := hpath.verifyInclusion (logLeaf crates log) index treeSize hindex
  rw [logLeaf_eq hat, ← hroot, ← List.map_take] at hverify
  unfold verifyInclusionFor
  dsimp only at hproof ⊢
  rw [hproof, mapErr, ok_bind, hverify, mapErr]

variable [HashOctets H]

/-! ### The batch -/

theorem index_of_sha256Id (hdigest : Function.Injective crates.digest) {treeSize i j : Nat} {a b : Bytes}
    (hdistinct : (log.take treeSize).Nodup) (hi : i < treeSize) (hj : j < treeSize) (ha : log[i]? = some a)
    (hb : log[j]? = some b) (hid : sha256Id crates a = sha256Id crates b) : i = j := by
  obtain rfl := hdigest (digest_eq_of_sha256Id hid)
  have hbelow : i < (log.take treeSize).length := by
    rw [List.length_take]
    exact lt_min hi (List.getElem?_eq_some_iff.1 ha).1
  refine (List.getElem?_inj hbelow hdistinct).1 ?_
  rw [List.getElem?_take_of_lt hi, List.getElem?_take_of_lt hj, ha, hb]

theorem HoldsLog.at {db : Db} (h : HoldsLog crates log db) {i : Nat} (hi : i < db.entries.length) :
    log[i]? = some db.entries[i].envelope := by
  have hinitial := List.prefix_iff_getElem?.1 h.fromLog i (by simpa using hi)
  rw [hinitial]
  simp [canonicalEntries]

theorem Represents.promoteNext {db : Db} (h : Represents crates db) {entryId : String} {bytes : Bytes}
    (hroom : db.entries.length < i64Bound) (hstaged : getStagedRaw db entryId = some bytes)
    (hfresh : entryId ∉ db.entries.map (·.entryId)) :
    ∃ after, promoteEntryRaw crates db db.entries.length entryId = .ok (.inserted, after) := by
  obtain ⟨rows, hextend, -⟩ := h.extend entryId bytes hroom hfresh
  have hnone : getEntryById db entryId = none := by
    unfold getEntryById
    rw [Option.map_eq_none_iff, List.find?_eq_none]
    exact fun row hrow hid => hfresh (List.mem_map.2 ⟨row, hrow, by simpa using hid⟩)
  unfold promotedRow at hextend
  unfold promoteEntryRaw
  rw [toI64_of_lt hroom, ok_bind, hstaged, okOr, ok_bind, h.toCanonical.entryAt, List.getElem?_eq_none le_rfl]
  dsimp only
  rw [hnone]
  dsimp only
  rw [h.toCanonical.nextIndex, ok_bind, if_neg (by simp), hextend, ok_bind]
  exact ⟨_, rfl⟩

theorem Represents.promoteHeld {db : Db} (h : Represents crates db) {i : Nat} (hi : i < db.entries.length)
    (hbound : i < i64Bound) (hstaged : getStagedRaw db db.entries[i].entryId = some db.entries[i].envelope) :
    promoteEntryRaw crates db i db.entries[i].entryId = .ok (.alreadyPresent, db) := by
  unfold promoteEntryRaw
  rw [toI64_of_lt hbound, ok_bind, hstaged, okOr, ok_bind, h.toCanonical.entryAt, List.getElem?_eq_getElem hi]
  dsimp only
  rw [if_pos ⟨rfl, rfl⟩]

section batch
variable (hpath : PathLaws crates) (hdigest : Function.Injective crates.digest) {cp : Checkpoint}
  (hof : OfLog crates log cp) (hsize : cp.treeSize < i64Bound) (hdistinct : (log.take cp.treeSize).Nodup)
include hpath hdigest hof hsize hdistinct

theorem HoldsLog.promote [DecidableEq H] {db : Db} (h : HoldsLog crates log db) {i : Nat} (hi : i < cp.treeSize)
    (hnext : i ≤ db.entries.length) (hstaged : StagedFrom crates log i cp.treeSize db) :
    ∃ outcome after, promoteEntryIn crates db cp (logPending crates log cp.treeSize i).entryId
        (logPending crates log cp.treeSize i).leafIndex (logPending crates log cp.treeSize i).inclusionPath =
          .ok (outcome, after) ∧
      HoldsLog crates log after ∧ after.entries.length = max db.entries.length (i + 1) := by
  obtain ⟨bytes, hat⟩ : ∃ bytes, log[i]? = some bytes := ⟨_, List.getElem?_eq_getElem (hi.trans_le hof.1)⟩
  have hbytes := hstaged i bytes le_rfl hi hat
  unfold promoteEntryIn logPending
  dsimp only
  rw [getD_of_getElem? hat, hbytes, okOr, ok_bind, hof.2, mapErr, ok_bind, logPath_verified hpath hof.1 hi hat, ok_bind,
    if_neg (by decide)]
  rcases hnext.lt_or_eq with hlt | rfl
  · -- canonical already
    obtain rfl := Option.some.inj ((h.at hlt).symm.trans hat)
    have hid := h.filed _ (List.getElem_mem hlt)
    rw [hid] at hbytes ⊢
    exact ⟨_, db, h.represents.promoteHeld hlt (by omega) hbytes, h, by omega⟩
  · have hfresh : sha256Id crates bytes ∉ db.entries.map (·.entryId) := by
      intro hmem
      obtain ⟨row, hrow, hid⟩ := List.mem_map.1 hmem
      obtain ⟨j, hj, rfl⟩ := List.mem_iff_getElem.1 hrow
      have hsame := index_of_sha256Id hdigest hdistinct (hj.trans hi) hi (h.at hj) hat ((h.filed _ hrow).trans hid)
      omega
    obtain ⟨after, hpromote⟩ := h.represents.promoteNext (by omega) hbytes hfresh
    refine ⟨_, after, hpromote, ?_⟩
    rcases promoteEntryRaw_cases h.represents hpromote with ⟨-, hlt, -⟩ | ⟨bytes', rows, hbytes', -, -, rfl, hrep⟩
    · omega
    · obtain rfl := Option.some.inj (hbytes.symm.trans hbytes')
      refine ⟨⟨hrep, fun row hrow => ?_, ?_⟩, by simp⟩
      · rcases List.mem_append.1 hrow with hold | hnew
        · exact h.filed row hold
        · obtain rfl := List.mem_singleton.1 hnew
          rfl
      · have hentries : canonicalEntries { db with
            entries := db.entries ++ [promotedRow crates db (sha256Id crates bytes) bytes], subtreeRoots := rows } =
              canonicalEntries db ++ [bytes] := by simp [canonicalEntries, promotedRow]
        have htake : canonicalEntries db = log.take db.entries.length := by
          rw [← length_canonicalEntries]
          exact List.prefix_iff_eq_take.1 h.fromLog
        have hnextTake : canonicalEntries db ++ [bytes] = log.take (db.entries.length + 1) := by
          rw [List.take_add_one, hat, htake]
          rfl
        rw [hentries, hnextTake]
        exact List.take_prefix _ _

theorem HoldsLog.promoteRange [DecidableEq H] (count : Nat) : ∀ {start : Nat} {db : Db}, HoldsLog crates log db →
    start ≤ db.entries.length → start + count ≤ max start cp.treeSize → StagedFrom crates log start cp.treeSize db →
      ∃ after, promoteBatch crates cp ((List.range' start count).map (logPending crates log cp.treeSize)) db = .ok after ∧
        HoldsLog crates log after ∧ after.entries.length = max db.entries.length (start + count) := by
  induction count with
  | zero => exact fun {start db} h hstart _ _ => ⟨db, rfl, h, by omega⟩
  | succ count ih =>
    intro start db h hstart hcount hstaged
    obtain ⟨outcome, mid, hpromote, hmid, hlength⟩ :=
      h.promote hpath hdigest hof hsize hdistinct (show start < cp.treeSize by omega) hstart hstaged
    have hgrow := (promoteEntryIn_grow h.represents hpromote).2.grows
    obtain ⟨after, hrest, hafter, hlength'⟩ := ih hmid (by omega) (show start + 1 + count ≤ _ by omega)
      fun i bytes hi hlt hat => hgrow.getStagedRaw (hstaged i bytes (by omega) hlt hat)
    refine ⟨after, ?_, hafter, by omega⟩
    rw [List.range'_succ, List.map_cons, promoteBatch, hpromote]
    exact hrest

theorem HoldsLog.promoteBatch [DecidableEq H] {db : Db} (h : HoldsLog crates log db) {start : Nat}
    (hstart : start ≤ db.entries.length) (hstaged : StagedFrom crates log start cp.treeSize db) :
    ∃ after, promoteBatch crates cp (logBatch crates log start cp.treeSize) db = .ok after ∧
      HoldsLog crates log after ∧ cp.treeSize ≤ after.entries.length := by
  obtain ⟨after, hbatch, hafter, hlength⟩ := h.promoteRange hpath hdigest hof hsize hdistinct (cp.treeSize - start) hstart
    (by omega) hstaged
  exact ⟨after, hbatch, hafter, by omega⟩

end batch

/-! ### The commit -/

/-- Another checkpoint is filed at the size and time of this one, in the series or for a rotation it anchors. -/
def Displaced (db : Db) (cp : Checkpoint) (anchors : List Nat) : Prop :=
  (∃ row ∈ db.checkpoints, row.seriesKey = cp.seriesKey ∧ row ≠ cp) ∨ ∃ index ∈ anchors, Clash db index cp

instance (db : Db) (index : Nat) (cp : Checkpoint) : Decidable (Clash db index cp) :=
  decidable_of_iff (∃ row ∈ db.rotationCheckpoints, row.1 = index ∧ row.2.treeSize = cp.treeSize ∧
    row.2.checkpointTime = cp.checkpointTime ∧ row.2 ≠ cp)
    ⟨fun ⟨row, hrow, hindex, hrest⟩ => ⟨row.2, hindex ▸ hrow, hrest⟩, fun ⟨_, hheld, hrest⟩ => ⟨_, hheld, rfl, hrest⟩⟩

instance (db : Db) (cp : Checkpoint) (anchors : List Nat) : Decidable (Displaced db cp anchors) :=
  inferInstanceAs (Decidable ((∃ row ∈ db.checkpoints, row.seriesKey = cp.seriesKey ∧ row ≠ cp) ∨
    ∃ index ∈ anchors, Clash db index cp))

omit [HashOctets H] in
theorem insertCheckpointRaw_ok_iff {db : Db} (h : UniqueKeys db) {cp : Checkpoint} (hsize : cp.treeSize < i64Bound) :
    (∃ out, insertCheckpointRaw db cp = .ok out) ↔ ¬ ∃ row ∈ db.checkpoints, row.seriesKey = cp.seriesKey ∧ row ≠ cp := by
  unfold insertCheckpointRaw
  rw [toI64_of_lt hsize, ok_bind]
  cases hfind : db.checkpoints.find? fun row => row.treeSize == cp.treeSize && row.checkpointTime == cp.checkpointTime with
  | some existing =>
    have hmem := List.mem_of_find?_eq_some hfind
    have hkey : existing.seriesKey = cp.seriesKey :=
      seriesKey_eq.2 (by simpa using List.find?_some hfind)
    dsimp only
    split_ifs with hsame
    · refine iff_of_true ⟨_, rfl⟩ ?_
      rintro ⟨row, hrow, hrowKey, hne⟩
      exact hne ((h.series.unique hrow hmem (hrowKey.trans hkey.symm)).trans hsame)
    · refine iff_of_false ?_ (not_not.2 ⟨existing, hmem, hkey, hsame⟩)
      rintro ⟨out, hout⟩
      cases hout
  | none =>
    refine iff_of_true ⟨_, rfl⟩ ?_
    rintro ⟨row, hrow, hkey, -⟩
    simpa [seriesKey_eq.1 hkey] using List.find?_eq_none.1 hfind row hrow

theorem UniqueKeys.rotationsKeyed {db : Db} (h : UniqueKeys db) : RotationsKeyed db := by
  intro index a b ha hb hsize htime
  exact congrArg Prod.snd (h.rotations.unique ha hb (Prod.ext rfl (seriesKey_eq.2 ⟨hsize, htime⟩)))

section commit
variable (hsubtree : SubtreeLaws crates) (hpath : PathLaws crates)
  (hdigest : Function.Injective crates.digest) {cp : Checkpoint} (hof : OfLog crates log cp)
  (hsize : cp.treeSize < i64Bound) (hdistinct : (log.take cp.treeSize).Nodup)

omit [HashOctets H] in
theorem OfLog.usable (hof : OfLog crates log cp) {db : Db} (hfrom : canonicalEntries db <+: log)
    (hheld : cp.treeSize ≤ db.entries.length) : UsableRow crates db cp where
  held := hheld
  root := by
    have htake : (canonicalEntries db).take cp.treeSize = log.take cp.treeSize := by
      rw [List.prefix_iff_eq_take.1 hfrom, List.take_take, length_canonicalEntries, Nat.min_eq_left hheld]
    rw [leafHashes, ← List.map_take, htake]
    exact hof.2

include hsubtree hpath hdigest hof hsize hdistinct

/-- **The commit** of a submission of the log is refused only where it is displaced. -/
theorem HoldsLog.commitAdmission_ok_iff [DecidableEq H] {db : Db} (h : HoldsLog crates log db) (hkeys : UniqueKeys db) {start : Nat}
    (hone : 1 ≤ cp.treeSize) (hstart : start ≤ db.entries.length)
    (hstaged : StagedFrom crates log start cp.treeSize db) {anchors : List Nat}
    (hanchors : ∀ index ∈ anchors, index < i64Bound) :
    (∃ out, commitAdmission crates cp (logBatch crates log start cp.treeSize)
        (mth crates.hashChildren (crates.digest []) ((log.take cp.treeSize).map (logLeafHash crates))) ⟨true, anchors⟩ db =
          .ok out) ↔ ¬ Displaced db cp anchors := by
  obtain ⟨mid, hbatch, hmid, hheld⟩ := h.promoteBatch hpath hdigest hof hsize hdistinct hstart hstaged
  have hgrow := (promoteBatch_grow h.represents hbatch).2
  have hkeysMid : UniqueKeys mid := ⟨hgrow.checkpoints ▸ hkeys.series, hgrow.rotationCheckpoints ▸ hkeys.rotations⟩
  have hagrees : contradictsStored crates mid cp.treeSize
      (mth crates.hashChildren (crates.digest []) ((log.take cp.treeSize).map (logLeafHash crates))) = .ok false := by
    obtain ⟨refused, hrefused, hiff⟩ := hmid.represents.contradictsStored hsubtree (fun hzero => by omega) hsize hof.2
    cases refused with
    | false => exact hrefused
    | true => exact absurd (hof.usable hmid.fromLog hheld) (hiff.1 rfl).2
  have hdisplaced : Displaced db cp anchors ↔ Displaced mid cp anchors := by
    unfold Displaced Clash
    rw [hgrow.checkpoints, hgrow.rotationCheckpoints]
  have hseries := insertCheckpointRaw_ok_iff hkeysMid hsize
  rw [hdisplaced, Displaced, not_or]
  unfold commitAdmission recordSeriesMember
  rw [hbatch, ok_bind, hagrees, ok_bind]
  simp only [Bool.false_eq_true, Bool.true_eq_false, if_false]
  cases hinsert : insertCheckpointRaw mid cp with
  | error e =>
    rw [hinsert] at hseries
    refine iff_of_false ?_ fun hnone => ?_
    · rintro ⟨out, hout⟩
      cases hout
    · obtain ⟨out, hout⟩ := hseries.2 hnone.1
      cases hout
  | ok inserted =>
    rw [hinsert] at hseries
    have hrows : inserted.2.rotationCheckpoints = mid.rotationCheckpoints := by
      have hpair : insertCheckpointRaw mid cp = .ok (inserted.1, inserted.2) := hinsert
      rcases insertCheckpointRaw_cases hpair with ⟨hsame, -⟩ | ⟨hadded, -⟩
      · rw [hsame]
      · rw [hadded]
    have hkeyed : RotationsKeyed inserted.2 := (hkeysMid.insertCheckpoint hinsert).rotationsKeyed
    have hrotations := insertRotationCheckpoints_ok_iff hsize hkeyed hanchors
    have hclash : (∀ index ∈ anchors, ¬ Clash inserted.2 index cp) ↔ ¬ ∃ index ∈ anchors, Clash mid index cp := by
      unfold Clash
      rw [hrows]
      exact not_exists.trans (forall_congr' fun index => not_and) |>.symm
    rw [and_iff_right (hseries.1 ⟨_, rfl⟩), ← hclash, ← hrotations]
    dsimp only [ok_bind]
    constructor
    · rintro ⟨out, hout⟩
      obtain ⟨after, hafter, -⟩ := bind_eq_ok.1 hout
      exact ⟨after, hafter⟩
    · rintro ⟨after, hafter⟩
      exact ⟨_, bind_eq_ok.2 ⟨after, hafter, rfl⟩⟩

end commit

/-! ### The server -/

variable [DecidableEq H]

section server
variable (crates config log) (start : Nat) (cp : Checkpoint) (raw : Option Bytes) (rotationFor : Option Nat)
  (list : List (GovernanceState K))

/-- A checkpoint over a log without repetitions whose prefix resolves to these versions, signed under the last. -/
structure Authentic : Prop where
  size : cp.treeSize < i64Bound
  ofLog : OfLog crates log cp
  distinct : (log.take cp.treeSize).Nodup
  versions : versions crates config (log.take cp.treeSize) = .ok list
  signed : ∃ active, list.getLast? = some active ∧ verifiesUnder crates config active cp raw = .ok ()

variable {crates config log cp raw list} in
omit [DecidableEq H] in
theorem Authentic.positive (h : Authentic crates config log cp raw list) : 1 ≤ cp.treeSize := by
  by_contra hzero
  have hversions := h.versions
  rw [show cp.treeSize = 0 by omega, List.take_zero] at hversions
  cases hversions

/-- Its submission with the log's entries from `start` on. -/
def submission : Call := .ingest cp raw (logBatch crates log start cp.treeSize) rotationFor

/-- The verdict it is owed. -/
def owed : Admission := ⟨true, anchoredBy crates config list cp raw⟩

/-- The submission after some turns at its batch, where it met `reached` canonical entries. -/
def submitting (reached turns : Nat) : InFlight H :=
  .judging cp raw (logBatch crates log start cp.treeSize) rotationFor
    (mth crates.hashChildren (crates.digest []) ((log.take cp.treeSize).map (logLeafHash crates)))
    ((log.take cp.treeSize).take reached) (logSlots log (laidIndices start reached turns))
    (logBatch crates log (start + turns) cp.treeSize)

/-- The submission before its last lock. -/
def submitted : InFlight H :=
  .admitting cp raw (logBatch crates log start cp.treeSize) rotationFor
    (mth crates.hashChildren (crates.digest []) ((log.take cp.treeSize).map (logLeafHash crates)))
    (owed crates config cp raw list)

/-- The mirror has caught up with the log to the checkpoint, and labels it usable. -/
structure CaughtUp (db : Db) : Prop where
  entries : log.take cp.treeSize <+: canonicalEntries db
  recorded : cp ∈ db.checkpoints
  usable : ∀ view, seriesView crates config db = .ok view → cp ∈ usableCheckpoints view.members

/-- The request at a position, if it is the submission: a turn at its batch goes through, and so does its verdict. At
the last lock it fails and leaves the store as it is where another checkpoint is filed at its size and time by then;
else it is answered as it was judged, and the mirror has caught up. -/
structure GoesOn (reached : Nat) (s : Server H) (position : Nat) : Prop where
  turn : ∀ turns, start + turns < cp.treeSize →
    s.inFlight[position]? = some (submitting crates log start cp raw rotationFor reached turns) →
    s.advance crates config position =
      (⟨s.db, s.inFlight.set position (submitting crates log start cp raw rotationFor reached (turns + 1))⟩, none)
  verdict : s.inFlight[position]? = some (submitting crates log start cp raw rotationFor reached (cp.treeSize - start)) →
    s.advance crates config position =
      (⟨s.db, s.inFlight.set position (submitted crates config log start cp raw rotationFor list)⟩, none)
  commit : s.inFlight[position]? = some (submitted crates config log start cp raw rotationFor list) →
    (Displaced s.db cp (anchoredBy crates config list cp raw) ∧
      ∃ e, s.advance crates config position = (⟨s.db, s.inFlight.eraseIdx position⟩, some (.admitted (.error e)))) ∨
    (¬ Displaced s.db cp (anchoredBy crates config list cp raw) ∧ ∃ after,
      s.advance crates config position =
        (⟨after, s.inFlight.eraseIdx position⟩, some (.admitted (.ok (owed crates config cp raw list)))) ∧
      CaughtUp crates config log cp after)

end server

/-! ### The judgement -/

section judgement
variable {start reached turns : Nat} {cp : Checkpoint} {raw : Option Bytes} {rotationFor : Option Nat}
  {list : List (GovernanceState K)}

theorem laidIndices_succ (start reached turns : Nat) : laidIndices start reached (turns + 1) =
    laidIndices start reached turns ++ if reached ≤ start + turns then [start + turns] else [] := by
  unfold laidIndices
  rw [List.range'_1_concat, List.filter_append]
  split_ifs with hpast <;> simp [hpast]

theorem laidIndices_whole (hstart : start ≤ reached) (treeSize : Nat) : laidIndices start reached (treeSize - start) =
    List.range' (min reached treeSize) (treeSize - min reached treeSize) := by
  unfold laidIndices
  rcases Nat.le_total treeSize reached with hle | hle
  · rw [Nat.min_eq_right hle, Nat.sub_self, List.range'_zero, List.filter_eq_nil_iff]
    intro i hi
    have hbounds := List.mem_range'_1.1 hi
    simp only [decide_eq_true_eq]
    omega
  · have hsplit : List.range' start (treeSize - start) =
        List.range' start (reached - start) ++ List.range' reached (treeSize - reached) := by
      rw [show treeSize - start = (reached - start) + (treeSize - reached) by omega, ← List.range'_append_1,
        Nat.add_sub_cancel' hstart]
    have hbelow : (List.range' start (reached - start)).filter (reached ≤ ·) = [] := by
      rw [List.filter_eq_nil_iff]
      intro i hi
      have hbounds := List.mem_range'_1.1 hi
      simp only [decide_eq_true_eq]
      omega
    have habove : (List.range' reached (treeSize - reached)).filter (reached ≤ ·) = List.range' reached (treeSize - reached) := by
      rw [List.filter_eq_self]
      intro i hi
      have hbounds := List.mem_range'_1.1 hi
      simp only [decide_eq_true_eq]
      omega
    rw [hsplit, List.filter_append, hbelow, habove, List.nil_append, Nat.min_eq_left hle]

theorem logSlots_get_eq_none {indices : List Nat} {i : Nat} (h : i ∉ indices) : (logSlots log indices).get i = none := by
  unfold Overlay.get logSlots
  rw [Option.map_eq_none_iff, List.find?_eq_none]
  intro slot hslot hindex
  obtain ⟨j, hj, rfl⟩ := List.mem_map.1 hslot
  have hindex : j = i := by simpa using hindex
  exact h (hindex ▸ hj)

theorem extendPrefix_logSlots {target : Nat} : ∀ (count next : Nat) (entries : List Bytes), next + count = target →
    extendPrefix target count next (logSlots log (List.range' next count)) entries =
      entries ++ (List.range' next count).map fun i => log[i]?.getD []
  | 0, next, entries, _ => by simp [extendPrefix]
  | count + 1, next, entries, htarget => by
    have hget : (logSlots log (List.range' next (count + 1))).get next = some (log[next]?.getD []) := by
      simp [Overlay.get, logSlots, List.range'_succ]
    have hremove : (logSlots log (List.range' next (count + 1))).remove next = logSlots log (List.range' (next + 1) count) := by
      unfold Overlay.remove logSlots
      rw [List.range'_succ, List.map_cons, List.filter_cons_of_neg (by simp), List.filter_eq_self]
      intro slot hslot
      obtain ⟨i, hi, rfl⟩ := List.mem_map.1 hslot
      have hbounds := List.mem_range'_1.1 hi
      simp only [bne_iff_ne]
      omega
    rw [extendPrefix, if_pos (by omega), hget]
    dsimp only
    rw [hremove, extendPrefix_logSlots count (next + 1) _ (by omega), List.range'_succ, List.map_cons, List.append_assoc]
    rfl

theorem take_append_range' {size bound : Nat} (hbound : bound ≤ size) (hlength : size ≤ log.length) :
    log.take bound ++ (List.range' bound (size - bound)).map (fun i => log[i]?.getD []) = log.take size := by
  refine List.ext_getElem (by simp; omega) fun i hi hi' => ?_
  rcases Nat.lt_or_ge i bound with hlt | hge
  · rw [List.getElem_append_left (by simp; omega), List.getElem_take, List.getElem_take]
  · rw [List.length_take] at hi'
    have hin : i < log.length := by omega
    rw [List.getElem_append_right (by simp; omega)]
    simp only [List.getElem_map, List.getElem_range', List.length_take, List.getElem_take]
    rw [show bound + 1 * (i - min bound log.length) = i by omega, List.getElem?_eq_getElem hin]
    rfl

variable (hauthentic : Authentic crates config log cp raw list)
include hauthentic

omit [DecidableEq H] in
theorem HoldsLog.beginAdmission {db : Db} (h : HoldsLog crates log db) :
    beginAdmission crates db cp raw (logBatch crates log start cp.treeSize) rotationFor =
      .ok (submitting crates log start cp raw rotationFor db.entries.length 0) := by
  have hmax : ¬ cp.treeSize > MAX_TREE_SIZE := by
    have hbound : MAX_TREE_SIZE = i64Bound - 1 := rfl
    have hsize := hauthentic.size
    omega
  have hheld : (canonicalEntries db).take cp.treeSize = (log.take cp.treeSize).take db.entries.length := by
    rw [List.prefix_iff_eq_take.1 h.fromLog, length_canonicalEntries, List.take_take, List.take_take, Nat.min_comm]
  unfold AhlMirror.beginAdmission
  rw [if_neg hmax, hauthentic.ofLog.2, mapErr, ok_bind, h.represents.toCanonical.entriesPrefix hauthentic.size, ok_bind, hheld]
  rfl

omit [DecidableEq H] in
theorem Authentic.length_reached (reached : Nat) :
    ((log.take cp.treeSize).take reached).length = min reached cp.treeSize := by
  rw [List.length_take, List.length_take, Nat.min_eq_left hauthentic.ofLog.1]

omit [DecidableEq H] in
theorem Authentic.turn (hpath : PathLaws crates) {db : Db} (hstaged : StagedFrom crates log start cp.treeSize db)
    (hturns : start + turns < cp.treeSize) :
    overlayPending crates db ((log.take cp.treeSize).take reached).length cp.treeSize
        (mth crates.hashChildren (crates.digest []) ((log.take cp.treeSize).map (logLeafHash crates)))
        (logSlots log (laidIndices start reached turns)) (logPending crates log cp.treeSize (start + turns)) =
      .ok (logSlots log (laidIndices start reached (turns + 1))) := by
  have hin := hturns.trans_le hauthentic.ofLog.1
  have hat : log[start + turns]? = some log[start + turns] := List.getElem?_eq_getElem hin
  have hlength := hauthentic.length_reached reached
  have hfresh : start + turns ∉ laidIndices start reached turns := by
    intro hmem
    have hbounds := List.mem_range'_1.1 (List.mem_of_mem_filter hmem)
    omega
  unfold overlayPending logPending
  dsimp only
  rw [if_neg (by omega), hlength, laidIndices_succ]
  by_cases hheld : start + turns < reached
  · rw [if_pos (by omega), if_neg (by omega), List.append_nil]
  · rw [if_neg (by omega), logSlots_get_eq_none hfresh, if_neg (by simp), getD_of_getElem? hat,
      hstaged _ _ (Nat.le_add_right _ _) hturns hat, okOr, ok_bind, logPath_verified hpath hauthentic.ofLog.1 hturns hat, ok_bind,
      if_neg (by decide), if_pos (by omega)]
    simp only [logSlots, List.map_append, List.map_singleton, getD_of_getElem? hat]

omit [DecidableEq H] in
theorem Authentic.visible (hstart : start ≤ reached) :
    extendPrefix cp.treeSize (logSlots log (laidIndices start reached (cp.treeSize - start))).length
        ((log.take cp.treeSize).take reached).length (logSlots log (laidIndices start reached (cp.treeSize - start)))
        ((log.take cp.treeSize).take reached) = log.take cp.treeSize := by
  have hlength := hauthentic.length_reached reached
  have hcount : (logSlots log (laidIndices start reached (cp.treeSize - start))).length = cp.treeSize - min reached cp.treeSize := by
    rw [laidIndices_whole hstart, logSlots, List.length_map, List.length_range']
  rw [hcount, hlength, laidIndices_whole hstart, extendPrefix_logSlots _ _ _ (by omega), List.take_take,
    take_append_range' (by omega) hauthentic.ofLog.1]

omit [DecidableEq H] in
/-- **The verdict.** A checkpoint over the log that verifies under the version its prefix resolves to is judged a
series member. -/
theorem Authentic.judgePrefix (hnamed : ∀ m ∈ rotationFor, Anchors crates config list cp raw m) :
    judgePrefix crates config cp raw rotationFor (log.take cp.treeSize) = .ok (owed crates config cp raw list) := by
  obtain ⟨active, hactive, hverifies⟩ := hauthentic.signed
  have hanchors : rotationAnchorsFor crates config list cp raw rotationFor = .ok (anchoredBy crates config list cp raw) := by
    rcases rotationAnchorsFor_eq crates config list cp raw rotationFor with ⟨-, hok⟩ | ⟨m, hm, hnone, -⟩
    · exact hok
    · exact absurd (mem_anchoredBy.2 (hnamed m hm)) hnone
  unfold AhlMirror.judgePrefix
  rw [hauthentic.versions, ok_bind, hactive, okOr, ok_bind]
  dsimp only
  rw [hanchors, ok_bind, hverifies]
  rfl

theorem advance_submitting (hpath : PathLaws crates) {s : Server H} (hstaged : StagedFrom crates log start cp.treeSize s.db)
    {position : Nat} (hturns : start + turns < cp.treeSize)
    (hat : s.inFlight[position]? = some (submitting crates log start cp raw rotationFor reached turns)) :
    s.advance crates config position =
      (⟨s.db, s.inFlight.set position (submitting crates log start cp raw rotationFor reached (turns + 1))⟩, none) := by
  have hrest : logBatch crates log (start + turns) cp.treeSize =
      logPending crates log cp.treeSize (start + turns) :: logBatch crates log (start + (turns + 1)) cp.treeSize := by
    unfold logBatch
    rw [show cp.treeSize - (start + turns) = cp.treeSize - (start + (turns + 1)) + 1 by omega, List.range'_succ, List.map_cons]
    rfl
  unfold Server.advance
  rw [hat]
  dsimp only [submitting]
  rw [hrest]
  dsimp only [continueAdmission]
  rw [hauthentic.turn hpath hstaged hturns]
  rfl

theorem advance_verdict (hnamed : ∀ m ∈ rotationFor, Anchors crates config list cp raw m) {s : Server H} {position : Nat}
    (hstart : start ≤ reached)
    (hat : s.inFlight[position]? = some (submitting crates log start cp raw rotationFor reached (cp.treeSize - start))) :
    s.advance crates config position =
      (⟨s.db, s.inFlight.set position (submitted crates config log start cp raw rotationFor list)⟩, none) := by
  have hrest : logBatch crates log (start + (cp.treeSize - start)) cp.treeSize = [] := by
    unfold logBatch
    rw [show cp.treeSize - (start + (cp.treeSize - start)) = 0 by omega, List.range'_zero, List.map_nil]
  unfold Server.advance
  rw [hat]
  dsimp only [submitting]
  rw [hrest]
  dsimp only [continueAdmission]
  rw [hauthentic.visible hstart, hauthentic.judgePrefix hnamed]
  rfl

end judgement

section progress
variable (hprover : ViewLaws crates) (hconsistency : ConsistencyLaws crates)
  (hpath : PathLaws crates) (hinclusion : InclusionLaws crates) (hverify : InclusionVerifyLaws crates)
  (hfree : CollisionFree crates) (hleaf : LeafLaws crates)

include hinclusion hverify hfree hleaf in
theorem serverAfter_holdsLog {schedule : List Event}
    (hfrom : (server crates config).Along (AdmitsFrom crates config log) Server.init schedule) :
    HoldsLog crates log (serverAfter crates config schedule).db where
  represents := (serverAfter_sound crates config schedule).represents
  filed row hrow := ((serverAfter_accounted crates config schedule).entries row hrow).1.1
  fromLog := serverAfter_fromLog hinclusion hverify hfree hleaf hfrom

omit [DecidableEq H] in
include hleaf in
theorem Accounted.stagedFrom {db : Db} (h : Accounted crates config db) {start treeSize : Nat}
    (hstaged : ∀ bytes ∈ (log.take treeSize).drop start, (getStagedRaw db (sha256Id crates bytes)).isSome) :
    StagedFrom crates log start treeSize db := by
  intro i bytes hi hlt hat
  have hmem : bytes ∈ (log.take treeSize).drop start := by
    refine List.mem_of_getElem? (i := i - start) ?_
    rw [List.getElem?_drop, Nat.add_sub_cancel' hi, List.getElem?_take_of_lt hlt, hat]
  obtain ⟨staged, hrow⟩ := Option.isSome_iff_exists.1 (hstaged bytes hmem)
  obtain rfl : staged = bytes := hleaf.digest (digest_eq_of_sha256Id (h.staged _ (getStagedRaw_mem hrow)).1)
  exact hrow

include hprover hconsistency hpath hleaf in
theorem advance_submitted {s : Server H} (hs : s.Sound crates config) (hwritten : Written crates config s.db)
    (h : HoldsLog crates log s.db) (hkeys : UniqueKeys s.db) {start : Nat} {cp : Checkpoint} {raw : Option Bytes}
    {rotationFor : Option Nat} {list : List (GovernanceState K)} (hauthentic : Authentic crates config log cp raw list)
    (hstart : start ≤ s.db.entries.length) (hstaged : StagedFrom crates log start cp.treeSize s.db) {position : Nat}
    (hat : s.inFlight[position]? = some (submitted crates config log start cp raw rotationFor list)) :
    (Displaced s.db cp (anchoredBy crates config list cp raw) ∧
      ∃ e, s.advance crates config position = (⟨s.db, s.inFlight.eraseIdx position⟩, some (.admitted (.error e)))) ∨
    (¬ Displaced s.db cp (anchoredBy crates config list cp raw) ∧ ∃ after,
      s.advance crates config position =
        (⟨after, s.inFlight.eraseIdx position⟩, some (.admitted (.ok (owed crates config cp raw list)))) ∧
      CaughtUp crates config log cp after) := by
  have hanchors : ∀ index ∈ anchoredBy crates config list cp raw, index < i64Bound := by
    intro index hindex
    obtain ⟨-, -, -, -, -, -, -, hlt, -⟩ := mem_anchoredBy.1 hindex
    exact hlt.trans hauthentic.size
  have hiff := h.commitAdmission_ok_iff hprover.toSubtreeLaws hpath hleaf.digest hauthentic.ofLog hauthentic.size
    hauthentic.distinct hkeys hauthentic.positive hstart hstaged hanchors
  unfold Server.advance
  rw [hat]
  dsimp only [submitted]
  rcases hresult : withTransaction s.db (commitAdmission crates cp (logBatch crates log start cp.treeSize)
    (mth crates.hashChildren (crates.digest []) ((log.take cp.treeSize).map (logLeafHash crates)))
    (owed crates config cp raw list)) with ⟨after, outcome⟩
  cases outcome with
  | error e =>
    refine Or.inl ⟨?_, e, by rw [withTransaction_eq_error hresult]⟩
    by_contra hnone
    obtain ⟨out, hout⟩ := hiff.2 hnone
    unfold withTransaction at hresult
    rw [show owed crates config cp raw list = ⟨true, anchoredBy crates config list cp raw⟩ from rfl, hout] at hresult
    cases hresult
  | ok admitted =>
    have hcommit := withTransaction_eq_ok hresult
    refine Or.inr ⟨hiff.1 ⟨_, hcommit⟩, after, ?_⟩
    obtain ⟨rfl, mid, recorded, hcommitted⟩ := commitAdmission_cases hcommit
    obtain ⟨judged, -, -, hjudge⟩ := hs.based _ (List.mem_of_getElem? hat)
    have hafter : Written crates config after := hwritten.tail (.admitted hjudge hcommit)
    obtain ⟨mid', hbatch, hmid, hheld⟩ :=
      h.promoteBatch hpath hleaf.digest hauthentic.ofLog hauthentic.size hauthentic.distinct hstart hstaged
    obtain rfl := Except.ok.inj (hcommitted.batch.symm.trans hbatch)
    obtain ⟨hrecorded, husable⟩ := hcommitted.usable hprover.toSubtreeLaws hs.represents hauthentic.positive
      hauthentic.size hauthentic.ofLog.2 rfl
      (by rwa [hcommitted.entries.1])
    refine ⟨rfl, ?_, hrecorded, fun view hview => ?_⟩
    · rw [hcommitted.canonicalEntries]
      refine List.prefix_of_prefix_length_le (List.take_prefix _ _) hmid.fromLog ?_
      rw [length_canonicalEntries, List.length_take]
      omega
    · exact ((seriesView_cases hview).mem_usable_iff hprover hconsistency hafter.sound.represents hafter.sound.positive).2
        ⟨hrecorded, hauthentic.size, husable⟩

end progress

namespace Symbolic

/-- A log whose second entry rotates the key. -/
def rotatingLog : List Bytes := [[1], [2], [6]]

def rotatingVersions : List (GovernanceState String) := (versions binding Symbolic.config rotatingLog).toOption.getD []

/-- Its checkpoint over all three entries. -/
def wholeLog : Checkpoint := checkpoint "B" 3 (Binding.root rotatingLog) 9

/-- The first entry mirrored, the others staged, and a restart. -/
def behind : List Event :=
  oneAtATime [stage 1, stage 2, ingest (checkpoint "A" 1 (Binding.root [[1]]) 5) [Binding.pending [[1]] 0], stage 6] ++
    [.restart]

/-- The other two entries submitted, and a smaller checkpoint judged and admitted between its locks. -/
def overtakenLater : List Event :=
  .arrive (submission binding rotatingLog 1 wholeLog none none) :: .advance 0 ::
    .arrive (ingest (checkpoint "B" 2 (Binding.root [[1], [2]]) 7) [Binding.pending [[1], [2]] 1]) ::
    [.advance 1, .advance 0, .advance 1, .advance 1, .advance 0]

/-- The server by then. -/
def beforeCommit : Server Bytes := serverAfter binding Symbolic.config (behind ++ overtakenLater)

theorem wholeLog_authentic : Authentic binding Symbolic.config rotatingLog wholeLog none rotatingVersions where
  size := by decide
  ofLog := by decide +kernel
  distinct := by decide
  versions := by decide +kernel
  signed := ⟨rotatingVersions.getLast (by decide +kernel), by decide +kernel, by decide +kernel⟩

end Symbolic

end AhlMirror
