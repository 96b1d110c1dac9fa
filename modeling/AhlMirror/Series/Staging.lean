import AhlMirror.Series.Provenance
import AhlMirror.Store.Beside

/-!
# Staging by strangers

Anyone may stage. A run with further stagings put in answers its promotions and admissions as before and
holds the same tables after each call, so every route answers alike. Admission reads staged bytes before
it authenticates anything, but only under ids that the submission names; what could change is whether such
an id is staged at all, so runs that failed for that are left out.
-/

namespace AhlMirror

open AhlMirror.Core (Inserts Matches)

variable {H K : Type} [HashOctets H] {crates : Crates H K} {config : Config K}

/-! ### Entry ids -/

theorem digest_eq_of_sha256Id {a b : Bytes} (h : sha256Id crates a = sha256Id crates b) :
    crates.digest a = crates.digest b := by
  unfold sha256Id at h
  have hread := congrArg (tryFrom (H := H)) (hexEncode_injective ((String.append_right_inj _).1 h))
  simpa using hread

/-! ### One staging -/

theorem getStagedRaw_append {db : Db} {entryId : String} {bytes : Bytes} (wanted : String) :
    getStagedRaw { db with stagedEntries := db.stagedEntries ++ [(entryId, bytes)] } wanted =
      (getStagedRaw db wanted).or (if entryId = wanted then some bytes else none) := by
  unfold getStagedRaw
  rw [List.find?_append, Option.map_or]
  congr 1
  by_cases hsame : entryId = wanted
  · simp [hsame]
  · simp [hsame]

theorem storeStageEntry_after (db : Db) (entryId : String) (bytes : Bytes) :
    (withTransaction db (storeStageEntry · entryId bytes)).1 = match getStagedRaw db entryId with
      | some _ => db
      | none => { db with stagedEntries := db.stagedEntries ++ [(entryId, bytes)] } := by
  unfold withTransaction storeStageEntry
  dsimp only
  cases getStagedRaw db entryId with
  | some existing =>
    dsimp only
    split_ifs <;> rfl
  | none => rfl

/-- What one store has more staged than the other: rows under their own hash, of bytes that do not collide. -/
structure Strangers (crates : Crates H K) (allowed : Set Bytes) (db other : Db) : Prop extends Beside db other where
  rotationCheckpoints : other.rotationCheckpoints = db.rotationCheckpoints
  filed : ∀ row ∈ other.stagedEntries, row.1 = sha256Id crates row.2 ∧ row.2 ∈ allowed

theorem Strangers.tables {allowed : Set Bytes} {db other : Db} (h : Strangers crates allowed db other) :
    SameTables db other := ⟨h.toSameTree, h.checkpoints, h.rotationCheckpoints⟩

theorem Strangers.stage {allowed : Set Bytes} (hfree : Set.InjOn crates.digest allowed) {db other : Db}
    (h : Strangers crates allowed db other) {bytes : Bytes} (hallowed : bytes ∈ allowed) :
    Strangers crates allowed (withTransaction db (storeStageEntry · (sha256Id crates bytes) bytes)).1
      (withTransaction other (storeStageEntry · (sha256Id crates bytes) bytes)).1 := by
  have hfiled : ∀ row ∈ other.stagedEntries ++ [(sha256Id crates bytes, bytes)],
      row.1 = sha256Id crates row.2 ∧ row.2 ∈ allowed := by
    intro row hrow
    rcases List.mem_append.1 hrow with hold | hnew
    · exact h.filed row hold
    · obtain rfl := List.mem_singleton.1 hnew
      exact ⟨rfl, hallowed⟩
  rw [storeStageEntry_after, storeStageEntry_after]
  cases hdb : getStagedRaw db (sha256Id crates bytes) with
  | some existing =>
    rw [h.staged _ _ hdb]
    exact h
  | none =>
    cases hother : getStagedRaw other (sha256Id crates bytes) with
    | some existing =>
      -- another submission staged this id, and so these bytes
      obtain ⟨hid, hexisting⟩ := h.filed _ (getStagedRaw_mem hother)
      obtain rfl : existing = bytes := hfree hexisting hallowed (digest_eq_of_sha256Id hid.symm)
      refine ⟨⟨⟨h.entries, h.subtreeRoots⟩, h.checkpoints, fun wanted found hwanted => ?_⟩, h.rotationCheckpoints, h.filed⟩
      rw [getStagedRaw_append, Option.or_eq_some_iff] at hwanted
      rcases hwanted with hold | ⟨-, hnew⟩
      · exact h.staged wanted found hold
      · split_ifs at hnew with hsame
        rw [← hsame, ← Option.some.inj hnew]
        exact hother
    | none =>
      refine ⟨⟨⟨h.entries, h.subtreeRoots⟩, h.checkpoints, fun wanted found hwanted => ?_⟩, h.rotationCheckpoints, hfiled⟩
      rw [getStagedRaw_append, Option.or_eq_some_iff] at hwanted ⊢
      rcases hwanted with hold | ⟨habsent, hnew⟩
      · exact Or.inl (h.staged wanted found hold)
      · split_ifs at hnew with hsame
        subst hsame
        exact Or.inr ⟨hother, by rw [if_pos rfl, hnew]⟩

theorem Strangers.insert {allowed : Set Bytes} {db other : Db} (h : Strangers crates allowed db other) {bytes : Bytes}
    (hallowed : bytes ∈ allowed) :
    Strangers crates allowed db (withTransaction other (storeStageEntry · (sha256Id crates bytes) bytes)).1 := by
  rw [storeStageEntry_after]
  cases hother : getStagedRaw other (sha256Id crates bytes) with
  | some existing => exact h
  | none =>
    refine ⟨⟨⟨h.entries, h.subtreeRoots⟩, h.checkpoints, fun wanted found hwanted => ?_⟩, h.rotationCheckpoints, fun row hrow => ?_⟩
    · rw [getStagedRaw_append, h.staged wanted found hwanted]
      rfl
    · rcases List.mem_append.1 hrow with hold | hnew
      · exact h.filed row hold
      · obtain rfl := List.mem_singleton.1 hnew
        exact ⟨rfl, hallowed⟩

variable (crates) in
theorem stageEntry_eq (claimed : String) (bytes : Bytes) (metadata : Value) :
    (∃ e, ∀ db, stageEntry crates db claimed bytes metadata = .error e) ∨
      ∀ db, stageEntry crates db claimed bytes metadata = storeStageEntry db (sha256Id crates bytes) bytes := by
  unfold stageEntry
  dsimp only
  by_cases hid : sha256Id crates bytes = claimed
  · simp only [hid, ne_eq, not_true_eq_false, if_false]
    cases mapErr .json (crates.fromSlice bytes) with
    | error e => exact Or.inl ⟨e, fun _ => rfl⟩
    | ok value =>
      simp only [ok_bind]
      cases checkEnvelopeShape value with
      | error e => exact Or.inl ⟨e, fun _ => rfl⟩
      | ok shaped =>
        by_cases hcanonical : crates.jcs value = bytes
        · by_cases hmetadata : crates.jcs metadata = adaptorMetadataBytes crates
          · exact Or.inr fun db => by simp [hcanonical, hmetadata]
          · exact Or.inl ⟨.wrongAdaptorMetadata (crates.jcs metadata), fun db => by simp [hcanonical, hmetadata]⟩
        · exact Or.inl ⟨.notCanonical, fun db => by simp [hcanonical]⟩
  · exact Or.inl ⟨_, fun db => by rw [if_pos hid]⟩

/-! ### One admission or promotion -/

/-- After a step that leaves the staged rows alone the stores agree on all other tables. -/
structure Twins (db other after otherAfter : Db) : Prop extends SameTables after otherAfter where
  staged : after.stagedEntries = db.stagedEntries
  otherStaged : otherAfter.stagedEntries = other.stagedEntries

theorem Strangers.twins {allowed : Set Bytes} {db other after otherAfter : Db} (h : Strangers crates allowed db other)
    (htwins : Twins db other after otherAfter) : Strangers crates allowed after otherAfter where
  toBeside := ⟨htwins.toSameTree, htwins.checkpoints, fun entryId bytes hstaged => by
    unfold getStagedRaw at hstaged ⊢
    rw [htwins.staged] at hstaged
    rw [htwins.otherStaged]
    exact h.staged entryId bytes hstaged⟩
  rotationCheckpoints := htwins.rotationCheckpoints
  filed row hrow := h.filed row (htwins.otherStaged ▸ hrow)

theorem Steps.twins {db other after otherAfter : Db} (h : Steps db other after otherAfter)
    (hrotations : other.rotationCheckpoints = db.rotationCheckpoints) : Twins db other after otherAfter where
  toSameTables := ⟨h.beside.toSameTree, h.beside.checkpoints, by
    rw [h.frame.rotationCheckpoints, h.otherFrame.rotationCheckpoints, hrotations]⟩
  staged := h.frame.staged
  otherStaged := h.otherFrame.staged

theorem SameTables.insertRotationCheckpoints {excused : MirrorError → Prop} {cp : Checkpoint} :
    ∀ {anchors : List Nat} {db other : Db}, SameTables db other →
      Matches excused (Twins db other) (insertRotationCheckpoints cp anchors db) (insertRotationCheckpoints cp anchors other)
  | [], _, _, h => .ok ⟨h, rfl, rfl⟩
  | index :: rest, db, other, h => by
    have hinsert : Matches excused (fun out otherOut => Twins db other out.2 otherOut.2)
        (insertRotationCheckpointRaw db index cp) (insertRotationCheckpointRaw other index cp) := by
      have hsame : Twins db other db other := ⟨h, rfl, rfl⟩
      have hinserted : ∀ row, Twins db other { db with rotationCheckpoints := db.rotationCheckpoints ++ [row] }
          { other with rotationCheckpoints := db.rotationCheckpoints ++ [row] } := fun row =>
        ⟨⟨⟨h.entries, h.subtreeRoots⟩, h.checkpoints, rfl⟩, rfl, rfl⟩
      unfold insertRotationCheckpointRaw rotationRows
      rw [h.rotationCheckpoints]
      refine (Matches.refl _).bind_eq fun i => (Matches.refl _).bind_eq fun treeSize => ?_
      split
      · split_ifs
        · exact .ok hsame
        · exact .error _
      · split
        · split_ifs
          · exact .ok hsame
          · exact .ok (hinserted _)
        · exact .ok (hinserted _)
    unfold AhlMirror.insertRotationCheckpoints
    refine hinsert.bind fun out otherOut hout => ?_
    refine (insertRotationCheckpoints hout.toSameTables).mono (fun _ he => he) fun after otherAfter hafter => ?_
    exact ⟨hafter.toSameTables, hafter.staged.trans hout.staged, hafter.otherStaged.trans hout.otherStaged⟩

theorem matches_withTransaction {α : Type} {excused : MirrorError → Prop} {db other : Db}
    {f : Db → MirrorResult (α × Db)} (hsame : SameTables db other)
    (h : Matches excused (fun out otherOut => otherOut.1 = out.1 ∧ Twins db other out.2 otherOut.2) (f db) (f other)) :
    (∃ e, (withTransaction db f).2 = .error e ∧ excused e) ∨
      (withTransaction other f).2 = (withTransaction db f).2 ∧
        Twins db other (withTransaction db f).1 (withTransaction other f).1 := by
  unfold withTransaction
  cases hdb : f db with
  | ok out =>
    rw [hdb] at h
    obtain ⟨otherOut, hother, hvalue, htwins⟩ := h
    rw [hother]
    exact Or.inr ⟨congrArg Except.ok hvalue, htwins⟩
  | error e =>
    rw [hdb] at h
    rcases h with hexcused | hother
    · exact Or.inl ⟨e, rfl, hexcused⟩
    · rw [hother]
      exact Or.inr ⟨rfl, hsame, rfl, rfl⟩

section calls
variable [DecidableEq H]

variable (config) in
theorem Strangers.ingestCheckpoint {allowed : Set Bytes} {db other : Db} (h : Strangers crates allowed db other)
    (cp : Checkpoint) (raw : Option Bytes) (batch : List PendingPromotion) (rotationFor : Option Nat) :
    (∃ e, (ingestCheckpoint crates config db cp raw batch rotationFor).2 = .error e ∧ Excused db other e) ∨
      (ingestCheckpoint crates config other cp raw batch rotationFor).2 =
        (ingestCheckpoint crates config db cp raw batch rotationFor).2 ∧
      Twins db other (ingestCheckpoint crates config db cp raw batch rotationFor).1
        (ingestCheckpoint crates config other cp raw batch rotationFor).1 := by
  have hjudge := h.toBeside.judgeCheckpoint crates config cp raw batch rotationFor
  unfold AhlMirror.ingestCheckpoint
  cases hdb : judgeCheckpoint crates config db cp raw batch rotationFor with
  | error e =>
    rw [hdb] at hjudge
    rcases hjudge with hexcused | hother
    · exact Or.inl ⟨e, rfl, hexcused⟩
    · rw [hother]
      exact Or.inr ⟨rfl, h.tables, rfl, rfl⟩
  | ok judged =>
    rw [hdb] at hjudge
    obtain ⟨_, hother, rfl⟩ := hjudge
    rw [hother]
    obtain ⟨claimedRoot, admission⟩ := judged
    apply matches_withTransaction h.tables
    rw [commitAdmission_eq, commitAdmission_eq]
    refine (h.toBeside.commitMember crates cp batch claimedRoot admission.seriesMember).bind fun mid otherMid hmid => ?_
    have htwins := hmid.twins h.rotationCheckpoints
    refine htwins.toSameTables.insertRotationCheckpoints.bind fun after otherAfter hafter => .ok ⟨rfl, ?_⟩
    exact ⟨hafter.toSameTables, hafter.staged.trans htwins.staged, hafter.otherStaged.trans htwins.otherStaged⟩

omit [DecidableEq H] in
theorem Strangers.promoteHandler {allowed : Set Bytes} {db other : Db} (h : Strangers crates allowed db other)
    (req : PromoteRequest) :
    (∃ e, (promoteHandler crates db req).2 = .error e ∧ Excused db other e) ∨
      (promoteHandler crates other req).2 = (promoteHandler crates db req).2 ∧
      Twins db other (promoteHandler crates db req).1 (promoteHandler crates other req).1 := by
  have hget : getCheckpoint other req.treeSize = getCheckpoint db req.treeSize := by
    unfold getCheckpoint
    rw [h.checkpoints]
  unfold AhlMirror.promoteHandler
  rw [hget]
  cases getCheckpoint db req.treeSize with
  | error e => exact Or.inr ⟨rfl, h.tables, rfl, rfl⟩
  | ok found =>
    cases found with
    | none => exact Or.inr ⟨rfl, h.tables, rfl, rfl⟩
    | some cp =>
      apply matches_withTransaction h.tables
      exact (h.toBeside.promoteEntryIn cp req.entryId req.leafIndex req.inclusionPath).mono (fun _ he => he)
        fun out otherOut hout => ⟨hout.1, hout.2.twins h.rotationCheckpoints⟩

end calls

/-! ### Runs -/

/-- A call of `ingest::stage_entry`. -/
def Call.isStage : Call → Bool
  | .stage _ _ _ => true
  | _ => false

/-- The bytes a call submits to staging. -/
def Call.stagedBytes : Call → Option Bytes
  | .stage _ bytes _ => some bytes
  | _ => none

/-- The call was refused for an entry that is not staged. -/
def Answer.isNotStaged : Answer → Bool
  | .stored (.error (.notStaged _)) => true
  | .admitted (.error (.notStaged _)) => true
  | _ => false

/-- Every read of one store answers as on another. -/
structure SameAnswers [DecidableEq H] (crates : Crates H K) (config : Config K) (db other : Db) : Prop where
  retrieveById : retrieveById crates other = retrieveById crates db
  rangeHandler : rangeHandler crates config other = rangeHandler crates config db
  consistencyHandler : consistencyHandler crates config other = consistencyHandler crates config db
  seriesView : seriesView crates config other = seriesView crates config db
  getCheckpointHandler : getCheckpointHandler crates config other = getCheckpointHandler crates config db
  itubHandler : itubHandler crates config other = itubHandler crates config db
  rotationProofElement : rotationProofElement crates config other = rotationProofElement crates config db

variable [DecidableEq H]

theorem SameReads.answers {db other : Db} (h : SameReads crates config db other) : SameAnswers crates config db other where
  retrieveById := h.toSameNodes.retrieveById crates
  rangeHandler := h.rangeHandler
  consistencyHandler := h.consistencyHandler
  seriesView := h.seriesView
  getCheckpointHandler := h.getCheckpointHandler
  itubHandler := h.itubHandler
  rotationProofElement := h.rotationProofElement

theorem SameTables.answers {db other : Db} (h : SameTables db other) : SameAnswers crates config db other :=
  (h.reads crates config).answers

/-- One call on both stores that is not refused for want of a staged entry. -/
theorem Strangers.serve {allowed : Set Bytes} (hfree : Set.InjOn crates.digest allowed) {db other : Db}
    (h : Strangers crates allowed db other) {call : Call} (hallowed : ∀ bytes ∈ call.stagedBytes, bytes ∈ allowed)
    (hstaged : (serve crates config db call).2.isNotStaged = false) :
    Strangers crates allowed (serve crates config db call).1 (serve crates config other call).1 ∧
      (call.isStage = false → (serve crates config other call).2 = (serve crates config db call).2) := by
  cases call with
  | stage claimed bytes metadata =>
    refine ⟨?_, fun hstage => by simp [Call.isStage] at hstage⟩
    unfold AhlMirror.serve
    dsimp only
    rcases stageEntry_eq crates claimed bytes metadata with ⟨e, hrefused⟩ | hasked
    · rw [funext hrefused]
      exact h
    · rw [funext hasked]
      exact h.stage hfree (hallowed bytes rfl)
  | ingest cp raw batch rotationFor =>
    rcases h.ingestCheckpoint config cp raw batch rotationFor with ⟨e, herror, entryId, rfl, -⟩ | ⟨hanswer, htwins⟩
    · simp [AhlMirror.serve, herror, Answer.isNotStaged] at hstaged
    · exact ⟨h.twins htwins, fun _ => congrArg Answer.admitted hanswer⟩
  | promote req =>
    rcases h.promoteHandler req with ⟨e, herror, entryId, rfl, -⟩ | ⟨hanswer, htwins⟩
    · simp [AhlMirror.serve, herror, Answer.isNotStaged] at hstaged
    · exact ⟨h.twins htwins, fun _ => congrArg Answer.stored hanswer⟩

theorem Strangers.exec {allowed : Set Bytes} (hfree : Set.InjOn crates.digest allowed) {calls longer : List Call}
    (hinserts : Inserts (fun call => call.isStage = true) calls longer)
    (hallowed : ∀ call ∈ longer, ∀ bytes ∈ call.stagedBytes, bytes ∈ allowed)
    (hstaged : (mirror crates config).Along (fun db call => (AhlMirror.serve crates config db call).2.isNotStaged = false)
      Db.empty calls) : Strangers crates allowed (storeAfter crates config calls) (storeAfter crates config longer) := by
  have hempty : Strangers crates allowed Db.empty Db.empty :=
    ⟨⟨⟨rfl, rfl⟩, rfl, fun _ _ h => h⟩, rfl, by simp [Db.empty]⟩
  refine hinserts.exec_relates (m := mirror crates config) (I := Strangers crates allowed)
    (fun db other call h hok hcall => (h.serve hfree hcall hok).1) (fun db other call h hstage hcall => ?_)
    hempty hstaged hallowed
  cases call with
  | stage claimed bytes metadata =>
    show Strangers crates allowed db (withTransaction other (stageEntry crates · claimed bytes metadata)).1
    rcases stageEntry_eq crates claimed bytes metadata with ⟨e, hrefused⟩ | hasked
    · rw [funext hrefused]
      exact h
    · rw [funext hasked]
      exact h.insert (hcall bytes rfl)
  | ingest cp raw batch rotationFor => simp [Call.isStage] at hstage
  | promote req => simp [Call.isStage] at hstage

/-- **Staging by strangers changes nothing.** Let a run meet no refusal for want of a staged entry, and let
further stagings be put into it. Each of its calls has its place in the longer run; an admission or a
promotion is answered there as before, and after every call the tables beside the staged ones are the
same and every route answers alike. -/
theorem strangers_change_nothing {calls longer : List Call}
    (hinserts : Inserts (fun call => call.isStage = true) calls longer)
    (hfree : Set.InjOn crates.digest {bytes | ∃ call ∈ longer, call.stagedBytes = some bytes})
    (hstaged : (mirror crates config).Along (fun db call => (serve crates config db call).2.isNotStaged = false)
      Db.empty calls) (before after : List Call) (call : Call) (hcalls : calls = before ++ call :: after) :
    ∃ before' after', longer = before' ++ call :: after' ∧
      Inserts (fun call => call.isStage = true) before before' ∧ Inserts (fun call => call.isStage = true) after after' ∧
      (call.isStage = false → (serve crates config (storeAfter crates config before') call).2 =
        (serve crates config (storeAfter crates config before) call).2) ∧
      SameTables (storeAfter crates config (before ++ [call])) (storeAfter crates config (before' ++ [call])) ∧
      SameAnswers crates config (storeAfter crates config (before ++ [call]))
        (storeAfter crates config (before' ++ [call])) := by
  subst hcalls
  obtain ⟨before', after', rfl, hbefore, hafter⟩ := hinserts.split
  have hallowed : ∀ made ∈ before' ++ call :: after', ∀ bytes ∈ made.stagedBytes,
      bytes ∈ {bytes | ∃ call' ∈ before' ++ call :: after', call'.stagedBytes = some bytes} :=
    fun made hmade bytes hbytes => ⟨made, hmade, hbytes⟩
  obtain ⟨halong, hnow, -⟩ := (mirror crates config).along_append.1 hstaged
  have hside := Strangers.exec hfree hbefore (fun made hmade => hallowed made (List.mem_append_left _ hmade)) halong
  obtain ⟨hafterCall, hanswer⟩ := hside.serve hfree (hallowed call (List.mem_append_right _ List.mem_cons_self)) hnow
  refine ⟨before', after', rfl, hbefore, hafter, hanswer, ?_, ?_⟩
  · rw [storeAfter_append, storeAfter_append]
    exact hafterCall.tables
  · rw [storeAfter_append, storeAfter_append]
    exact hafterCall.tables.answers

theorem strangers_change_nothing_twoEntries :
    ∃ before' after', [Symbolic.stage 6, Symbolic.stage 1, Symbolic.stage 5, Symbolic.stage 5,
        Symbolic.ingest (Symbolic.checkpoint "A" 1 (Symbolic.rootOf [[1]]) 5) [Symbolic.pending [[1]] 0]] =
          before' ++ Symbolic.ingest (Symbolic.checkpoint "A" 1 (Symbolic.rootOf [[1]]) 5) [Symbolic.pending [[1]] 0] :: after' ∧
      SameTables (Symbolic.after [Symbolic.stage 1, Symbolic.stage 5,
          Symbolic.ingest (Symbolic.checkpoint "A" 1 (Symbolic.rootOf [[1]]) 5) [Symbolic.pending [[1]] 0]])
        (Symbolic.after (before' ++
          [Symbolic.ingest (Symbolic.checkpoint "A" 1 (Symbolic.rootOf [[1]]) 5) [Symbolic.pending [[1]] 0]])) := by
  obtain ⟨before', after', hlonger, -, -, -, htables, -⟩ := @strangers_change_nothing _ _ _
    (Symbolic.crates Symbolic.documents) Symbolic.config _ _ _
    (.insert (Symbolic.stage 6) rfl (.keep (Symbolic.stage 1) (.keep (Symbolic.stage 5) (.insert (Symbolic.stage 5) rfl
      (.keep (Symbolic.ingest (Symbolic.checkpoint "A" 1 (Symbolic.rootOf [[1]]) 5) [Symbolic.pending [[1]] 0]) .nil)))))
    (fun _ _ _ _ h => h) (by decide +kernel) [Symbolic.stage 1, Symbolic.stage 5] [] _ rfl
  exact ⟨before', after', hlonger, htables⟩

end AhlMirror
