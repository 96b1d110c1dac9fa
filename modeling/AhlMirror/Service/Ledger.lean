import AhlMirror.Series.Alike
import AhlMirror.Server.Account
import AhlMirror.Service.Published

/-!
# The ledger

What a mirror is for, without its tables: the bytes staged under each id, the log, the checkpoints of the
series and the anchors of the rotations (`Ledger`). The order rows came in, the nodes kept of the tree and the
restarts are no part of it, and nothing a mirror answers depends on them: mirrors with one ledger, and the same
requests in flight, answer whatever comes alike.
-/

namespace AhlMirror

open AhlMirror.Core (Keyed Machine)

@[ext] structure Ledger where
  staged : String → Option Bytes
  entries : List Bytes
  series : Finset Checkpoint
  anchors : Finset (Nat × Checkpoint)

/-- The ledger a store keeps. -/
def Db.ledger (db : Db) : Ledger :=
  ⟨getStagedRaw db, canonicalEntries db, db.checkpoints.toFinset, db.rotationCheckpoints.toFinset⟩

/-! ### Stores with one ledger -/

theorem Alike.ledger {db other : Db} (h : Alike db other) : other.ledger = db.ledger := by
  refine Ledger.ext (funext h.staged) ?_ (List.toFinset_eq_of_perm _ _ h.checkpoints)
    (List.toFinset_eq_of_perm _ _ h.rotationCheckpoints)
  show canonicalEntries other = canonicalEntries db
  unfold canonicalEntries
  rw [h.entries]

theorem ledger_of_perm {db other : Db} (hkeyed : (db.stagedEntries.map Prod.fst).Nodup)
    (hperm : other.stagedEntries.Perm db.stagedEntries) (hentries : canonicalEntries other = canonicalEntries db)
    (hseries : other.checkpoints.toFinset = db.checkpoints.toFinset)
    (hanchors : other.rotationCheckpoints.toFinset = db.rotationCheckpoints.toFinset) : other.ledger = db.ledger := by
  refine Ledger.ext (funext fun entryId => ?_) hentries hseries hanchors
  show getStagedRaw other entryId = getStagedRaw db entryId
  unfold getStagedRaw
  rw [Keyed.find?_perm hkeyed hperm]
  exact fun a b ha hb => (beq_iff_eq.1 ha).trans (beq_iff_eq.1 hb).symm

variable {H K : Type} [HashOctets H] {crates : Crates H K} {config : Config K}

theorem Represents.entryRow {db : Db} (hrep : Represents crates db)
    (hfiled : ∀ row ∈ db.entries, sha256Id crates row.envelope = row.entryId) {i : Nat} (hi : i < db.entries.length) :
    db.entries[i] = ⟨i, sha256Id crates db.entries[i].envelope, db.entries[i].envelope,
      some (asSlice (logLeafHash crates db.entries[i].envelope))⟩ := by
  have hindex := hrep.contiguous.getElem hi
  have hid := hfiled _ (List.getElem_mem hi)
  have hleaf := hrep.leafHash _ (List.getElem_mem hi)
  generalize db.entries[i] = row at *
  obtain ⟨entryIndex, entryId, envelope, leafHash⟩ := row
  exact EntryRow.mk.injEq _ _ _ _ _ _ _ _ |>.mpr ⟨hindex, hid.symm, rfl, hleaf⟩

/-- Of a store nothing but its canonical entries decides its `entries` and derived nodes. -/
theorem Represents.sameNodes {db other : Db} (hrep : Represents crates db) (hrep' : Represents crates other)
    (hfiled : ∀ row ∈ db.entries, sha256Id crates row.envelope = row.entryId)
    (hfiled' : ∀ row ∈ other.entries, sha256Id crates row.envelope = row.entryId)
    (hentries : canonicalEntries other = canonicalEntries db) : SameNodes db other where
  entries := by
    have hlength : other.entries.length = db.entries.length := by
      rw [← length_canonicalEntries, hentries, length_canonicalEntries]
    refine List.ext_getElem hlength fun i hi hi' => ?_
    have hsame : other.entries[i].envelope = db.entries[i].envelope := by
      have hat := congrArg (fun list => list[i]?) hentries
      simpa [canonicalEntries, hi, hi'] using hat
    rw [hrep.entryRow hfiled hi', hrep'.entryRow hfiled' hi, hsame]
  subtreeBlob level index := by
    have hlength : other.entries.length = db.entries.length := by
      rw [← length_canonicalEntries, hentries, length_canonicalEntries]
    have hleaf : leafAt crates other = leafAt crates db := by
      unfold leafAt
      rw [hentries]
    have hcache' := hrep'.cache
    rw [hleaf, hlength] at hcache'
    by_cases hcomplete : CompleteNode db.entries.length level index
    · rw [subtreeBlob_of_mem hrep.cache.toCacheSound (hrep.cache.covers level index hcomplete),
        subtreeBlob_of_mem hcache'.toCacheSound (hcache'.covers level index hcomplete)]
    · rw [subtreeBlob_eq_none hrep.cache.toCacheSound fun hmem => hcomplete (hrep.cache.complete_of_mem hmem),
        subtreeBlob_eq_none hcache'.toCacheSound fun hmem => hcomplete (hcache'.complete_of_mem hmem)]

variable (crates) in
/-- A store whose rows are those its ledger calls for. -/
structure Kept (db : Db) : Prop where
  represents : Represents crates db
  filed : ∀ row ∈ db.entries, sha256Id crates row.envelope = row.entryId
  keys : UniqueKeys db

theorem Kept.alike {db other : Db} (h : Kept crates db) (h' : Kept crates other) (hledger : other.ledger = db.ledger) :
    Alike db other where
  toSameNodes := h.represents.sameNodes h'.represents h.filed h'.filed (congrArg Ledger.entries hledger)
  staged entryId := congrFun (congrArg Ledger.staged hledger) entryId
  checkpoints := h.keys.series.perm_of_mem_iff h'.keys.series fun cp => by
    rw [← List.mem_toFinset, ← List.mem_toFinset (l := db.checkpoints)]
    exact iff_of_eq (congrArg (cp ∈ ·) (congrArg Ledger.series hledger))
  rotationCheckpoints := h.keys.rotations.perm_of_mem_iff h'.keys.rotations fun row => by
    rw [← List.mem_toFinset, ← List.mem_toFinset (l := db.rotationCheckpoints)]
    exact iff_of_eq (congrArg (row ∈ ·) (congrArg Ledger.anchors hledger))
  keys := h.keys

variable [DecidableEq H]

/-! ### Keys stay unique -/

theorem Stepped.uniqueKeys {s after : Server H} {event : Event} (h : UniqueKeys s.db)
    (hstep : Stepped crates config s event after) : UniqueKeys after.db := by
  have hkept : ∀ {α : Type} {x : MirrorResult (α × Db)} {out : α × Db}, Likewise OutcomeAlike x x → x = .ok out →
      UniqueKeys out.2 := by
    rintro α x out hx rfl
    obtain ⟨otherOut, -, -, halike⟩ := hx
    exact halike.keys
  have hself : Alike s.db s.db := .refl h
  cases hstep with
  | idle => exact h
  | staged hstage => exact hkept (hself.stageEntry _ _ _) hstage
  | began => exact h
  | read => exact h
  | failed => exact h
  | turned => exact h
  | judged => exact h
  | promoted _ hpromote => exact hkept (hself.promoteEntryIn _ _ _ _) hpromote
  | committed _ hcommit => exact hkept (hself.commitAdmission _ _ _ _) hcommit
  | restarted => exact h

theorem serverAfter_kept (crates : Crates H K) (config : Config K) (schedule : List Event) :
    Kept crates (serverAfter crates config schedule).db where
  represents := (serverAfter_sound crates config schedule).represents
  filed row hrow := ((serverAfter_accounted crates config schedule).entries row hrow).1.1
  keys := server_keeps (I := fun s => UniqueKeys s.db) ⟨.nil, .nil⟩ (fun _ _ _ _ h hstep => hstep.uniqueKeys h) schedule

/-! ### Servers with one ledger -/

/-- Servers on stores alike, with the same requests in flight. -/
structure ServersAlike (crates : Crates H K) (config : Config K) (s t : Server H) : Prop where
  sound : s.Sound crates config
  otherSound : t.Sound crates config
  db : Alike s.db t.db
  inFlight : t.inFlight = s.inFlight

omit [HashOctets H] [DecidableEq H] in
theorem Alike.beginAdmission {db other : Db} (h : Alike db other) (cp : Checkpoint) (raw : Option Bytes)
    (batch : List PendingPromotion) (rotationFor : Option Nat) :
    beginAdmission crates other cp raw batch rotationFor = beginAdmission crates db cp raw batch rotationFor := by
  unfold AhlMirror.beginAdmission
  simp only [h.toSameNodes.getEntriesRangeRaw]

omit [DecidableEq H] in
theorem Alike.continueAdmission {db other : Db} (h : Alike db other) :
    continueAdmission crates config other = continueAdmission crates config db := by
  funext cp raw batch rotationFor claimedRoot canonical overlay rest
  cases rest with
  | nil => rfl
  | cons p rest => simp only [AhlMirror.continueAdmission, h.overlayPending]

omit [DecidableEq H] in
theorem ServersAlike.arrive {s t : Server H} (h : ServersAlike crates config s t) (call : Call) :
    (t.arrive crates call).2 = (s.arrive crates call).2 ∧
      Alike (s.arrive crates call).1.db (t.arrive crates call).1.db ∧
      (t.arrive crates call).1.inFlight = (s.arrive crates call).1.inFlight := by
  unfold Server.arrive
  cases call with
  | stage claimed bytes metadata =>
    obtain ⟨hanswer, halike⟩ := h.db.withTransaction (stageEntry crates · claimed bytes metadata) (h.db.stageEntry _ _ _)
    exact ⟨congrArg (fun outcome => some (Answer.stored outcome)) hanswer, halike, h.inFlight⟩
  | ingest cp raw batch rotationFor =>
    dsimp only
    rw [h.db.beginAdmission]
    cases beginAdmission crates s.db cp raw batch rotationFor with
    | error e => exact ⟨rfl, h.db, h.inFlight⟩
    | ok request => exact ⟨rfl, h.db, by rw [h.inFlight]⟩
  | promote req =>
    dsimp only
    rw [h.db.getCheckpoint]
    cases getCheckpoint s.db req.treeSize with
    | error e => exact ⟨rfl, h.db, h.inFlight⟩
    | ok found =>
      cases found with
      | none => exact ⟨rfl, h.db, h.inFlight⟩
      | some cp => exact ⟨rfl, h.db, by rw [h.inFlight]⟩

theorem ServersAlike.advance {s t : Server H} (h : ServersAlike crates config s t) (position : Nat) :
    (t.advance crates config position).2 = (s.advance crates config position).2 ∧
      Alike (s.advance crates config position).1.db (t.advance crates config position).1.db ∧
      (t.advance crates config position).1.inFlight = (s.advance crates config position).1.inFlight := by
  unfold Server.advance
  rw [h.inFlight]
  cases s.inFlight[position]? with
  | none => exact ⟨rfl, h.db, h.inFlight⟩
  | some request =>
    cases request with
    | promoting cp req =>
      obtain ⟨hanswer, halike⟩ := h.db.withTransaction
        (fun db => promoteEntryIn crates db cp req.entryId req.leafIndex req.inclusionPath) (h.db.promoteEntryIn _ _ _ _)
      exact ⟨congrArg (fun outcome => some (Answer.stored outcome)) hanswer, halike, rfl⟩
    | judging cp raw batch rotationFor claimedRoot canonical overlay rest =>
      dsimp only
      rw [h.db.continueAdmission]
      cases continueAdmission crates config s.db cp raw batch rotationFor claimedRoot canonical overlay rest with
      | error e => exact ⟨rfl, h.db, rfl⟩
      | ok request => exact ⟨rfl, h.db, rfl⟩
    | admitting cp raw batch rotationFor claimedRoot admission =>
      obtain ⟨hanswer, halike⟩ := h.db.withTransaction (commitAdmission crates cp batch claimedRoot admission)
        (h.db.commitAdmission _ _ _ _)
      exact ⟨congrArg (fun outcome => some (Answer.admitted outcome)) hanswer, halike, rfl⟩

theorem serversAlike_bisimulation (crates : Crates H K) (config : Config K) :
    (server crates config).Bisimulation (ServersAlike crates config) := by
  have hstep : ∀ {s t : Server H} (event : Event), ServersAlike crates config s t →
      (t.step crates config event).2 = (s.step crates config event).2 ∧
        Alike (s.step crates config event).1.db (t.step crates config event).1.db ∧
        (t.step crates config event).1.inFlight = (s.step crates config event).1.inFlight := by
    intro s t event h
    cases event with
    | arrive call => exact h.arrive call
    | advance position => exact h.advance position
    | restart =>
      unfold Server.step
      rw [h.sound.represents.reopened h.sound.schema, h.otherSound.represents.reopened h.otherSound.schema]
      exact ⟨rfl, h.db, rfl⟩
  have hsound : ∀ {s : Server H} (event : Event), s.Sound crates config →
      ((server crates config).next s event).Sound crates config := fun event hs => ((next_stepped hs event).keeps hs).1
  exact ⟨fun event h => (hstep event h).1, fun event h =>
    ⟨hsound event h.sound, hsound event h.otherSound, (hstep event h).2.1, (hstep event h).2.2⟩⟩

theorem respond_alike {db other : Db} (h : Alike db other) (base64 : Base64) (request : Request) :
    (respond base64 crates config other request).2 = (respond base64 crates config db request).2 := by
  have hreads : SameReads crates config db other := h.reads
  cases request with
  | stage req =>
    show (stageHandler base64 crates other req).2 = (stageHandler base64 crates db req).2
    unfold stageHandler
    cases decodeBase64Field base64 req.envelopeBase64 "envelope_base64 must be `base64:...`" with
    | error e => rfl
    | ok bytes =>
      dsimp only
      rw [(h.withTransaction (stageEntry crates · req.entryId bytes req.atlMetadata) (h.stageEntry _ _ _)).1]
  | promote req =>
    have hanswer : (promoteHandler crates other req).2 = (promoteHandler crates db req).2 := by
      unfold promoteHandler
      rw [h.getCheckpoint]
      cases getCheckpoint db req.treeSize with
      | error e => rfl
      | ok found =>
        cases found with
        | none => rfl
        | some cp => exact (h.withTransaction
            (fun db => promoteEntryIn crates db cp req.entryId req.leafIndex req.inclusionPath) (h.promoteEntryIn _ _ _ _)).1
    show (promoteResponse crates other req).2 = (promoteResponse crates db req).2
    unfold promoteResponse
    dsimp only
    rw [hanswer]
  | ingestCheckpoint req =>
    show (checkpointIngestHandler base64 crates config other req).2 = (checkpointIngestHandler base64 crates config db req).2
    unfold checkpointIngestHandler ingestCheckpoint
    cases decodeOptionalField base64 req.raw "raw must be `base64:...`" with
    | error e => rfl
    | ok raw =>
      dsimp only
      rw [h.judgeCheckpoint]
      cases judgeCheckpoint crates config db req.checkpoint raw req.entriesToPromote req.rotationFor with
      | error e => rfl
      | ok judged =>
        dsimp only
        rw [(h.withTransaction (commitAdmission crates req.checkpoint req.entriesToPromote judged.1 judged.2)
          (h.commitAdmission _ _ _ _)).1]
  | health => rfl
  | retrieve entryId encoding =>
    show retrieveHandler base64 crates other entryId encoding = retrieveHandler base64 crates db entryId encoding
    unfold retrieveHandler
    rw [hreads.toSameNodes.retrieveById]
  | range req =>
    show Response.of _ _ = Response.of _ _
    rw [hreads.rangeHandler]
  | listCheckpoints =>
    show listCheckpointsHandler crates config other = listCheckpointsHandler crates config db
    unfold listCheckpointsHandler
    rw [hreads.seriesView]
  | getCheckpoint treeSize =>
    show Response.of _ _ = Response.of _ _
    rw [hreads.getCheckpointHandler]
  | rotationProof index =>
    show Response.of _ _ = Response.of _ _
    rw [hreads.rotationProofElement]
  | itub index =>
    show itubResponse crates config other index = itubResponse crates config db index
    unfold itubResponse
    rw [hreads.itubHandler]
  | consistency fromSize toSize =>
    show consistencyResponse crates config other fromSize toSize = consistencyResponse crates config db fromSize toSize
    unfold consistencyResponse
    rw [hreads.consistencyHandler]

/-- **The ledger is the whole state.** Take two servers, whatever their schedules, with one ledger and the same
requests in flight. Under any further schedule they answer every event alike, and after it they have one ledger
again and answer any request alike. -/
theorem ledger_is_the_state (base64 : Base64) (schedule schedule' later : List Event)
    (hledger : (serverAfter crates config schedule').db.ledger = (serverAfter crates config schedule).db.ledger)
    (hinFlight : (serverAfter crates config schedule').inFlight = (serverAfter crates config schedule).inFlight) :
    (server crates config).answers (serverAfter crates config schedule') later =
        (server crates config).answers (serverAfter crates config schedule) later ∧
      (serverAfter crates config (schedule' ++ later)).db.ledger = (serverAfter crates config (schedule ++ later)).db.ledger ∧
      ∀ request, (respond base64 crates config (serverAfter crates config (schedule' ++ later)).db request).2 =
        (respond base64 crates config (serverAfter crates config (schedule ++ later)).db request).2 := by
  have halike : ServersAlike crates config (serverAfter crates config schedule) (serverAfter crates config schedule') :=
    ⟨serverAfter_sound crates config _, serverAfter_sound crates config _,
      (serverAfter_kept crates config _).alike (serverAfter_kept crates config _) hledger, hinFlight⟩
  obtain ⟨hanswers, hafter⟩ := (serversAlike_bisimulation crates config).run later halike
  unfold serverAfter
  rw [Machine.exec_append, Machine.exec_append]
  exact ⟨hanswers, hafter.db.ledger, respond_alike hafter.db base64⟩

namespace Symbolic

/-- Two checkpoints in order, each with its entry. -/
def inOrder : List Event :=
  oneAtATime [stage 1, stage 5, ingest (checkpoint "A" 1 (rootOf [[1]]) 5) [pending [[1]] 0],
    ingest (checkpoint "A" 2 (rootOf [[1], [5]]) 9) [pending [[1], [5]] 1]]

/-- The second one with both entries, a restart, and the first one after it. -/
def outOfOrder : List Event :=
  oneAtATime [stage 5, stage 1, ingest (checkpoint "A" 2 (rootOf [[1], [5]]) 9) [pending [[1], [5]] 0, pending [[1], [5]] 1]] ++
    .restart :: oneAtATime [ingest (checkpoint "A" 1 (rootOf [[1]]) 5) []]

end Symbolic

theorem ledger_is_the_state_outOfOrder :
    (serverAfter (Symbolic.crates Symbolic.documents) Symbolic.config Symbolic.outOfOrder).db ≠
        (serverAfter (Symbolic.crates Symbolic.documents) Symbolic.config Symbolic.inOrder).db ∧
      (respond Symbolic.standard (Symbolic.crates Symbolic.documents) Symbolic.config
        (serverAfter (Symbolic.crates Symbolic.documents) Symbolic.config (Symbolic.outOfOrder ++ [.arrive (Symbolic.stage 6)])).db
          .listCheckpoints).2 =
        (respond Symbolic.standard (Symbolic.crates Symbolic.documents) Symbolic.config
          (serverAfter (Symbolic.crates Symbolic.documents) Symbolic.config (Symbolic.inOrder ++ [.arrive (Symbolic.stage 6)])).db
            .listCheckpoints).2 := by
  obtain ⟨hdiffer, hkeyed, hperm, hentries, hseries, hanchors⟩ :
      (serverAfter (Symbolic.crates Symbolic.documents) Symbolic.config Symbolic.outOfOrder).db ≠
        (serverAfter (Symbolic.crates Symbolic.documents) Symbolic.config Symbolic.inOrder).db ∧
      ((serverAfter (Symbolic.crates Symbolic.documents) Symbolic.config Symbolic.inOrder).db.stagedEntries.map Prod.fst).Nodup ∧
      (serverAfter (Symbolic.crates Symbolic.documents) Symbolic.config Symbolic.outOfOrder).db.stagedEntries.Perm
        (serverAfter (Symbolic.crates Symbolic.documents) Symbolic.config Symbolic.inOrder).db.stagedEntries ∧
      canonicalEntries (serverAfter (Symbolic.crates Symbolic.documents) Symbolic.config Symbolic.outOfOrder).db =
        canonicalEntries (serverAfter (Symbolic.crates Symbolic.documents) Symbolic.config Symbolic.inOrder).db ∧
      (serverAfter (Symbolic.crates Symbolic.documents) Symbolic.config Symbolic.outOfOrder).db.checkpoints.toFinset =
        (serverAfter (Symbolic.crates Symbolic.documents) Symbolic.config Symbolic.inOrder).db.checkpoints.toFinset ∧
      (serverAfter (Symbolic.crates Symbolic.documents) Symbolic.config Symbolic.outOfOrder).db.rotationCheckpoints.toFinset =
        (serverAfter (Symbolic.crates Symbolic.documents) Symbolic.config Symbolic.inOrder).db.rotationCheckpoints.toFinset := by
    decide +kernel
  have hledger := ledger_of_perm hkeyed hperm hentries hseries hanchors
  refine ⟨hdiffer, (ledger_is_the_state Symbolic.standard Symbolic.inOrder Symbolic.outOfOrder [.arrive (Symbolic.stage 6)]
    hledger ?_).2.2 .listCheckpoints⟩
  have hnone : ∀ schedule ∈ [Symbolic.outOfOrder, Symbolic.inOrder],
      (serverAfter (Symbolic.crates Symbolic.documents) Symbolic.config schedule).inFlight.length = 0 := by decide +kernel
  rw [List.length_eq_zero_iff.1 (hnone _ (by simp)), List.length_eq_zero_iff.1 (hnone _ (by simp))]

end AhlMirror
