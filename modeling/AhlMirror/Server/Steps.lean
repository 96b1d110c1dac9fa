import AhlMirror.Model.Server
import AhlMirror.Series.Snapshot
import AhlMirror.Store.Restart

/-!
# What an event does

One inversion lemma for the events of a server (`next_stepped`), and what every event keeps (`Server.Sound`):
the representation, and of each request in flight what its locks saw, of stores that have only grown since.
The verdict of an admission that read several stores is one `judgeCheckpoint` gives on a single one, with the
entries of the first and the staged bytes of the last (`Gathered.visiblePrefix`). A run of calls one at a time is the
schedule that takes each to its end before the next arrives.
-/

namespace AhlMirror

open AhlMirror.Core (Machine)

variable {H K : Type} [HashOctets H] [DecidableEq H] {crates : Crates H K} {config : Config K}

/-! ### Steps -/

/-- What an event does to a server whose store represents the log. -/
inductive Stepped (crates : Crates H K) (config : Config K) (s : Server H) : Event → Server H → Prop
  | idle (event : Event) : Stepped crates config s event s
  | staged {claimed : String} {bytes : Bytes} {metadata : Value} {outcome : InsertOutcome} {after : Db} :
      stageEntry crates s.db claimed bytes metadata = .ok (outcome, after) →
      Stepped crates config s (.arrive (.stage claimed bytes metadata)) ⟨after, s.inFlight⟩
  | began {cp : Checkpoint} {raw : Option Bytes} {batch : List PendingPromotion} {rotationFor : Option Nat}
      {request : InFlight H} : beginAdmission crates s.db cp raw batch rotationFor = .ok request →
      Stepped crates config s (.arrive (.ingest cp raw batch rotationFor)) ⟨s.db, s.inFlight ++ [request]⟩
  | read {req : PromoteRequest} {cp : Checkpoint} : getCheckpoint s.db req.treeSize = .ok (some cp) →
      Stepped crates config s (.arrive (.promote req)) ⟨s.db, s.inFlight ++ [.promoting cp req]⟩
  | failed (position : Nat) : Stepped crates config s (.advance position) ⟨s.db, s.inFlight.eraseIdx position⟩
  | turned {position : Nat} {cp : Checkpoint} {raw : Option Bytes} {batch : List PendingPromotion}
      {rotationFor : Option Nat} {claimedRoot : H} {canonical : List Bytes} {overlay laid : Overlay}
      {p : PendingPromotion} {rest : List PendingPromotion} :
      s.inFlight[position]? = some (.judging cp raw batch rotationFor claimedRoot canonical overlay (p :: rest)) →
      overlayPending crates s.db canonical.length cp.treeSize claimedRoot overlay p = .ok laid →
      Stepped crates config s (.advance position)
        ⟨s.db, s.inFlight.set position (.judging cp raw batch rotationFor claimedRoot canonical laid rest)⟩
  | judged {position : Nat} {cp : Checkpoint} {raw : Option Bytes} {batch : List PendingPromotion}
      {rotationFor : Option Nat} {claimedRoot : H} {canonical : List Bytes} {overlay : Overlay} {admission : Admission} :
      s.inFlight[position]? = some (.judging cp raw batch rotationFor claimedRoot canonical overlay []) →
      judgePrefix crates config cp raw rotationFor
        (extendPrefix cp.treeSize overlay.length canonical.length overlay canonical) = .ok admission →
      Stepped crates config s (.advance position)
        ⟨s.db, s.inFlight.set position (.admitting cp raw batch rotationFor claimedRoot admission)⟩
  | promoted {position : Nat} {cp : Checkpoint} {req : PromoteRequest} {outcome : InsertOutcome} {after : Db} :
      s.inFlight[position]? = some (.promoting cp req) →
      promoteEntryIn crates s.db cp req.entryId req.leafIndex req.inclusionPath = .ok (outcome, after) →
      Stepped crates config s (.advance position) ⟨after, s.inFlight.eraseIdx position⟩
  | committed {position : Nat} {cp : Checkpoint} {raw : Option Bytes} {batch : List PendingPromotion}
      {rotationFor : Option Nat} {claimedRoot : H} {admission : Admission} {after : Db} :
      s.inFlight[position]? = some (.admitting cp raw batch rotationFor claimedRoot admission) →
      commitAdmission crates cp batch claimedRoot admission s.db = .ok (admission, after) →
      Stepped crates config s (.advance position) ⟨after, s.inFlight.eraseIdx position⟩
  | restarted : Stepped crates config s .restart ⟨s.db, []⟩

omit [DecidableEq H] in
theorem Represents.reopened {db : Db} (h : Represents crates db) (hschema : db.entriesSchema = .current) :
    reopened crates db = db := by
  unfold AhlMirror.reopened
  rw [h.openStore hschema]

theorem arrive_stepped (s : Server H) (call : Call) :
    Stepped crates config s (.arrive call) (s.arrive crates call).1 := by
  cases call with
  | stage claimed bytes metadata =>
    unfold Server.arrive
    dsimp only
    rcases hresult : withTransaction s.db (stageEntry crates · claimed bytes metadata) with ⟨after, outcome⟩
    cases outcome with
    | error e =>
      rw [withTransaction_eq_error hresult]
      exact .idle _
    | ok outcome => exact .staged (withTransaction_eq_ok hresult)
  | ingest cp raw batch rotationFor =>
    unfold Server.arrive
    dsimp only
    cases hbegin : beginAdmission crates s.db cp raw batch rotationFor with
    | error e => exact .idle _
    | ok request => exact .began hbegin
  | promote req =>
    unfold Server.arrive
    dsimp only
    cases hget : getCheckpoint s.db req.treeSize with
    | error e => exact .idle _
    | ok found =>
      cases found with
      | none => exact .idle _
      | some cp => exact .read hget

theorem advance_stepped (s : Server H) (position : Nat) :
    Stepped crates config s (.advance position) (s.advance crates config position).1 := by
  unfold Server.advance
  cases hat : s.inFlight[position]? with
  | none => exact .idle _
  | some request =>
    cases request with
    | promoting cp req =>
      unfold promoteEntry
      dsimp only
      rcases hresult : withTransaction s.db
          (fun db => promoteEntryIn crates db cp req.entryId req.leafIndex req.inclusionPath) with ⟨after, outcome⟩
      cases outcome with
      | error e =>
        rw [withTransaction_eq_error hresult]
        exact .failed position
      | ok outcome => exact .promoted hat (withTransaction_eq_ok hresult)
    | judging cp raw batch rotationFor claimedRoot canonical overlay rest =>
      cases rest with
      | nil =>
        dsimp only [continueAdmission]
        cases hverdict : judgePrefix crates config cp raw rotationFor
            (extendPrefix cp.treeSize overlay.length canonical.length overlay canonical) with
        | error e => exact .failed position
        | ok admission => exact .judged hat hverdict
      | cons p rest =>
        dsimp only [continueAdmission]
        cases hturn : overlayPending crates s.db canonical.length cp.treeSize claimedRoot overlay p with
        | error e => exact .failed position
        | ok laid => exact .turned hat hturn
    | admitting cp raw batch rotationFor claimedRoot admission =>
      dsimp only
      rcases hresult : withTransaction s.db (commitAdmission crates cp batch claimedRoot admission) with ⟨after, outcome⟩
      cases outcome with
      | error e =>
        rw [withTransaction_eq_error hresult]
        exact .failed position
      | ok admitted =>
        have hcommit := withTransaction_eq_ok hresult
        obtain rfl := (commitAdmission_cases hcommit).1
        exact .committed hat hcommit

/-! ### Verdicts -/

variable (crates config) in
omit [DecidableEq H] in
/-- The admission the event judges good: its checkpoint, and the prefix it has in view. -/
def Server.judges (s : Server H) : Event → Option (Checkpoint × List Bytes)
  | .advance position => s.inFlight[position]?.bind fun
    | .judging cp raw _ rotationFor _ canonical overlay [] =>
      let visible := extendPrefix cp.treeSize overlay.length canonical.length overlay canonical
      if (judgePrefix crates config cp raw rotationFor visible).isOk then some (cp, visible) else none
    | _ => none
  | _ => none

omit [DecidableEq H] in
theorem Server.judges_of_verdict {s : Server H} {position : Nat} {cp : Checkpoint} {raw : Option Bytes}
    {batch : List PendingPromotion} {rotationFor : Option Nat} {claimedRoot : H} {canonical : List Bytes}
    {overlay : Overlay} {admission : Admission}
    (hat : s.inFlight[position]? = some (.judging cp raw batch rotationFor claimedRoot canonical overlay []))
    (hverdict : judgePrefix crates config cp raw rotationFor
      (extendPrefix cp.treeSize overlay.length canonical.length overlay canonical) = .ok admission) :
    s.judges crates config (.advance position) =
      some (cp, extendPrefix cp.treeSize overlay.length canonical.length overlay canonical) := by
  unfold Server.judges
  dsimp only
  rw [hat, Option.bind_some]
  dsimp only
  rw [hverdict]
  rfl

/-! ### What every event keeps -/

theorem forall_mem_concat {α : Type} {P : α → Prop} {requests : List α} (h : ∀ a ∈ requests, P a) {request : α}
    (hrequest : P request) : ∀ a ∈ requests ++ [request], P a := by
  intro a ha
  rcases List.mem_append.1 ha with hold | hnew
  · exact h a hold
  · exact List.mem_singleton.1 hnew ▸ hrequest

theorem forall_mem_set {α : Type} {P : α → Prop} {requests : List α} (h : ∀ a ∈ requests, P a) {position : Nat} {request : α}
    (hrequest : P request) : ∀ a ∈ requests.set position request, P a := by
  intro a ha
  rcases List.mem_or_eq_of_mem_set ha with hold | rfl
  · exact h a hold
  · exact hrequest

theorem Grows.getStagedRaw {db after : Db} (h : Grows db after) {entryId : String} {bytes : Bytes}
    (hstaged : getStagedRaw db entryId = some bytes) : getStagedRaw after entryId = some bytes := by
  obtain ⟨more, hmore⟩ := h.staged
  unfold AhlMirror.getStagedRaw at hstaged ⊢
  obtain ⟨row, hfind, hbytes⟩ := Option.map_eq_some_iff.1 hstaged
  rw [← hmore, List.find?_append, hfind]
  exact congrArg some hbytes

omit [HashOctets H] [DecidableEq H] in
theorem Grows.overlayPending {db after : Db} (h : Grows db after) {canonicalLen target : Nat} {root : H}
    {overlay laid : Overlay} {p : PendingPromotion}
    (hturn : AhlMirror.overlayPending crates db canonicalLen target root overlay p = .ok laid) :
    AhlMirror.overlayPending crates after canonicalLen target root overlay p = .ok laid := by
  unfold AhlMirror.overlayPending at hturn ⊢
  split_ifs at hturn ⊢
  · exact hturn
  · exact hturn
  · exact hturn
  · obtain ⟨bytes, hbytes, hrest⟩ := bind_eq_ok.1 hturn
    rw [h.getStagedRaw (okOr_eq_ok.1 hbytes), okOr, ok_bind]
    exact hrest

omit [HashOctets H] [DecidableEq H] in
theorem Grows.overlayBatch {db after : Db} (h : Grows db after) {canonicalLen target : Nat} {root : H} :
    ∀ {batch : List PendingPromotion} {overlay laid : Overlay},
      batch.foldlM (AhlMirror.overlayPending crates db canonicalLen target root) overlay = .ok laid →
        batch.foldlM (AhlMirror.overlayPending crates after canonicalLen target root) overlay = .ok laid
  | [], _, _, hfold => hfold
  | p :: rest, overlay, laid, hfold => by
    rw [List.foldlM_cons, bind_eq_ok] at hfold
    obtain ⟨mid, hturn, hrest⟩ := hfold
    rw [List.foldlM_cons, h.overlayPending hturn]
    exact h.overlayBatch hrest

variable (crates) in
/-- What an admission has gathered: the canonical entries of a store that has grown since, and the staged bytes
of the items of its batch before `rest`. -/
structure Gathered (db : Db) (cp : Checkpoint) (batch : List PendingPromotion) (claimedRoot : H)
    (canonical : List Bytes) (overlay : Overlay) (rest : List PendingPromotion) : Prop where
  size : ¬ cp.treeSize > MAX_TREE_SIZE
  root : crates.parseHashHex cp.rootHash = .ok claimedRoot
  entries : ∃ begun, Represents crates begun ∧ Grows begun db ∧ getEntriesRangeRaw begun 0 cp.treeSize = .ok canonical
  overlay : ∃ before, before ++ rest = batch ∧
    before.foldlM (overlayPending crates db canonical.length cp.treeSize claimedRoot) [] = .ok overlay

section gathered
variable {db : Db} {cp : Checkpoint} {raw : Option Bytes} {batch rest : List PendingPromotion} {rotationFor : Option Nat}
  {claimedRoot : H} {canonical : List Bytes} {overlay : Overlay}

omit [DecidableEq H] in
theorem Gathered.grow {after : Db} (h : Gathered crates db cp batch claimedRoot canonical overlay rest)
    (hgrow : Grows db after) : Gathered crates after cp batch claimedRoot canonical overlay rest where
  size := h.size
  root := h.root
  entries := by
    obtain ⟨begun, hrep, hsince, hread⟩ := h.entries
    exact ⟨begun, hrep, hsince.trans hgrow, hread⟩
  overlay := by
    obtain ⟨before, hbatch, hfold⟩ := h.overlay
    exact ⟨before, hbatch, hgrow.overlayBatch hfold⟩

omit [DecidableEq H] in
theorem Gathered.turn {p : PendingPromotion} {laid : Overlay}
    (h : Gathered crates db cp batch claimedRoot canonical overlay (p :: rest))
    (hturn : overlayPending crates db canonical.length cp.treeSize claimedRoot overlay p = .ok laid) :
    Gathered crates db cp batch claimedRoot canonical laid rest where
  size := h.size
  root := h.root
  entries := h.entries
  overlay := by
    obtain ⟨before, hbatch, hfold⟩ := h.overlay
    refine ⟨before ++ [p], by rw [List.append_assoc]; exact hbatch, ?_⟩
    rw [List.foldlM_append, hfold, ok_bind, List.foldlM_cons, hturn, ok_bind, List.foldlM_nil]
    rfl

omit [DecidableEq H] in
/-- **An admission sees one store**: that of its first lock, with the bytes that are staged by now. -/
theorem Gathered.visiblePrefix (h : Gathered crates db cp batch claimedRoot canonical overlay []) :
    ∃ judged, Represents crates judged ∧ Grows judged db ∧
      buildVisiblePrefix crates judged batch cp.treeSize claimedRoot =
        .ok (extendPrefix cp.treeSize overlay.length canonical.length overlay canonical) := by
  obtain ⟨begun, hrep, hsince, hread⟩ := h.entries
  obtain ⟨before, hbatch, hfold⟩ := h.overlay
  rw [List.append_nil] at hbatch
  subst hbatch
  have hgrow : Grows { begun with stagedEntries := db.stagedEntries } db :=
    ⟨List.prefix_rfl, hsince.entries, hsince.checkpoints, hsince.rotationCheckpoints⟩
  have hcanonical : getEntriesRangeRaw { begun with stagedEntries := db.stagedEntries } 0 cp.treeSize = .ok canonical := hread
  refine ⟨{ begun with stagedEntries := db.stagedEntries }, hrep.congr rfl rfl, hgrow, ?_⟩
  unfold buildVisiblePrefix
  rw [hcanonical, ok_bind]
  exact congrArg (· >>= fun overlay => .ok (extendPrefix cp.treeSize overlay.length canonical.length overlay canonical)) hfold

omit [DecidableEq H] in
theorem Gathered.judgeCheckpoint {judged : Db} {visible : List Bytes} {admission : Admission}
    (h : Gathered crates db cp batch claimedRoot canonical overlay rest)
    (hvisible : buildVisiblePrefix crates judged batch cp.treeSize claimedRoot = .ok visible)
    (hverdict : judgePrefix crates config cp raw rotationFor visible = .ok admission) :
    judgeCheckpoint crates config judged cp raw batch rotationFor = .ok (claimedRoot, admission) := by
  unfold AhlMirror.judgeCheckpoint
  rw [if_neg h.size, h.root, mapErr, ok_bind, hvisible, ok_bind, hverdict, ok_bind]

end gathered

omit [DecidableEq H] in
theorem beginAdmission_cases {db : Db} (hrep : Represents crates db) {cp : Checkpoint} {raw : Option Bytes}
    {batch : List PendingPromotion} {rotationFor : Option Nat} {request : InFlight H}
    (h : beginAdmission crates db cp raw batch rotationFor = .ok request) : ∃ claimedRoot canonical,
      request = .judging cp raw batch rotationFor claimedRoot canonical [] batch ∧
        Gathered crates db cp batch claimedRoot canonical [] batch := by
  unfold beginAdmission at h
  simp only [ite_error_eq_ok, bind_eq_ok, mapErr_eq_ok] at h
  obtain ⟨hsize, claimedRoot, hroot, canonical, hread, h⟩ := h
  obtain rfl := Except.ok.inj h
  exact ⟨claimedRoot, canonical, rfl, hsize, hroot, ⟨db, hrep, Grows.refl db, hread⟩, ⟨[], rfl, rfl⟩⟩

variable (crates config) in
/-- What the locks of a request saw, of stores that have grown since. -/
def InFlight.Based (db : Db) : InFlight H → Prop
  | .promoting checkpoint req => checkpoint ∈ db.checkpoints ∧ checkpoint.treeSize = req.treeSize ∧ req.treeSize < i64Bound
  | .judging cp _ batch _ claimedRoot canonical overlay rest => Gathered crates db cp batch claimedRoot canonical overlay rest
  | .admitting cp raw batch rotationFor claimedRoot admission => ∃ judged, Represents crates judged ∧ Grows judged db ∧
      judgeCheckpoint crates config judged cp raw batch rotationFor = .ok (claimedRoot, admission)

omit [DecidableEq H] in
theorem InFlight.Based.grow {db after : Db} {request : InFlight H} (h : request.Based crates config db)
    (hgrow : Grows db after) : request.Based crates config after := by
  cases request with
  | promoting checkpoint req => exact ⟨hgrow.checkpoints.subset h.1, h.2⟩
  | judging cp raw batch rotationFor claimedRoot canonical overlay rest => exact Gathered.grow h hgrow
  | admitting cp raw batch rotationFor claimedRoot admission =>
    obtain ⟨judged, hrep, hgrow', hjudge⟩ := h
    exact ⟨judged, hrep, hgrow'.trans hgrow, hjudge⟩

variable (crates config) in
structure Server.Sound (s : Server H) : Prop where
  represents : Represents crates s.db
  schema : s.db.entriesSchema = .current
  based : ∀ request ∈ s.inFlight, request.Based crates config s.db

omit [DecidableEq H] in
theorem Server.Sound.init : Server.Sound crates config (Server.init : Server H) :=
  ⟨Represents.empty, rfl, by simp [Server.init]⟩

theorem next_stepped {s : Server H} (h : s.Sound crates config) (event : Event) :
    Stepped crates config s event ((server crates config).next s event) := by
  cases event with
  | arrive call => exact arrive_stepped s call
  | advance position => exact advance_stepped s position
  | restart =>
    show Stepped crates config s .restart ⟨reopened crates s.db, []⟩
    rw [h.represents.reopened h.schema]
    exact .restarted

omit [DecidableEq H] in
theorem stageEntry_staged {db after : Db} {claimed : String} {bytes : Bytes} {metadata : Value} {outcome : InsertOutcome}
    (h : stageEntry crates db claimed bytes metadata = .ok (outcome, after)) :
    ∃ staged, db.stagedEntries <+: staged ∧ after = { db with stagedEntries := staged } := by
  obtain ⟨-, rfl | rfl⟩ := stageEntry_cases h
  · exact ⟨_, List.prefix_rfl, rfl⟩
  · exact ⟨_, List.prefix_append _ _, rfl⟩

omit [DecidableEq H] in
theorem Server.Sound.commit {s : Server H} {db : Db} {left : List (InFlight H)} (h : s.Sound crates config)
    (hrep : Represents crates db) (hschema : db.entriesSchema = s.db.entriesSchema) (hgrow : Grows s.db db)
    (hleft : ∀ request ∈ left, request ∈ s.inFlight) : Server.Sound crates config ⟨db, left⟩ :=
  ⟨hrep, hschema.trans h.schema, fun request hrequest => (h.based request (hleft request hrequest)).grow hgrow⟩

theorem Stepped.keeps {s after : Server H} {event : Event} (hstep : Stepped crates config s event after)
    (h : s.Sound crates config) : after.Sound crates config ∧ Grows s.db after.db := by
  have herase : ∀ position, ∀ request ∈ s.inFlight.eraseIdx position, request ∈ s.inFlight :=
    fun position request hrequest => List.mem_of_mem_eraseIdx hrequest
  have hjoin : ∀ {request : InFlight H}, request.Based crates config s.db →
      Server.Sound crates config ⟨s.db, s.inFlight ++ [request]⟩ :=
    fun hbased => ⟨h.represents, h.schema, forall_mem_concat h.based hbased⟩
  have hput : ∀ {position : Nat} {request : InFlight H}, request.Based crates config s.db →
      Server.Sound crates config ⟨s.db, s.inFlight.set position request⟩ :=
    fun hbased => ⟨h.represents, h.schema, forall_mem_set h.based hbased⟩
  cases hstep with
  | idle => exact ⟨h, Grows.refl _⟩
  | staged hstage =>
    obtain ⟨staged, hinitial, rfl⟩ := stageEntry_staged hstage
    have hgrow : Grows s.db { s.db with stagedEntries := staged } :=
      ⟨hinitial, List.prefix_rfl, List.prefix_rfl, List.prefix_rfl⟩
    exact ⟨h.commit (h.represents.congr rfl rfl) rfl hgrow fun _ hrequest => hrequest, hgrow⟩
  | began hbegin =>
    obtain ⟨claimedRoot, canonical, rfl, hgathered⟩ := beginAdmission_cases h.represents hbegin
    exact ⟨hjoin hgathered, Grows.refl _⟩
  | read hget =>
    exact ⟨hjoin (getCheckpoint_mem hget), Grows.refl _⟩
  | failed position => exact ⟨h.commit h.represents rfl (Grows.refl _) (herase position), Grows.refl _⟩
  | turned hat hturn =>
    have hgathered : Gathered crates s.db _ _ _ _ _ _ := h.based _ (List.mem_of_getElem? hat)
    exact ⟨hput (hgathered.turn hturn), Grows.refl _⟩
  | judged hat hverdict =>
    have hgathered : Gathered crates s.db _ _ _ _ _ _ := h.based _ (List.mem_of_getElem? hat)
    obtain ⟨judged, hrep, hgrow, hvisible⟩ := hgathered.visiblePrefix
    exact ⟨hput ⟨judged, hrep, hgrow, hgathered.judgeCheckpoint hvisible hverdict⟩, Grows.refl _⟩
  | @promoted position cp req outcome db _ hpromote =>
    obtain ⟨hrep, hgrow⟩ := promoteEntryIn_grow h.represents hpromote
    exact ⟨h.commit hrep (promoteEntryIn_schema h.represents hpromote) hgrow.grows (herase position), hgrow.grows⟩
  | @committed position cp raw batch rotationFor claimedRoot admission db _ hcommit =>
    obtain ⟨-, mid, recorded, hcommitted⟩ := commitAdmission_cases hcommit
    obtain ⟨hrep, hgrow⟩ := hcommitted.represents h.represents
    exact ⟨h.commit hrep (hcommitted.schema h.represents) hgrow (herase position), hgrow⟩
  | restarted => exact ⟨h.commit h.represents rfl (Grows.refl _) (by simp), Grows.refl _⟩

/-- What every event that meets its condition keeps on a sound server, a schedule keeps. -/
theorem server_keeps_along {I : Server H → Prop} {P : Server H → Event → Prop} (hinit : I Server.init)
    (hstep : ∀ s event after, s.Sound crates config → I s → P s event → Stepped crates config s event after → I after)
    {schedule : List Event} (hP : (server crates config).Along P Server.init schedule) :
    I (serverAfter crates config schedule) :=
  ((server crates config).exec_invariant_along (I := fun s => s.Sound crates config ∧ I s)
    (fun s event hs hP => ⟨((next_stepped hs.1 event).keeps hs.1).1, hstep s event _ hs.1 hs.2 hP (next_stepped hs.1 event)⟩)
    ⟨Server.Sound.init, hinit⟩ hP).2

theorem server_keeps {I : Server H → Prop} (hinit : I Server.init)
    (hstep : ∀ s event after, s.Sound crates config → I s → Stepped crates config s event after → I after)
    (schedule : List Event) : I (serverAfter crates config schedule) :=
  server_keeps_along (P := fun _ _ => True) hinit (fun s event after hs hI _ => hstep s event after hs hI)
    ((server crates config).along_true (fun _ _ => trivial) _ schedule)

theorem exec_grows {s : Server H} (hs : s.Sound crates config) (later : List Event) :
    Grows s.db ((server crates config).exec s later).db :=
  (server crates config).exec_relates (I := fun s => s.Sound crates config) (E := fun s t => Grows s.db t.db)
    (fun _ event hs => ((next_stepped hs event).keeps hs).1) (fun s => Grows.refl s.db) (fun _ _ _ => Grows.trans)
    (fun _ event hs => ((next_stepped hs event).keeps hs).2) later hs

section after
variable (crates config)

theorem serverAfter_sound (schedule : List Event) : (serverAfter crates config schedule).Sound crates config :=
  server_keeps (I := fun s => s.Sound crates config) Server.Sound.init (fun _ _ _ hs _ hstep => (hstep.keeps hs).1) schedule

theorem serverAfter_grows (before later : List Event) :
    Grows (serverAfter crates config before).db (serverAfter crates config (before ++ later)).db := by
  unfold serverAfter
  rw [Machine.exec_append]
  exact exec_grows (serverAfter_sound crates config before) later

theorem serverAfter_written (schedule : List Event) : Written crates config (serverAfter crates config schedule).db := by
  refine server_keeps (I := fun s => Written crates config s.db) .refl (fun s event after hs hwritten hstep => ?_) schedule
  cases hstep with
  | idle => exact hwritten
  | staged hstage => exact hwritten.tail (.staged hstage)
  | began => exact hwritten
  | read => exact hwritten
  | failed => exact hwritten
  | turned => exact hwritten
  | judged => exact hwritten
  | promoted _ hpromote => exact hwritten.tail (.promoted hpromote)
  | committed hat hcommit =>
    obtain ⟨judged, -, -, hjudge⟩ := hs.based _ (List.mem_of_getElem? hat)
    exact hwritten.tail (.admitted hjudge hcommit)
  | restarted => exact hwritten

end after

/-! ### One call at a time -/

theorem advance_idle (db : Db) (count : Nat) :
    (server crates config).exec (⟨db, []⟩ : Server H) (List.replicate count (.advance 0)) = ⟨db, []⟩ := by
  induction count with
  | zero => rfl
  | succ count ih =>
    rw [List.replicate_succ, Machine.exec_cons]
    exact ih

theorem exec_judged (db : Db) (cp : Checkpoint) (raw : Option Bytes) (batch : List PendingPromotion)
    (rotationFor : Option Nat) (claimedRoot : H) (canonical : List Bytes) (rest : List PendingPromotion) :
    ∀ overlay : Overlay, (server crates config).exec
        ⟨db, [.judging cp raw batch rotationFor claimedRoot canonical overlay rest]⟩
        (List.replicate (rest.length + 2) (.advance 0)) =
      ⟨match (do
          let laid ← rest.foldlM (overlayPending crates db canonical.length cp.treeSize claimedRoot) overlay
          judgePrefix crates config cp raw rotationFor
            (extendPrefix cp.treeSize laid.length canonical.length laid canonical)) with
        | .error _ => db
        | .ok admission => (withTransaction db (commitAdmission crates cp batch claimedRoot admission)).1, []⟩ := by
  induction rest with
  | nil =>
    intro overlay
    rw [List.foldlM_nil, pure_bind, List.length_nil, Nat.zero_add, List.replicate_succ, Machine.exec_cons]
    show (server crates config).exec (Server.advance crates config ⟨db, _⟩ 0).1 _ = _
    unfold Server.advance
    dsimp only [List.getElem?_cons_zero, continueAdmission]
    cases judgePrefix crates config cp raw rotationFor
        (extendPrefix cp.treeSize overlay.length canonical.length overlay canonical) with
    | error e => exact advance_idle db 1
    | ok admission => rfl
  | cons p rest ih =>
    intro overlay
    rw [List.foldlM_cons, List.length_cons, List.replicate_succ, Machine.exec_cons]
    show (server crates config).exec (Server.advance crates config ⟨db, _⟩ 0).1 _ = _
    unfold Server.advance
    dsimp only [List.getElem?_cons_zero, continueAdmission]
    cases overlayPending crates db canonical.length cp.treeSize claimedRoot overlay p with
    | error e => exact advance_idle db _
    | ok laid =>
      rw [ok_bind]
      exact ih laid

theorem exec_alone (db : Db) (call : Call) :
    (server crates config).exec ⟨db, []⟩ (.arrive call :: List.replicate call.advances (.advance 0)) =
      ⟨(serve crates config db call).1, []⟩ := by
  rw [Machine.exec_cons]
  show (server crates config).exec (Server.arrive crates ⟨db, []⟩ call).1 _ = _
  unfold Server.arrive serve Call.advances
  cases call with
  | stage claimed bytes metadata => rfl
  | ingest cp raw batch rotationFor =>
    unfold ingestCheckpoint judgeCheckpoint beginAdmission buildVisiblePrefix
    dsimp only
    split_ifs
    · exact advance_idle db _
    · cases mapErr MirrorError.ahl (crates.parseHashHex cp.rootHash) with
      | error e => exact advance_idle db _
      | ok claimedRoot =>
        rw [ok_bind, ok_bind]
        cases getEntriesRangeRaw db 0 cp.treeSize with
        | error e => exact advance_idle db _
        | ok canonical =>
          refine (exec_judged db cp raw batch rotationFor claimedRoot canonical batch []).trans ?_
          rw [ok_bind]
          cases batch.foldlM (overlayPending crates db canonical.length cp.treeSize claimedRoot) [] with
          | error e => rfl
          | ok laid =>
            rw [ok_bind, ok_bind, ok_bind]
            cases judgePrefix crates config cp raw rotationFor
                (extendPrefix cp.treeSize laid.length canonical.length laid canonical) <;> rfl
  | promote req =>
    unfold promoteHandler
    dsimp only
    cases getCheckpoint db req.treeSize with
    | error e => rfl
    | ok found => cases found <;> rfl

theorem exec_oneAtATime (db : Db) (calls : List Call) :
    (server crates config).exec ⟨db, []⟩ (oneAtATime calls) = ⟨(mirror crates config).exec db calls, []⟩ := by
  induction calls generalizing db with
  | nil => rfl
  | cons call calls ih =>
    unfold oneAtATime
    rw [List.flatMap_cons, Machine.exec_append, exec_alone]
    exact ih _

theorem serverAfter_oneAtATime (calls : List Call) :
    serverAfter crates config (oneAtATime calls) = ⟨storeAfter crates config calls, []⟩ := exec_oneAtATime Db.empty calls

end AhlMirror
