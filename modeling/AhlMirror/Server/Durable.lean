import AhlMirror.Model.Paired
import AhlMirror.Server.Account

/-!
# What an answer promises

A call that is answered with success has put rows in the store, and no later event takes one away: not
another request that was in flight before it, and not a restart. So what the answer promised is still served.
-/

namespace AhlMirror

open AhlMirror.Core (Machine)

variable {H K : Type} [HashOctets H] {crates : Crates H K} {config : Config K}

/-! ### Promises -/

/-- The bytes staged under an id are served for it, from the index asked for. -/
def Retrievable (crates : Crates H K) (db : Db) (entryId : String) (leafIndex : Nat) : Prop :=
  ∃ bytes, getStagedRaw db entryId = some bytes ∧ (canonicalEntries db)[leafIndex]? = some bytes ∧
    retrieveById crates db entryId = .ok (.present leafIndex bytes)

/-- An admission's promises: its batch is served, every view lists its member, and each rotation it anchors is
served by it or by a checkpoint of lower order. -/
structure AdmissionKept [DecidableEq H] (crates : Crates H K) (config : Config K) (db : Db) (cp : Checkpoint)
    (batch : List PendingPromotion) (admission : Admission) : Prop where
  batch : ∀ p ∈ batch, Retrievable crates db p.entryId p.leafIndex
  member : admission.seriesMember = true → ∀ view, seriesView crates config db = .ok view →
    cp ∈ view.members.map (·.checkpoint)
  anchors : ∀ index ∈ admission.rotationAnchors, ∃ held, getRotationCheckpoint db index = .ok (some held) ∧ seriesLE held cp

/-- What an answer promises of the store. An error promises nothing. -/
def Promised [DecidableEq H] (crates : Crates H K) (config : Config K) (db : Db) : Call → Answer → Prop
  | .stage claimed bytes _, .stored (.ok _) => getStagedRaw db claimed = some bytes
  | .promote req, .stored (.ok _) => Retrievable crates db req.entryId req.leafIndex
  | .ingest cp _ batch _, .admitted (.ok admission) => AdmissionKept crates config db cp batch admission
  | _, _ => True

/-! ### The rows behind them -/

/-- The row of a promotion. -/
def Promoted (db : Db) (p : PendingPromotion) : Prop :=
  ∃ row ∈ db.entries, row.entryIndex = p.leafIndex ∧ row.entryId = p.entryId ∧
    getStagedRaw db p.entryId = some row.envelope

/-- The rows of an admission. -/
structure AdmissionRows (db : Db) (cp : Checkpoint) (batch : List PendingPromotion) (admission : Admission) : Prop where
  batch : ∀ p ∈ batch, Promoted db p
  member : admission.seriesMember = true → cp ∈ db.checkpoints
  anchors : ∀ index ∈ admission.rotationAnchors, index < i64Bound ∧
    ∃ held, (index, held) ∈ db.rotationCheckpoints ∧ seriesLE held cp

def AnswerRows (db : Db) : Call → Answer → Prop
  | .stage claimed bytes _, .stored (.ok _) => getStagedRaw db claimed = some bytes
  | .promote req, .stored (.ok _) => Promoted db ⟨req.entryId, req.leafIndex, req.inclusionPath⟩
  | .ingest cp _ batch _, .admitted (.ok admission) => AdmissionRows db cp batch admission
  | _, _ => True

theorem Promoted.grow {db after : Db} {p : PendingPromotion} (h : Promoted db p) (hgrow : Grows db after) : Promoted after p := by
  obtain ⟨row, hrow, hindex, hid, hstaged⟩ := h
  exact ⟨row, hgrow.entries.subset hrow, hindex, hid, hgrow.getStagedRaw hstaged⟩

theorem AnswerRows.grow {db after : Db} {call : Call} {answer : Answer} (h : AnswerRows db call answer) (hgrow : Grows db after) :
    AnswerRows after call answer := by
  unfold AnswerRows at h ⊢
  split at h
  · exact hgrow.getStagedRaw h
  · exact h.grow hgrow
  · refine ⟨fun p hp => (h.batch p hp).grow hgrow, fun hmember => hgrow.checkpoints.subset (h.member hmember),
      fun index hindex => ?_⟩
    obtain ⟨hbound, held, hheld, hle⟩ := h.anchors index hindex
    exact ⟨hbound, held, hgrow.rotationCheckpoints.subset hheld, hle⟩
  · trivial

theorem Promoted.retrievable {db : Db} {p : PendingPromotion} (h : Promoted db p) (hrep : Represents crates db)
    (haccount : Accounted crates config db) : Retrievable crates db p.entryId p.leafIndex := by
  obtain ⟨row, hrow, hindex, hid, hstaged⟩ := h
  have hfiled : sha256Id crates row.envelope = row.entryId := (haccount.entries row hrow).1.1
  refine ⟨row.envelope, hstaged, ?_, ?_⟩
  · obtain ⟨position, hposition, rfl⟩ := List.mem_iff_getElem.1 hrow
    rw [hrep.contiguous.getElem hposition] at hindex
    rw [← hindex, canonicalEntries, List.getElem?_map, List.getElem?_eq_getElem hposition]
    rfl
  · unfold retrieveById
    rw [hrep.toCanonical.getEntryById.2 ⟨row, hrow, hid, rfl⟩]
    dsimp only
    rw [if_neg (by rw [hfiled, hid]; exact not_not.2 rfl), hindex]

theorem served_of_row {db : Db} {index : Nat} {held cp : Checkpoint} (hindex : index < i64Bound)
    (hheld : (index, held) ∈ db.rotationCheckpoints) (hle : seriesLE held cp) :
    ∃ first, getRotationCheckpoint db index = .ok (some first) ∧ seriesLE first cp := by
  unfold getRotationCheckpoint
  rw [toI64_of_lt hindex, ok_bind]
  cases hhead : (rotationRows db index).head? with
  | none =>
    rw [List.head?_eq_none_iff] at hhead
    exact absurd (mem_rotationRows.2 hheld) (by simp [hhead])
  | some first => exact ⟨first, rfl, (head?_rotationRows_le hhead hheld).trans hle⟩

variable [DecidableEq H]

theorem AdmissionRows.kept {db : Db} {cp : Checkpoint} {batch : List PendingPromotion} {admission : Admission}
    (h : AdmissionRows db cp batch admission) (hrep : Represents crates db) (haccount : Accounted crates config db) :
    AdmissionKept crates config db cp batch admission where
  batch p hp := (h.batch p hp).retrievable hrep haccount
  member hmember view hview := by
    rw [(judgeMembers_eq_ok (seriesView_cases hview).members).1]
    exact (List.mem_insertionSort _).2 (h.member hmember)
  anchors index hindex := by
    obtain ⟨hbound, held, hheld, hle⟩ := h.anchors index hindex
    exact served_of_row hbound hheld hle

theorem AnswerRows.promised {db : Db} {call : Call} {answer : Answer} (h : AnswerRows db call answer)
    (hrep : Represents crates db) (haccount : Accounted crates config db) : Promised crates config db call answer := by
  rcases answer with (e | outcome) | (e | admission)
  · cases call <;> trivial
  · cases call with
    | stage => exact h
    | ingest => trivial
    | promote => exact h.retrievable hrep haccount
  · cases call <;> trivial
  · cases call with
    | stage => trivial
    | ingest => exact h.kept hrep haccount
    | promote => trivial

/-! ### Answers -/

/-- The call an event answers, if it answers. -/
def Server.answers (s : Server H) : Event → Option Call
  | .arrive call => some call
  | .advance position => s.inFlight[position]?.map InFlight.call
  | .restart => none

omit [DecidableEq H] in
theorem stageEntry_getStagedRaw {db after : Db} {claimed : String} {bytes : Bytes} {metadata : Value}
    {outcome : InsertOutcome} (h : stageEntry crates db claimed bytes metadata = .ok (outcome, after)) :
    getStagedRaw after claimed = some bytes := by
  unfold stageEntry at h
  simp only [ite_error_eq_ok, bind_eq_ok, mapErr_eq_ok] at h
  obtain ⟨hid, -, -, -, -, -, -, hstage⟩ := h
  rw [not_not.1 hid] at hstage
  unfold storeStageEntry at hstage
  cases hheld : getStagedRaw db claimed with
  | some existing =>
    simp only [hheld] at hstage
    split_ifs at hstage with hsame
    obtain ⟨-, rfl⟩ := Prod.mk.inj (Except.ok.inj hstage)
    rw [hheld, hsame]
  | none =>
    simp only [hheld] at hstage
    obtain ⟨-, rfl⟩ := Prod.mk.inj (Except.ok.inj hstage)
    unfold getStagedRaw at hheld ⊢
    rw [List.find?_append, Option.map_eq_none_iff.1 hheld]
    simp

omit [DecidableEq H] in
theorem promoteBatch_promoted {cp : Checkpoint} {batch : List PendingPromotion} {db mid : Db}
    (hrep : Represents crates db) (h : promoteBatch crates cp batch db = .ok mid) : ∀ p ∈ batch, Promoted mid p := by
  intro p hp
  obtain ⟨row, hrow, hindex, hid, hstaged⟩ := promoteBatch_holds hrep h p hp
  exact ⟨row, hrow, hindex, hid, (promoteBatch_grow hrep h).2.grows.getStagedRaw hstaged⟩

theorem Committed.rows {judged db mid recorded after : Db} {cp : Checkpoint} {raw : Option Bytes}
    {batch : List PendingPromotion} {rotationFor : Option Nat} {claimedRoot : H} {admission : Admission}
    (hrep : Represents crates db) (h : Committed crates cp batch claimedRoot admission db mid recorded after)
    (hjudge : judgeCheckpoint crates config judged cp raw batch rotationFor = .ok (claimedRoot, admission)) :
    AdmissionRows after cp batch admission := by
  obtain ⟨visible, list, active, hjudged⟩ := judgeCheckpoint_cases hjudge
  obtain ⟨hentries, hstaged⟩ := h.entries
  obtain ⟨kept, -, hkept, rfl⟩ := insertRotationCheckpoints_cases h.rotations
  refine ⟨fun p hp => ?_, fun hmember => ?_, fun index hindex => ?_⟩
  · obtain ⟨row, hrow, hat, hid, hbytes⟩ := promoteBatch_promoted hrep h.batch p hp
    exact ⟨row, hentries ▸ hrow, hat, hid, by unfold getStagedRaw at hbytes ⊢; rwa [hstaged]⟩
  · rcases recordSeriesMember_cases h.member with ⟨rfl, hmem⟩ | ⟨-, rfl, -⟩
    · exact hmem hmember
    · exact List.mem_append_right _ (List.mem_singleton_self cp)
  · obtain ⟨-, -, -, -, -, -, -, hlt, -⟩ := ((rotationAnchorsFor_eq_ok hjudged.anchors).1 index).1 hindex
    refine ⟨hlt.trans hjudged.size, ?_⟩
    by_cases hfree : ∀ held, (index, held) ∈ recorded.rotationCheckpoints → ¬ seriesLE held cp
    · exact ⟨cp, List.mem_append_right _ (List.mem_map_of_mem (hkept index hindex hfree)), seriesLE.refl cp⟩
    · simp only [not_forall, not_not] at hfree
      obtain ⟨held, hheld, hle⟩ := hfree
      exact ⟨held, List.mem_append_left _ hheld, hle⟩

omit [DecidableEq H] in
theorem stage_rows (db : Db) (claimed : String) (bytes : Bytes) (metadata : Value) :
    AnswerRows (withTransaction db (stageEntry crates · claimed bytes metadata)).1 (.stage claimed bytes metadata)
      (.stored (withTransaction db (stageEntry crates · claimed bytes metadata)).2) := by
  rcases hresult : withTransaction db (stageEntry crates · claimed bytes metadata) with ⟨after, outcome⟩
  cases outcome with
  | error e => trivial
  | ok outcome => exact stageEntry_getStagedRaw (withTransaction_eq_ok hresult)

omit [DecidableEq H] in
theorem promote_rows {db : Db} (hrep : Represents crates db) (cp : Checkpoint) (req : PromoteRequest) :
    AnswerRows (promoteEntry crates db cp req.entryId req.leafIndex req.inclusionPath).1 (.promote req)
      (.stored (promoteEntry crates db cp req.entryId req.leafIndex req.inclusionPath).2) := by
  unfold promoteEntry
  rcases hresult : withTransaction db
      (fun db => promoteEntryIn crates db cp req.entryId req.leafIndex req.inclusionPath) with ⟨after, outcome⟩
  cases outcome with
  | error e => trivial
  | ok outcome =>
    have hone : promoteBatch crates cp [⟨req.entryId, req.leafIndex, req.inclusionPath⟩] db = .ok after := by
      simp only [promoteBatch, withTransaction_eq_ok hresult, ok_bind]
    exact promoteBatch_promoted hrep hone _ (List.mem_singleton_self _)

theorem commit_rows {judged db : Db} (hrep : Represents crates db) {cp : Checkpoint} {raw : Option Bytes}
    {batch : List PendingPromotion} {rotationFor : Option Nat} {claimedRoot : H} {admission : Admission}
    (hjudge : judgeCheckpoint crates config judged cp raw batch rotationFor = .ok (claimedRoot, admission)) :
    AnswerRows (withTransaction db (commitAdmission crates cp batch claimedRoot admission)).1
      (.ingest cp raw batch rotationFor)
      (.admitted (withTransaction db (commitAdmission crates cp batch claimedRoot admission)).2) := by
  rcases hresult : withTransaction db (commitAdmission crates cp batch claimedRoot admission) with ⟨after, outcome⟩
  cases outcome with
  | error e => trivial
  | ok admitted =>
    obtain ⟨rfl, mid, recorded, hcommitted⟩ := commitAdmission_cases (withTransaction_eq_ok hresult)
    exact hcommitted.rows hrep hjudge

theorem serve_rows {db : Db} (hrep : Represents crates db) (call : Call) :
    AnswerRows (serve crates config db call).1 call (serve crates config db call).2 := by
  cases call with
  | stage claimed bytes metadata => exact stage_rows db claimed bytes metadata
  | ingest cp raw batch rotationFor =>
    unfold serve ingestCheckpoint
    dsimp only
    cases hjudge : judgeCheckpoint crates config db cp raw batch rotationFor with
    | error e => trivial
    | ok verdict => exact commit_rows hrep hjudge
  | promote req =>
    unfold serve promoteHandler
    dsimp only
    rcases getCheckpoint db req.treeSize with e | _ | cp
    · trivial
    · trivial
    · exact promote_rows hrep cp req

theorem step_rows {s : Server H} (hs : s.Sound crates config) {event : Event} {call : Call} {answer : Answer}
    (hcall : s.answers event = some call) (hanswer : ((server crates config).step s event).2 = some answer) :
    AnswerRows ((server crates config).next s event).db call answer := by
  cases event with
  | arrive arrived =>
    obtain rfl := Option.some.inj hcall
    show AnswerRows (s.arrive crates arrived).1.db arrived answer
    replace hanswer : (s.arrive crates arrived).2 = some answer := hanswer
    unfold Server.arrive at hanswer ⊢
    cases arrived with
    | stage claimed bytes metadata =>
      obtain rfl := Option.some.inj hanswer
      exact stage_rows s.db claimed bytes metadata
    | ingest cp raw batch rotationFor =>
      dsimp only at hanswer ⊢
      cases hbegin : beginAdmission crates s.db cp raw batch rotationFor with
      | error e =>
        simp only [hbegin] at hanswer
        obtain rfl := Option.some.inj hanswer
        trivial
      | ok request => simp [hbegin] at hanswer
    | promote req =>
      dsimp only at hanswer ⊢
      rcases hget : getCheckpoint s.db req.treeSize with e | _ | cp
      all_goals simp only [hget] at hanswer
      · obtain rfl := Option.some.inj hanswer
        trivial
      · obtain rfl := Option.some.inj hanswer
        trivial
      · cases hanswer
  | advance position =>
    obtain ⟨request, hat, rfl⟩ := Option.map_eq_some_iff.1 hcall
    show AnswerRows (s.advance crates config position).1.db request.call answer
    replace hanswer : (s.advance crates config position).2 = some answer := hanswer
    unfold Server.advance at hanswer ⊢
    rw [hat] at hanswer ⊢
    cases request with
    | promoting cp req =>
      obtain rfl := Option.some.inj hanswer
      exact promote_rows hs.represents cp req
    | judging cp raw batch rotationFor claimedRoot canonical overlay rest =>
      dsimp only at hanswer ⊢
      cases hgoes : continueAdmission crates config s.db cp raw batch rotationFor claimedRoot canonical overlay rest with
      | error e =>
        simp only [hgoes] at hanswer
        obtain rfl := Option.some.inj hanswer
        trivial
      | ok request => simp [hgoes] at hanswer
    | admitting cp raw batch rotationFor claimedRoot admission =>
      obtain rfl := Option.some.inj hanswer
      obtain ⟨judged, -, -, hjudge⟩ := hs.based _ (List.mem_of_getElem? hat)
      exact commit_rows hs.represents hjudge
  | restart => cases hcall

/-- **An answer stands.** Take any schedule and any event of it that answers a call. What the answer promised
holds of the store whenever the schedule ends, whatever requests finished and restarts fell in between. -/
theorem acknowledged_durable (crates : Crates H K) (config : Config K) (before : List Event) (event : Event)
    (later : List Event) {call : Call} {answer : Answer}
    (hcall : (serverAfter crates config before).answers event = some call)
    (hanswer : ((server crates config).step (serverAfter crates config before) event).2 = some answer) :
    Promised crates config (serverAfter crates config (before ++ event :: later)).db call answer := by
  have hsound := serverAfter_sound crates config before
  have hrows := step_rows hsound hcall hanswer
  have hgrow : Grows ((server crates config).next (serverAfter crates config before) event).db
      (serverAfter crates config (before ++ event :: later)).db := by
    unfold serverAfter
    rw [Machine.exec_append]
    exact exec_grows ((next_stepped hsound event).keeps hsound).1 later
  exact (hrows.grow hgrow).promised (serverAfter_sound crates config _).represents (serverAfter_accounted crates config _)

namespace Symbolic

/-- An admission that is about to commit. -/
def admission : Call := ingest (checkpoint "A" 1 (Binding.root [[1]]) 5) [Binding.pending [[1]] 0]

def admitting : List Event := [.arrive (stage 1), .arrive admission, .advance 0, .advance 0]

end Symbolic

theorem acknowledged_durable_restarted :
    Retrievable Symbolic.binding
      (serverAfter Symbolic.binding Symbolic.config (Symbolic.admitting ++ .advance 0 :: [.restart])).db
      (Symbolic.hashText [1]) 0 := by
  have hcall : (serverAfter Symbolic.binding Symbolic.config Symbolic.admitting).answers (.advance 0) =
      some Symbolic.admission := rfl
  have hanswer : ((server Symbolic.binding Symbolic.config).step
      (serverAfter Symbolic.binding Symbolic.config Symbolic.admitting) (.advance 0)).2 =
      some (.admitted (.ok ⟨true, []⟩)) := by decide +kernel
  exact (acknowledged_durable Symbolic.binding Symbolic.config Symbolic.admitting (.advance 0) [.restart]
    hcall hanswer).batch _ (List.mem_singleton_self _)

end AhlMirror
