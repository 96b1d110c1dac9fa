import AhlMirror.Series.Admission
import AhlMirror.Series.View

/-!
# Roots in conflict

A conflict between two recorded checkpoints is found by every later view (`Recorded.floor`). Which
admissions record a checkpoint is exact (`recorded_iff_leavesTrace`): all but a rotation anchor that
every rotation it anchors already holds an earlier one for. So of two admissions in conflict both must
leave a trace. A root that is refused for the time it shares with a recorded one leaves none.
-/

namespace AhlMirror

/-- Some recorded checkpoint, in either table, declares this root at this size. -/
def Recorded (db : Db) (treeSize : Nat) (rootHash : String) : Prop :=
  ∃ row ∈ authenticatedCheckpoints db, row.treeSize = treeSize ∧ row.rootHash = rootHash

theorem Grows.authenticated {db after : Db} (h : Grows db after) {cp : Checkpoint}
    (hcp : cp ∈ authenticatedCheckpoints db) : cp ∈ authenticatedCheckpoints after := by
  rcases mem_authenticatedCheckpoints.1 hcp with hseries | ⟨index, hrotation⟩
  · exact mem_authenticatedCheckpoints.2 (Or.inl (h.checkpoints.subset hseries))
  · exact mem_authenticatedCheckpoints.2 (Or.inr ⟨index, h.rotationCheckpoints.subset hrotation⟩)

theorem Recorded.grow {db after : Db} {treeSize : Nat} {rootHash : String} (h : Recorded db treeSize rootHash)
    (hgrow : Grows db after) : Recorded after treeSize rootHash := by
  obtain ⟨row, hrow, hkey⟩ := h
  exact ⟨row, hgrow.authenticated hrow, hkey⟩

variable {H K : Type} [HashOctets H]

section conditions
variable (crates : Crates H K) (config : Config K) (db : Db) (cp : Checkpoint) (raw : Option Bytes)
  (batch : List PendingPromotion) (rotationFor : Option Nat)

/-- The rotations a checkpoint anchors, among those of the visible prefix. -/
def rotationRule : MirrorResult (List Nat) := do
  let claimedRoot ← mapErr .ahl (crates.parseHashHex cp.rootHash)
  let visible ← buildVisiblePrefix crates db batch cp.treeSize claimedRoot
  let list ← versions crates config visible
  rotationAnchorsFor crates config list cp raw rotationFor

/-- The checkpoint passes the ordinary rule, or some rotation it anchors holds no anchor to serve before
it, or its root is already recorded at its size. -/
def LeavesTrace : Prop :=
  ordinaryRule crates config db cp raw batch = .ok () ∨
  (∃ anchors, rotationRule crates config db cp raw batch rotationFor = .ok anchors ∧
    ∃ index ∈ anchors, ∀ held, (index, held) ∈ db.rotationCheckpoints → ¬ seriesLE held cp) ∨
  Recorded db cp.treeSize cp.rootHash

/-- A submission that `ingest_checkpoint` answers with `Ok`. -/
def Admitted [DecidableEq H] : Prop :=
  ∃ admission, (ingestCheckpoint crates config db cp raw batch rotationFor).2 = .ok admission

end conditions

variable {crates : Crates H K} {config : Config K}

theorem Judged.rotationRule {db : Db} {cp : Checkpoint} {raw : Option Bytes} {batch : List PendingPromotion}
    {rotationFor : Option Nat} {claimedRoot : H} {admission : Admission} {visible : List Bytes}
    {list : List (GovernanceState K)} {active : GovernanceState K}
    (h : Judged crates config db cp raw batch rotationFor claimedRoot admission visible list active) :
    rotationRule crates config db cp raw batch rotationFor = .ok admission.rotationAnchors := by
  unfold AhlMirror.rotationRule
  rw [h.root]
  simp only [mapErr, ok_bind, h.visiblePrefix, h.versions, h.anchors]

variable [DecidableEq H]

/-- An admitted checkpoint's root is recorded afterwards exactly where the admission leaves a trace. -/
theorem recorded_iff_leavesTrace {db after : Db} (hrep : Represents crates db) {cp : Checkpoint} {raw : Option Bytes}
    {batch : List PendingPromotion} {rotationFor : Option Nat} {admission : Admission}
    (h : ingestCheckpoint crates config db cp raw batch rotationFor = (after, .ok admission)) :
    Recorded after cp.treeSize cp.rootHash ↔ LeavesTrace crates config db cp raw batch rotationFor := by
  obtain ⟨claimedRoot, judged, hjudge, hcommit⟩ := ingestCheckpoint_eq_ok h
  obtain ⟨rfl, mid, recorded, hcommitted⟩ := commitAdmission_cases hcommit
  obtain ⟨visible, list, active, hjudged⟩ := judgeCheckpoint_cases hjudge
  have hgrow := (promoteBatch_grow hrep hcommitted.batch).2
  obtain ⟨kept, hkept, hall, hrotations⟩ := insertRotationCheckpoints_cases hcommitted.rotations
  have hrecorded : recorded.rotationCheckpoints = db.rotationCheckpoints := by
    rcases recordSeriesMember_cases hcommitted.member with ⟨hsame, -⟩ | ⟨-, hsame, -⟩
    · rw [hsame, hgrow.rotationCheckpoints]
    · rw [hsame]
      exact hgrow.rotationCheckpoints
  rw [hrecorded] at hkept hall
  constructor
  · rintro ⟨row, hrow, hsize, hroot⟩
    rcases mem_authenticatedCheckpoints.1 hrow with hseries | ⟨index, hrotation⟩
    · rcases hcommitted.checkpoints hrep hseries with hold | ⟨-, hmember⟩
      · exact Or.inr (Or.inr ⟨row, mem_authenticatedCheckpoints.2 (Or.inl hold), hsize, hroot⟩)
      · exact Or.inl (hjudged.ordinaryRule.1 hmember)
    · rw [hrotations, hrecorded] at hrotation
      rcases List.mem_append.1 hrotation with hold | hnew
      · exact Or.inr (Or.inr ⟨row, mem_authenticatedCheckpoints.2 (Or.inr ⟨index, hold⟩), hsize, hroot⟩)
      · obtain ⟨index', hindex', -⟩ := List.mem_map.1 hnew
        exact Or.inr (Or.inl ⟨_, hjudged.rotationRule, index', hkept index' hindex'⟩)
  · rintro (hordinary | ⟨anchors, hanchors, index, hindex, hfree⟩ | hheld)
    · refine ⟨cp, mem_authenticatedCheckpoints.2 (Or.inl ?_), rfl, rfl⟩
      have hmember : cp ∈ recorded.checkpoints := by
        rcases recordSeriesMember_cases hcommitted.member with ⟨rfl, hmem⟩ | ⟨-, rfl, -⟩
        · exact hmem (hjudged.ordinaryRule.2 hordinary)
        · exact List.mem_append_right _ (List.mem_singleton_self cp)
      rw [hrotations]
      exact hmember
    · obtain rfl := Except.ok.inj (hjudged.rotationRule.symm.trans hanchors)
      refine ⟨cp, mem_authenticatedCheckpoints.2 (Or.inr ⟨index, ?_⟩), rfl, rfl⟩
      rw [hrotations]
      exact List.mem_append_right _ (List.mem_map.2 ⟨index, hall index hindex hfree, rfl⟩)
    · exact hheld.grow ((CallEffect.admitted hjudge hcommit).represents hrep).2

theorem Recorded.floor {db : Db} {treeSize : Nat} {rootHash rootHash' : String} (h : Recorded db treeSize rootHash)
    (h' : Recorded db treeSize rootHash') (hne : rootHash ≠ rootHash') {view : SeriesView}
    (hview : seriesView crates config db = .ok view) : ∃ f, view.equivocationFloor = some f ∧ f ≤ treeSize := by
  obtain ⟨a, ha, hasize, rfl⟩ := h
  obtain ⟨b, hb, hbsize, rfl⟩ := h'
  have hviewed := seriesView_cases hview
  have hmem : treeSize ∈ view.rootDivergences := by
    rw [hviewed.divergences]
    exact mem_rootDivergences.2 ⟨a, ha, b, hb, hasize, hbsize, hne⟩
  exact hviewed.floor_le hmem

theorem recorded_after {calls later : List Call} {cp : Checkpoint} {raw : Option Bytes} {batch : List PendingPromotion}
    {rotationFor : Option Nat} (hadmitted : Admitted crates config (storeAfter crates config calls) cp raw batch rotationFor)
    (htrace : LeavesTrace crates config (storeAfter crates config calls) cp raw batch rotationFor) :
    Recorded (storeAfter crates config (calls ++ .ingest cp raw batch rotationFor :: later)) cp.treeSize cp.rootHash := by
  obtain ⟨admission, hok⟩ := hadmitted
  have hrep := storeAfter_represents crates config calls
  have hrecorded : Recorded (storeAfter crates config (calls ++ [.ingest cp raw batch rotationFor])) cp.treeSize cp.rootHash := by
    rw [storeAfter_ingest]
    exact (recorded_iff_leavesTrace hrep (Prod.ext rfl hok)).2 htrace
  have hgrow := storeAfter_grows crates config (calls ++ [.ingest cp raw batch rotationFor]) later
  rw [List.append_assoc, List.singleton_append] at hgrow
  exact hrecorded.grow hgrow

/-- **A conflict between admissions that leave a trace is found.** Once a run admitted two checkpoints of
one size with different roots, each leaving a trace, every later view that comes out has a floor at that
size or below. -/
theorem equivocation_found {before between later : List Call} {cp cp' : Checkpoint} {raw raw' : Option Bytes}
    {batch batch' : List PendingPromotion} {rotationFor rotationFor' : Option Nat}
    (hfirst : Admitted crates config (storeAfter crates config before) cp raw batch rotationFor)
    (hfirstTrace : LeavesTrace crates config (storeAfter crates config before) cp raw batch rotationFor)
    (hsecond : Admitted crates config
      (storeAfter crates config (before ++ .ingest cp raw batch rotationFor :: between)) cp' raw' batch' rotationFor')
    (hsecondTrace : LeavesTrace crates config
      (storeAfter crates config (before ++ .ingest cp raw batch rotationFor :: between)) cp' raw' batch' rotationFor')
    (hsize : cp.treeSize = cp'.treeSize) (hroot : cp.rootHash ≠ cp'.rootHash) {view : SeriesView}
    (hview : seriesView crates config (storeAfter crates config
      (before ++ .ingest cp raw batch rotationFor :: between ++ .ingest cp' raw' batch' rotationFor' :: later)) = .ok view) :
    ∃ f, view.equivocationFloor = some f ∧ f ≤ cp.treeSize := by
  have hone : Recorded (storeAfter crates config
      (before ++ .ingest cp raw batch rotationFor :: between ++ .ingest cp' raw' batch' rotationFor' :: later))
      cp.treeSize cp.rootHash := by
    rw [List.append_assoc, List.cons_append]
    exact recorded_after hfirst hfirstTrace
  have hother : Recorded (storeAfter crates config
      (before ++ .ingest cp raw batch rotationFor :: between ++ .ingest cp' raw' batch' rotationFor' :: later))
      cp.treeSize cp'.rootHash := hsize ▸ recorded_after hsecond hsecondTrace
  exact hone.floor hother hroot hview

namespace Symbolic

/-- A checkpoint over the genesis and one entry that is not held. -/
def overTwo (octet : UInt8) (nanos : Nat) : Checkpoint := checkpoint "A" 2 (rootOf [[1], [octet]]) nanos

def firstRoot : List Call := [stage 1, ingest (overTwo 5 5) [pending [[1], [5]] 0]]

/-- Two such checkpoints, of different roots. -/
def twoRoots : List Call := [stage 1, ingest (overTwo 5 5) [pending [[1], [5]] 0], ingest (overTwo 6 6) []]

def twoRootsView : SeriesView :=
  ⟨[⟨overTwo 5 5, .authenticated⟩, ⟨overTwo 6 6, .authenticated⟩], none, some (.equivocation 2), [2], some 2⟩

/-- The rotation of the small log, then an anchor for it over its two entries. -/
def anchored : List Call := rotated ++ [ingest (checkpoint "A" 2 (rootOf [[1], [2]]) 5) []]

/-- A later anchor, over a third entry that is not held. -/
def laterAnchor (octet : UInt8) (nanos : Nat) : Checkpoint := checkpoint "A" 3 (rootOf [[1], [2], [octet]]) nanos

def laterAnchorsView : SeriesView := ⟨[⟨checkpoint "B" 2 (rootOf [[1], [2]]) 5, .seriesUsable⟩], some 2, none, [], none⟩

end Symbolic

theorem equivocation_found_twoRoots : ∃ f, Symbolic.twoRootsView.equivocationFloor = some f ∧ f ≤ 2 := by
  obtain ⟨hfirst, hfirstRule⟩ :
      (ingestCheckpoint (Symbolic.crates Symbolic.documents) Symbolic.config (Symbolic.after [Symbolic.stage 1])
        (Symbolic.overTwo 5 5) none [Symbolic.pending [[1], [5]] 0] none).2 = .ok ⟨true, []⟩ ∧
      ordinaryRule (Symbolic.crates Symbolic.documents) Symbolic.config (Symbolic.after [Symbolic.stage 1])
        (Symbolic.overTwo 5 5) none [Symbolic.pending [[1], [5]] 0] = .ok () := by
    decide +kernel
  obtain ⟨hsecond, hsecondRule⟩ :
      (ingestCheckpoint (Symbolic.crates Symbolic.documents) Symbolic.config (Symbolic.after Symbolic.firstRoot)
        (Symbolic.overTwo 6 6) none [] none).2 = .ok ⟨true, []⟩ ∧
      ordinaryRule (Symbolic.crates Symbolic.documents) Symbolic.config (Symbolic.after Symbolic.firstRoot)
        (Symbolic.overTwo 6 6) none [] = .ok () := by
    decide +kernel
  obtain ⟨hroots, hview⟩ : (Symbolic.overTwo 5 5).rootHash ≠ (Symbolic.overTwo 6 6).rootHash ∧
      seriesView (Symbolic.crates Symbolic.documents) Symbolic.config (Symbolic.after Symbolic.twoRoots) =
        .ok Symbolic.twoRootsView := by
    decide +kernel
  exact equivocation_found ⟨_, hfirst⟩ (Or.inl hfirstRule) ⟨_, hsecond⟩ (Or.inl hsecondRule) rfl hroots hview

/-- Two later anchors of a rotation that holds an earlier one are admitted and leave no trace. -/
theorem superseded_anchors_unseen : ¬ ∀ (before between later : List Call) (cp cp' : Checkpoint)
    (raw raw' : Option Bytes) (batch batch' : List PendingPromotion) (rotationFor rotationFor' : Option Nat)
    (view : SeriesView),
    Admitted (Symbolic.crates Symbolic.documents) Symbolic.config (Symbolic.after before) cp raw batch rotationFor →
    Admitted (Symbolic.crates Symbolic.documents) Symbolic.config
      (Symbolic.after (before ++ .ingest cp raw batch rotationFor :: between)) cp' raw' batch' rotationFor' →
    cp.treeSize = cp'.treeSize → cp.rootHash ≠ cp'.rootHash →
    seriesView (Symbolic.crates Symbolic.documents) Symbolic.config (Symbolic.after
      (before ++ .ingest cp raw batch rotationFor :: between ++ .ingest cp' raw' batch' rotationFor' :: later)) = .ok view →
      ∃ f, view.equivocationFloor = some f ∧ f ≤ cp.treeSize := by
  intro h
  obtain ⟨hfirst, hsecond, hroots, hview⟩ :
      (ingestCheckpoint (Symbolic.crates Symbolic.documents) Symbolic.config (Symbolic.after Symbolic.anchored)
        (Symbolic.laterAnchor 5 6) none [] none).2 = .ok ⟨false, [1]⟩ ∧
      (ingestCheckpoint (Symbolic.crates Symbolic.documents) Symbolic.config
        (Symbolic.after (Symbolic.anchored ++ [Symbolic.ingest (Symbolic.laterAnchor 5 6) []]))
        (Symbolic.laterAnchor 6 6) none [] none).2 = .ok ⟨false, [1]⟩ ∧
      (Symbolic.laterAnchor 5 6).rootHash ≠ (Symbolic.laterAnchor 6 6).rootHash ∧
      seriesView (Symbolic.crates Symbolic.documents) Symbolic.config
        (Symbolic.after (Symbolic.anchored ++ [Symbolic.ingest (Symbolic.laterAnchor 5 6) []] ++
          [Symbolic.ingest (Symbolic.laterAnchor 6 6) []])) = .ok Symbolic.laterAnchorsView := by
    decide +kernel
  obtain ⟨f, hf, -⟩ := h Symbolic.anchored [] [] (Symbolic.laterAnchor 5 6) (Symbolic.laterAnchor 6 6) none none [] []
    none none Symbolic.laterAnchorsView ⟨_, hfirst⟩ ⟨_, hsecond⟩ rfl hroots hview
  cases hf

/-! ### Roots refused for their time -/

/-- Two roots are recorded at one size, at `n` or below. -/
def DivergentUpTo (db : Db) (n : Nat) : Prop :=
  ∃ a ∈ authenticatedCheckpoints db, ∃ b ∈ authenticatedCheckpoints db,
    a.treeSize = b.treeSize ∧ a.treeSize ≤ n ∧ a.rootHash ≠ b.rootHash

theorem DivergentUpTo.grow {db after : Db} {n : Nat} (h : DivergentUpTo db n) (hgrow : Grows db after) :
    DivergentUpTo after n := by
  obtain ⟨a, ha, b, hb, hdivergent⟩ := h
  exact ⟨a, hgrow.authenticated ha, b, hgrow.authenticated hb, hdivergent⟩

theorem Viewed.floor_le_iff {db : Db} {view : SeriesView} (h : Viewed crates config db view) {n : Nat} :
    (∃ f, view.equivocationFloor = some f ∧ f ≤ n) ↔ DivergentUpTo db n := by
  constructor
  · rintro ⟨f, hf, hle⟩
    rw [h.floor, h.divergences] at hf
    obtain ⟨a, ha, b, hb, hasize, hbsize, hne⟩ := mem_rootDivergences.1 (List.min?_mem hf)
    exact ⟨a, ha, b, hb, hasize.trans hbsize.symm, hasize.trans_le hle, hne⟩
  · rintro ⟨a, ha, b, hb, hsize, hle, hne⟩
    have hmem : a.treeSize ∈ view.rootDivergences := by
      rw [h.divergences]
      exact mem_rootDivergences.2 ⟨a, ha, b, hb, rfl, hsize.symm, hne⟩
    obtain ⟨f, hf, hfloor⟩ := h.floor_le hmem
    exact ⟨f, hf, hfloor.trans hle⟩

/-- **A refused root is reported by what was recorded before it.** After a submission refused for the size
and time of a recorded one, all later views have a floor at its size or below if two roots are recorded
there already, and only then, where the mirror has a view at all. -/
theorem refused_root_reported_iff {before : List Call} {cp : Checkpoint} {raw : Option Bytes}
    {batch : List PendingPromotion} {rotationFor : Option Nat}
    (hrefused : (ingestCheckpoint crates config (storeAfter crates config before) cp raw batch rotationFor).2 =
      .error (.seriesMemberConflict cp.treeSize cp.checkpointTime)) :
    (DivergentUpTo (storeAfter crates config before) cp.treeSize → ∀ later view,
      seriesView crates config (storeAfter crates config (before ++ .ingest cp raw batch rotationFor :: later)) = .ok view →
        ∃ f, view.equivocationFloor = some f ∧ f ≤ cp.treeSize) ∧
    ((seriesView crates config (storeAfter crates config before)).isOk = true → (∀ later view,
      seriesView crates config (storeAfter crates config (before ++ .ingest cp raw batch rotationFor :: later)) = .ok view →
        ∃ f, view.equivocationFloor = some f ∧ f ≤ cp.treeSize) →
      DivergentUpTo (storeAfter crates config before) cp.treeSize) := by
  have hsame : storeAfter crates config (before ++ [.ingest cp raw batch rotationFor]) = storeAfter crates config before := by
    rw [storeAfter_ingest]
    exact ingestCheckpoint_eq_error (Prod.ext rfl hrefused)
  constructor
  · intro hdivergent later view hview
    rw [← List.singleton_append, ← List.append_assoc] at hview
    refine (seriesView_cases hview).floor_le_iff.2 (hdivergent.grow ?_)
    have hgrow := storeAfter_grows crates config (before ++ [.ingest cp raw batch rotationFor]) later
    rw [hsame] at hgrow
    exact hgrow
  · intro hok hreported
    cases hview : seriesView crates config (storeAfter crates config before) with
    | error e =>
      rw [hview] at hok
      cases hok
    | ok view =>
      rw [← hsame] at hview
      exact hsame ▸ (seriesView_cases hview).floor_le_iff.1 (hreported [] view hview)

theorem refused_root_reported_iff_twoRoots : ∃ f, Symbolic.twoRootsView.equivocationFloor = some f ∧ f ≤ 2 := by
  obtain ⟨hrefused, hfirst, hsecond, hroots, hview⟩ :
      (ingestCheckpoint (Symbolic.crates Symbolic.documents) Symbolic.config (Symbolic.after Symbolic.twoRoots)
        (Symbolic.overTwo 7 5) none [] none).2 =
          .error (.seriesMemberConflict 2 (Symbolic.overTwo 7 5).checkpointTime) ∧
      Symbolic.overTwo 5 5 ∈ authenticatedCheckpoints (Symbolic.after Symbolic.twoRoots) ∧
      Symbolic.overTwo 6 6 ∈ authenticatedCheckpoints (Symbolic.after Symbolic.twoRoots) ∧
      (Symbolic.overTwo 5 5).rootHash ≠ (Symbolic.overTwo 6 6).rootHash ∧
      seriesView (Symbolic.crates Symbolic.documents) Symbolic.config
        (Symbolic.after (Symbolic.twoRoots ++ [Symbolic.ingest (Symbolic.overTwo 7 5) []])) = .ok Symbolic.twoRootsView := by
    decide +kernel
  have hdivergent : DivergentUpTo (Symbolic.after Symbolic.twoRoots) 2 :=
    ⟨Symbolic.overTwo 5 5, hfirst, Symbolic.overTwo 6 6, hsecond, rfl, le_rfl, hroots⟩
  exact (refused_root_reported_iff hrefused).1 hdivergent [] Symbolic.twoRootsView hview

/-- A second root at the size and time of the first is refused, and no later view tells of it. -/
theorem refused_root_unseen : ¬ ∀ (before later : List Call) (cp row : Checkpoint) (raw : Option Bytes)
    (batch : List PendingPromotion) (rotationFor : Option Nat) (view : SeriesView),
    (ingestCheckpoint (Symbolic.crates Symbolic.documents) Symbolic.config (Symbolic.after before) cp raw batch rotationFor).2 =
      .error (.seriesMemberConflict cp.treeSize cp.checkpointTime) →
    ordinaryRule (Symbolic.crates Symbolic.documents) Symbolic.config (Symbolic.after before) cp raw batch = .ok () →
    row ∈ authenticatedCheckpoints (Symbolic.after before) → row.treeSize = cp.treeSize →
    row.checkpointTime = cp.checkpointTime → row.rootHash ≠ cp.rootHash →
    seriesView (Symbolic.crates Symbolic.documents) Symbolic.config
      (Symbolic.after (before ++ .ingest cp raw batch rotationFor :: later)) = .ok view →
      ∃ f, view.equivocationFloor = some f ∧ f ≤ cp.treeSize := by
  intro h
  obtain ⟨hrefused, hordinary, hrow, hroots, hview⟩ :
      (ingestCheckpoint (Symbolic.crates Symbolic.documents) Symbolic.config (Symbolic.after Symbolic.firstRoot)
        (Symbolic.overTwo 6 5) none [] none).2 =
          .error (.seriesMemberConflict 2 (Symbolic.overTwo 6 5).checkpointTime) ∧
      ordinaryRule (Symbolic.crates Symbolic.documents) Symbolic.config (Symbolic.after Symbolic.firstRoot)
        (Symbolic.overTwo 6 5) none [] = .ok () ∧
      Symbolic.overTwo 5 5 ∈ authenticatedCheckpoints (Symbolic.after Symbolic.firstRoot) ∧
      (Symbolic.overTwo 5 5).rootHash ≠ (Symbolic.overTwo 6 5).rootHash ∧
      seriesView (Symbolic.crates Symbolic.documents) Symbolic.config
        (Symbolic.after (Symbolic.firstRoot ++ [Symbolic.ingest (Symbolic.overTwo 6 5) []])) =
          .ok ⟨[⟨Symbolic.overTwo 5 5, .authenticated⟩], none, none, [], none⟩ := by
    decide +kernel
  obtain ⟨f, hf, -⟩ := h Symbolic.firstRoot [] (Symbolic.overTwo 6 5) (Symbolic.overTwo 5 5) none [] none _ hrefused hordinary
    hrow rfl rfl hroots hview
  cases hf

end AhlMirror
