import AhlMirror.Model.Locked
import AhlMirror.Series.Usable
import AhlMirror.Store.History
import AhlMirror.Store.Reads

/-!
# The series view across locks

A view is read under several locks, so transactions of other requests may come in between its reads. Each
of its parts is then that of some state of the call, though not all of the same one. What carries over is
that labels are never lost and prefixes never change: a member's check and the resolution of a prefix give
later what they gave once the prefix was held.
-/

namespace AhlMirror

open AhlMirror.Core.Reading

variable {H K : Type} [HashOctets H] {crates : Crates H K} {config : Config K}

/-! ### On one store -/

namespace Locked

theorem extendFrontier_eval (db : Db) (floor : Option Nat) :
    ∀ (rest : List Checkpoint) (frontier : Nat) (prev : Checkpoint)
    (prevTime : Nat), (extendFrontier crates config floor frontier prev prevTime rest).eval db =
      AhlMirror.extendFrontier crates config db floor frontier prev prevTime rest
  | [], _, _, _ => rfl
  | cp :: rest, frontier, prev, prevTime => by
    rw [extendFrontier, AhlMirror.extendFrontier]
    split_ifs with hfloor
    · rfl
    · rw [eval_bind, eval_lift]
      apply bind_congr
      intro cpTime
      cases checkedSub cpTime prevTime with
      | none => rfl
      | some delta =>
        dsimp only
        rw [eval_bind]
        apply bind_congr
        rintro (_ | prevGovernance)
        · rfl
        · dsimp only
          split_ifs
          · rfl
          · exact extendFrontier_eval db floor rest _ _ _

theorem computeGapFreeFrontier_eval (db : Db) (usable : List Checkpoint) (floor : Option Nat) :
    (computeGapFreeFrontier crates config usable floor).eval db =
      AhlMirror.computeGapFreeFrontier crates config db usable floor := by
  unfold computeGapFreeFrontier AhlMirror.computeGapFreeFrontier
  cases usable with
  | nil => rfl
  | cons first rest =>
    dsimp only
    split_ifs with hfloor
    · rfl
    · rw [eval_bind]
      apply bind_congr
      rintro (_ | firstGovernance)
      · rfl
      · dsimp only
        rw [eval_bind, eval_lift]
        apply bind_congr
        intro genesisTreeSize
        rw [eval_bind]
        apply bind_congr
        rintro (_ | genesisGovernance)
        · rfl
        · dsimp only
          rw [eval_bind, eval_lift]
          apply bind_congr
          intro firstTime
          split_ifs
          · exact extendFrontier_eval db floor rest _ _ _
          · rfl

variable [DecidableEq H]

theorem judgeMembers_eval (db : Db) : ∀ (rows : List Checkpoint) (lastUsable : Option Checkpoint),
    (judgeMembers crates lastUsable rows).eval db = AhlMirror.judgeMembers crates db lastUsable rows
  | [], _ => rfl
  | cp :: rest, lastUsable => by
    rw [judgeMembers, AhlMirror.judgeMembers, eval_bind]
    apply bind_congr
    intro usable
    rw [eval_bind, judgeMembers_eval db rest]
    rfl

theorem seriesView_eval (db : Db) : (seriesView crates config).eval db = AhlMirror.seriesView crates config db := by
  unfold seriesView AhlMirror.seriesView
  rw [eval_bind, eval_query]
  simp only [ok_bind]
  rw [eval_bind, judgeMembers_eval]
  apply bind_congr
  intro members
  rw [eval_bind, eval_query]
  simp only [ok_bind]
  rw [eval_bind, computeGapFreeFrontier_eval]
  rfl

end Locked

/-! ### Transactions -/

variable (crates) in
/-- What every transaction keeps. -/
structure Sound (db : Db) : Prop where
  represents : Represents crates db
  positive : ∀ cp ∈ db.checkpoints, 1 ≤ cp.treeSize

variable (crates) in
/-- What a later state owes to a sound one before it. -/
def Advances (db after : Db) : Prop := Sound crates db → Sound crates after ∧ Grows db after

theorem Advances.refl (db : Db) : Advances crates db db := fun h => ⟨h, Grows.refl db⟩

theorem Advances.trans {a b c : Db} (h : Advances crates a b) (h' : Advances crates b c) : Advances crates a c := by
  intro ha
  obtain ⟨hb, hgrow⟩ := h ha
  obtain ⟨hc, hgrow'⟩ := h' hb
  exact ⟨hc, hgrow.trans hgrow'⟩

theorem Advances.later {db after : Db} (h : Advances crates db after) (hdb : Sound crates db) : Later crates db after :=
  ⟨(h hdb).2, hdb.represents, (h hdb).1.represents⟩

variable [DecidableEq H]

theorem Transaction.advances {db after : Db} (h : Transaction crates config db after) : Advances crates db after := by
  rintro ⟨hrep, hpositive⟩
  cases h with
  | staged hstage =>
    obtain ⟨-, rfl | rfl⟩ := stageEntry_cases hstage
    · exact ⟨⟨hrep, hpositive⟩, Grows.refl _⟩
    · exact ⟨⟨hrep.congr rfl rfl, hpositive⟩, List.prefix_append _ _, List.prefix_rfl, List.prefix_rfl, List.prefix_rfl⟩
  | promoted hpromote =>
    obtain ⟨hrep', hgrow⟩ := promoteEntryIn_grow hrep hpromote
    exact ⟨⟨hrep', hgrow.checkpoints ▸ hpositive⟩, hgrow.grows⟩
  | admitted hjudge hcommit =>
    obtain ⟨-, mid, recorded, hcommitted⟩ := commitAdmission_cases hcommit
    obtain ⟨visible, list, active, hjudged⟩ := judgeCheckpoint_cases hjudge
    obtain ⟨hrep', hgrow⟩ := hcommitted.represents hrep
    refine ⟨⟨hrep', fun row hrow => ?_⟩, hgrow⟩
    rcases hcommitted.checkpoints hrep hrow with hold | ⟨rfl, -⟩
    · exact hpositive row hold
    · exact hjudged.positive

theorem Served.transaction {db after : Db} {call : Call} (h : Served crates config db call after) :
    Transaction crates config db after := by
  cases h with
  | staged hstage => exact .staged hstage
  | admitted hjudge hcommit => exact .admitted hjudge hcommit
  | promoted _ hpromote => exact .promoted hpromote

theorem Reachable.written {db : Db} (h : Reachable crates config db) : Written crates config db := by
  refine Core.Machine.Reachable.invariant _ h .refl fun db call hdb => ?_
  show Written crates config (serve crates config db call).1
  rcases serve_cases crates config db call with ⟨-, hsame⟩ | ⟨-, hserved⟩
  · rw [hsame]
    exact hdb
  · exact hdb.tail hserved.transaction

theorem Written.sound {db : Db} (h : Written crates config db) : Sound crates db := by
  induction h with
  | refl => exact ⟨Represents.empty, by simp [Db.empty]⟩
  | tail _ hstep ih => exact (hstep.advances ih).1

/-! ### What writes do not disturb -/

section steady
variable {R : Db → Db → Prop} {db : Db}

variable (crates config) in
/-- Governance resolves for the prefix as before, on every later store. -/
def ResolvesAlike (R : Db → Db → Prop) (db : Db) (treeSize : Nat) : Prop :=
  ∀ after, R db after → resolveGovernanceFor crates config after treeSize = resolveGovernanceFor crates config db treeSize

omit [DecidableEq H] in
theorem Sound.resolvesAlike (hdb : Sound crates db) {treeSize : Nat} (hheld : treeSize ≤ db.entries.length) :
    ResolvesAlike crates config (Advances crates) db treeSize := by
  intro after hafter
  unfold resolveGovernanceFor
  rw [(hafter.later hdb).getEntriesRangeRaw 0 hheld]

namespace Locked

omit [DecidableEq H] in
theorem extendFrontier_steady (floor : Option Nat) : ∀ (rest : List Checkpoint) (frontier : Nat) (prev : Checkpoint)
    (prevTime : Nat), (∀ cp ∈ prev :: rest, ResolvesAlike crates config R db cp.treeSize) →
      (extendFrontier crates config floor frontier prev prevTime rest).Steady R db
  | [], _, _, _, _ => Steady.done _
  | cp :: rest, frontier, prev, prevTime, hsame => by
    rw [extendFrontier]
    split_ifs
    · exact Steady.done _
    · apply (Steady.done _).bind
      intro cpTime _
      cases checkedSub cpTime prevTime with
      | none => exact Steady.done _
      | some delta =>
        apply (Steady.query (hsame prev List.mem_cons_self)).bind
        rintro (_ | prevGovernance) -
        · exact Steady.done _
        · dsimp only
          split_ifs
          · exact Steady.done _
          · exact extendFrontier_steady floor rest _ _ _ fun later hlater => hsame later (List.mem_cons_of_mem _ hlater)

omit [DecidableEq H] in
/-- The frontier is computed later as it is now, where the prefixes of the members and the one through the
genesis resolve alike. -/
theorem computeGapFreeFrontier_steady {usable : List Checkpoint} (floor : Option Nat)
    (hsame : ∀ cp ∈ usable, ResolvesAlike crates config R db cp.treeSize)
    (hgenesis : ∀ cp ∈ usable, ∀ governance,
      AhlMirror.resolveGovernanceFor crates config db cp.treeSize = .ok (some governance) →
        ResolvesAlike crates config R db (governance.genesisEntryIndex + 1)) :
    (computeGapFreeFrontier crates config usable floor).Steady R db := by
  unfold computeGapFreeFrontier
  cases usable with
  | nil => exact Steady.done _
  | cons first rest =>
    dsimp only
    split_ifs
    · exact Steady.done _
    · apply (Steady.query (hsame first List.mem_cons_self)).bind
      rintro (_ | firstGovernance) hgoverned
      · exact Steady.done _
      · apply (Steady.done _).bind
        intro genesisTreeSize hsize
        have hindex := hgenesis first List.mem_cons_self firstGovernance hgoverned
        obtain ⟨-, rfl⟩ := checkedAdd_eq_some.1 (okOr_eq_ok.1 hsize)
        apply (Steady.query hindex).bind
        rintro (_ | genesisGovernance) -
        · exact Steady.done _
        · apply (Steady.done _).bind
          intro firstTime _
          split_ifs
          · exact extendFrontier_steady floor rest _ _ _ hsame
          · exact Steady.done _

theorem seriesView_steady (db : Db) : (seriesView crates config).Steady SameTables db := by
  have hjudge : ∀ (rows : List Checkpoint) (lastUsable : Option Checkpoint),
      (judgeMembers crates lastUsable rows).Steady SameTables db := by
    intro rows
    induction rows with
    | nil => exact fun _ => Steady.done _
    | cons cp rest ih =>
      intro lastUsable
      rw [judgeMembers]
      apply Steady.bind
      · exact Steady.query fun other hsame => by rw [hsame.toSameTree.nodes.judgeMember]
      · exact fun usable _ => (ih _).bind fun members _ => Steady.done _
  have halike : ∀ treeSize, ResolvesAlike crates config SameTables db treeSize := by
    intro treeSize other hsame
    rw [hsame.toSameTree.nodes.resolveGovernanceFor crates config]
  unfold seriesView
  apply Steady.bind
  · apply Steady.query
    intro other hsame
    unfold allCheckpoints
    rw [hsame.checkpoints]
  · intro all _
    apply (hjudge all none).bind
    intro members _
    apply Steady.bind
    · apply Steady.query
      intro other hsame
      unfold allRotationCheckpoints
      rw [hsame.rotationCheckpoints]
    · intro rotations _
      apply (computeGapFreeFrontier_steady _ (fun cp _ => halike _) fun cp _ governance _ => halike _).bind
      exact fun result _ => Steady.done _

end Locked

end steady

/-! ### Labels -/

omit [HashOctets H] [DecidableEq H] in
theorem ReportedCheckpoint.ext_usable {m m' : ReportedCheckpoint} (hsame : m.checkpoint = m'.checkpoint)
    (husable : m.state = .seriesUsable ↔ m'.state = .seriesUsable) : m = m' := by
  obtain ⟨cp, state⟩ := m
  obtain ⟨cp', state'⟩ := m'
  obtain rfl : cp = cp' := hsame
  cases state <;> cases state' <;> simp_all

variable (crates) in
/-- The member is counted, and its prefix is held with its root. -/
def Counted (db : Db) (cp : Checkpoint) : Prop := cp.treeSize < i64Bound ∧ UsableRow crates db cp

variable (crates) in
/-- The labels a store gives its own checkpoints. -/
def LabelledAs (db : Db) (members : List ReportedCheckpoint) : Prop :=
  judgeMembers crates db none (allCheckpoints db) = .ok members

omit [HashOctets H] [DecidableEq H] in
theorem Counted.grow {db after : Db} {cp : Checkpoint} (h : Counted crates db cp) (hgrow : Grows db after) :
    Counted crates after cp := ⟨h.1, h.2.grow hgrow⟩

section labels
variable (hprover : ViewLaws crates) (hconsistency : ConsistencyLaws crates)
include hprover hconsistency

theorem Sound.labelled {db : Db} (hdb : Sound crates db) : ∃ members, LabelledAs crates db members ∧
    ∀ m, m ∈ members ↔ m.checkpoint ∈ db.checkpoints ∧ (m.state = .seriesUsable ↔ Counted crates db m.checkpoint) := by
  obtain ⟨members, hmembers, hmap, hstates⟩ := judgeMembers_spec hprover hconsistency hdb.represents
    (allCheckpoints_sorted db) (fun cp hcp => hdb.positive cp (mem_allCheckpoints.1 hcp))
    (fun cp _ pred (hpred : pred ∈ none) => by simp at hpred)
  refine ⟨members, hmembers, fun m => ⟨fun hm => ⟨?_, hstates m hm⟩, ?_⟩⟩
  · rw [← mem_allCheckpoints, ← hmap]
    exact List.mem_map_of_mem hm
  · rintro ⟨hrow, hstate⟩
    rw [← mem_allCheckpoints, ← hmap] at hrow
    obtain ⟨m', hm', hsame⟩ := List.mem_map.1 hrow
    have hstate' := hstates m' hm'
    rw [hsame] at hstate'
    rw [← ReportedCheckpoint.ext_usable hsame (hstate'.trans hstate.symm)]
    exact hm'

theorem Locked.judgeMembers_across :
    ∀ {rows : List Checkpoint} {lastUsable : Option Checkpoint} {db : Db} {states : List Db}
    {members : List ReportedCheckpoint}, Sound crates db → rows.Pairwise seriesLE → (∀ cp ∈ rows, 1 ≤ cp.treeSize) →
    (∀ cp ∈ rows, ∀ pred ∈ lastUsable, Predecessor crates db cp.treeSize pred) →
    Across (Advances crates) (Locked.judgeMembers crates lastUsable rows) db states (.ok members) →
      members.map (·.checkpoint) = rows ∧
        ∀ m ∈ members, ∃ u ∈ db :: states, m.state = .seriesUsable ↔ Counted crates u m.checkpoint
  | [], _, _, _, members, _, _, _, _, h => by
    obtain rfl := Except.ok.inj h.done_eq
    exact ⟨rfl, by simp⟩
  | cp :: rest, lastUsable, db, states, members, hdb, hsorted, hpositive, hlast, h => by
    rw [Locked.judgeMembers] at h
    obtain ⟨usable, before, after, rfl, hcheck, h⟩ := h.bind_ok
    obtain ⟨later, middle, final, rfl, hlater, h⟩ := h.bind_ok
    obtain rfl := Except.ok.inj h.done_eq
    obtain ⟨u, hu, husable⟩ := hcheck.query_ok
    obtain ⟨hfirst, hsorted⟩ := List.pairwise_cons.1 hsorted
    -- the state the member was checked in, and the one the next member begins in
    obtain ⟨hto, hfrom⟩ := hcheck.related Advances.refl Advances.trans u hu
    obtain ⟨hsound, hgrow⟩ := hto hdb
    obtain ⟨hsound', hgrow'⟩ := hfrom hsound
    have hlast' : ∀ next ∈ cp :: rest, ∀ pred ∈ lastUsable, Predecessor crates u next.treeSize pred :=
      fun next hnext pred hpred => (hlast next hnext pred hpred).grow hgrow
    obtain ⟨judged, hjudged, hiff⟩ :=
      judgeMember_spec hprover hconsistency hsound.represents (hpositive cp List.mem_cons_self) (hlast' cp List.mem_cons_self)
    obtain rfl := Except.ok.inj (hjudged.symm.trans husable)
    have hnext := Predecessor.next hlast' hfirst (hpositive cp List.mem_cons_self) fun hcp => (hiff.1 hcp).2
    obtain ⟨hmap, hstates⟩ := judgeMembers_across hsound' hsorted
      (fun next hnext => hpositive next (List.mem_cons_of_mem _ hnext))
      (fun next hmem pred hpred => (hnext next hmem pred hpred).grow hgrow') hlater
    refine ⟨by rw [List.map_cons, hmap], fun m hm => ?_⟩
    rcases List.mem_cons.1 hm with rfl | hm
    · exact ⟨u, mem_states_of_first hu, ite_usable_eq.trans hiff⟩
    · obtain ⟨u', hu', hstate⟩ := hstates m hm
      exact ⟨u', mem_states_of_second (mem_states_of_first hu'), hstate⟩

end labels

/-! ### The view -/

/-- The checkpoints of one state and the rotation rows of another, in series order. -/
def heldTo (listed rotated : Db) : List Checkpoint :=
  (allCheckpoints listed ++ (allRotationCheckpoints rotated).map (·.2)).insertionSort seriesLE

/-- The reads of a view that came out: the list in the state `u`, the checks from `s` on, the rotation rows in
`v` and the frontier from `t` on. -/
theorem Locked.seriesView_across {db : Db} {states : List Db} {view : SeriesView}
    (h : Across (Advances crates) (Locked.seriesView crates config) db states (.ok view)) :
    ∃ u s judged v t final, u ∈ db :: states ∧
      (∀ w ∈ s :: judged, w ∈ db :: states ∧ Advances crates u w ∧ Advances crates w t) ∧
      Across (Advances crates) (Locked.judgeMembers crates none (allCheckpoints u)) s judged (.ok view.members) ∧
      v ∈ db :: states ∧ view.rootDivergences = findRootDivergences (heldTo u v) ∧
      view.equivocationFloor = view.rootDivergences.min? ∧ t ∈ db :: states ∧
      Across (Advances crates) (Locked.computeGapFreeFrontier crates config (usableCheckpoints view.members)
        view.equivocationFloor) t final (.ok ⟨view.gapFreeFrontier, view.frontierStop⟩) := by
  unfold Locked.seriesView at h
  obtain ⟨all, listed, _, rfl, hall, h⟩ := h.bind_ok
  obtain ⟨members, judged, _, rfl, hmembers, h⟩ := h.bind_ok
  obtain ⟨rotations, rotated, _, rfl, hrotations, h⟩ := h.bind_ok
  obtain ⟨result, final, _, rfl, hfrontier, h⟩ := h.bind_ok
  obtain rfl := Except.ok.inj h.done_eq
  obtain ⟨u, hu, hlist⟩ := hall.query_ok
  obtain ⟨v, hv, hrows⟩ := hrotations.query_ok
  obtain rfl := Except.ok.inj hlist
  obtain rfl := Except.ok.inj hrows
  have hrotated := (hrotations.related Advances.refl Advances.trans _ List.mem_cons_self).2
  refine ⟨u, listed.getLastD db, judged, v, rotated.getLastD (judged.getLastD (listed.getLastD db)), final,
    mem_states_of_first hu, fun w hw => ⟨mem_states_of_second (mem_states_of_first hw), ?_, ?_⟩, hmembers,
    ?_, rfl, rfl, ?_, hfrontier⟩
  · exact (hall.related Advances.refl Advances.trans u hu).2.trans (hmembers.related Advances.refl Advances.trans w hw).1
  · exact (hmembers.related Advances.refl Advances.trans w hw).2.trans hrotated
  · apply mem_states_of_second
    apply mem_states_of_second
    exact mem_states_of_first hv
  · apply mem_states_of_second
    apply mem_states_of_second
    exact mem_states_of_second List.mem_cons_self

omit [HashOctets H] [DecidableEq H] in
theorem findRootDivergences_mono {listed rotated later latest : Db} (h : Grows listed later)
    (h' : Grows rotated latest) :
    findRootDivergences (heldTo listed rotated) ⊆ findRootDivergences (heldTo later latest) := by
  have hrows : allCheckpoints listed ++ (allRotationCheckpoints rotated).map (·.2) ⊆
      allCheckpoints later ++ (allRotationCheckpoints latest).map (·.2) := by
    intro cp hcp
    rw [List.mem_append] at hcp ⊢
    refine hcp.imp (fun hrow => ?_) fun hrow => ?_
    · exact mem_allCheckpoints.2 (h.checkpoints.subset (mem_allCheckpoints.1 hrow))
    · obtain ⟨row, hmem, rfl⟩ := List.mem_map.1 hrow
      refine List.mem_map_of_mem ?_
      unfold allRotationCheckpoints at hmem ⊢
      rw [List.mem_insertionSort] at hmem ⊢
      exact h'.rotationCheckpoints.subset hmem
  intro n hn
  unfold heldTo at hn ⊢
  rw [mem_findRootDivergences] at hn ⊢
  obtain ⟨a, ha, b, hb, hdiverge⟩ := hn
  exact ⟨a, hrows ha, b, hrows hb, hdiverge⟩

/-- What the reads of a view saw: the list in `u`, each member in a state of its own, the rotation rows in `v`,
and the prefixes from `t` on. -/
structure Seen (crates : Crates H K) (config : Config K) (db : Db) (states : List Db) (view : SeriesView) (u v t : Db) :
    Prop where
  sound : ∀ w ∈ db :: states, Sound crates w ∧ Grows db w ∧ Grows w (states.getLastD db)
  listed : u ∈ db :: states
  rotated : v ∈ db :: states
  resolved : t ∈ db :: states
  recorded : view.members.map (·.checkpoint) = allCheckpoints u
  judged : ∀ m ∈ view.members, ∃ w ∈ db :: states, Grows u w ∧ Grows w t ∧
    (m.state = .seriesUsable ↔ Counted crates w m.checkpoint)
  divergences : view.rootDivergences = findRootDivergences (heldTo u v)
  floor : view.equivocationFloor = view.rootDivergences.min?
  frontier : ∃ final, Across (Advances crates) (Locked.computeGapFreeFrontier crates config
    (usableCheckpoints view.members) view.equivocationFloor) t final (.ok ⟨view.gapFreeFrontier, view.frontierStop⟩)

theorem Sound.seen (hprover : ViewLaws crates) (hconsistency : ConsistencyLaws crates)
    {db : Db} (hdb : Sound crates db) {states : List Db} {view : SeriesView}
    (h : Across (Advances crates) (Locked.seriesView crates config) db states (.ok view)) :
    ∃ u v t, Seen crates config db states view u v t := by
  have hsound : ∀ w ∈ db :: states, Sound crates w ∧ Grows db w ∧ Grows w (states.getLastD db) := by
    intro w hw
    obtain ⟨hto, hfrom⟩ := h.related Advances.refl Advances.trans w hw
    obtain ⟨hw, hgrow⟩ := hto hdb
    exact ⟨hw, hgrow, (hfrom hw).2⟩
  obtain ⟨u, s, judged, v, t, final, hu, hjudged, hmembers, hv, hdivergences, hfloor, ht, hfrontier⟩ :=
    Locked.seriesView_across h
  have husound := (hsound u hu).1
  obtain ⟨hmap, hlabels⟩ := Locked.judgeMembers_across hprover hconsistency
    ((hjudged s List.mem_cons_self).2.1 husound).1 (allCheckpoints_sorted u)
    (fun cp hcp => husound.positive cp (mem_allCheckpoints.1 hcp))
    (fun cp _ pred (hpred : pred ∈ none) => by simp at hpred)
    hmembers
  refine ⟨u, v, t, hsound, hu, hv, ht, hmap, fun m hm => ?_, hdivergences, hfloor, final, hfrontier⟩
  obtain ⟨w, hw, hiff⟩ := hlabels m hm
  obtain ⟨hmem, huw, hwt⟩ := hjudged w hw
  exact ⟨w, hmem, (huw husound).2, (hwt (hsound w hmem).1).2, hiff⟩

namespace Seen
variable {db u v t : Db} {states : List Db} {view : SeriesView} (h : Seen crates config db states view u v t)
include h

omit [DecidableEq H] in
theorem row {m : ReportedCheckpoint} (hm : m ∈ view.members) : m.checkpoint ∈ u.checkpoints := by
  rw [← mem_allCheckpoints, ← h.recorded]
  exact List.mem_map_of_mem hm

omit [DecidableEq H] in
theorem counted {m : ReportedCheckpoint} (hm : m ∈ view.members) (hstate : m.state = .seriesUsable) :
    Counted crates t m.checkpoint := by
  obtain ⟨w, -, -, hwt, hiff⟩ := h.judged m hm
  exact (hiff.1 hstate).grow hwt

omit [DecidableEq H] in
theorem counted_end {m : ReportedCheckpoint} (hm : m ∈ view.members) (hstate : m.state = .seriesUsable) :
    m.checkpoint ∈ (states.getLastD db).checkpoints ∧ Counted crates (states.getLastD db) m.checkpoint :=
  ⟨(h.sound u h.listed).2.2.checkpoints.subset (h.row hm), (h.counted hm hstate).grow (h.sound t h.resolved).2.2⟩

omit [DecidableEq H] in
theorem reported {cp : Checkpoint} (hrow : cp ∈ db.checkpoints) (hcounted : Counted crates db cp) :
    ⟨cp, .seriesUsable⟩ ∈ view.members := by
  have hlisted := mem_allCheckpoints.2 ((h.sound u h.listed).2.1.checkpoints.subset hrow)
  rw [← h.recorded] at hlisted
  obtain ⟨m, hm, rfl⟩ := List.mem_map.1 hlisted
  obtain ⟨w, hw, -, -, hiff⟩ := h.judged m hm
  have hstate := hiff.2 (hcounted.grow (h.sound w hw).2.1)
  obtain ⟨cp, state⟩ := m
  obtain rfl : state = .seriesUsable := hstate
  exact hm

omit [DecidableEq H] in
theorem divergences_start : findRootDivergences (authenticatedCheckpoints db) ⊆ view.rootDivergences := by
  rw [h.divergences]
  exact findRootDivergences_mono (h.sound u h.listed).2.1 (h.sound v h.rotated).2.1

omit [DecidableEq H] in
theorem divergences_end : view.rootDivergences ⊆ findRootDivergences (authenticatedCheckpoints (states.getLastD db)) := by
  rw [h.divergences]
  exact findRootDivergences_mono (h.sound u h.listed).2.2 (h.sound v h.rotated).2.2

omit [DecidableEq H] in
theorem frontier_end : computeGapFreeFrontier crates config (states.getLastD db) (usableCheckpoints view.members)
    view.equivocationFloor = .ok ⟨view.gapFreeFrontier, view.frontierStop⟩ := by
  obtain ⟨final, hfrontier⟩ := h.frontier
  obtain ⟨htsound, -, hgrow⟩ := h.sound t h.resolved
  have hlast : states.getLastD db ∈ db :: states := List.getLastD_mem_cons
  have hadvances : Advances crates t (states.getLastD db) := fun _ => ⟨(h.sound _ hlast).1, hgrow⟩
  have hheld : ∀ cp ∈ usableCheckpoints view.members, cp.treeSize < i64Bound ∧ cp.treeSize ≤ t.entries.length := by
    intro cp hcp
    obtain ⟨hbound, husable⟩ := h.counted (mem_usableCheckpoints.1 hcp) rfl
    exact ⟨hbound, husable.held⟩
  -- every prefix governance is resolved from is held in `t`
  have hsteady : (Locked.computeGapFreeFrontier crates config (usableCheckpoints view.members)
      view.equivocationFloor).Steady (Advances crates) t := by
    refine Locked.computeGapFreeFrontier_steady _ (fun cp hcp => htsound.resolvesAlike (hheld cp hcp).2)
      fun cp hcp governance hgoverned => htsound.resolvesAlike ?_
    obtain ⟨hbound, hle⟩ := hheld cp hcp
    obtain ⟨-, -, hgenesis, -⟩ := (resolveGovernanceFor_some htsound.represents hbound hgoverned).genesis
    omega
  have hresult := hfrontier.eq_eval hsteady fun w hw => (hfrontier.related Advances.refl Advances.trans w hw).1
  rw [← Locked.computeGapFreeFrontier_eval, hsteady.eval_eq hadvances, hresult]

omit [DecidableEq H] in
theorem bound {index : Nat} {cp : Checkpoint} (hbound : itub view index = some cp) :
    ⟨cp, .seriesUsable⟩ ∈ view.members ∧ index < cp.treeSize ∧ ∀ floor ∈ view.equivocationFloor, cp.treeSize < floor := by
  obtain ⟨husable, hcovered⟩ := itub_cases h.frontier_end hbound
  exact ⟨mem_usableCheckpoints.1 husable, hcovered⟩

omit [DecidableEq H] in
theorem bound_below {index : Nat} {cp : Checkpoint} (hbound : itub view index = some cp) :
    ∀ floor ∈ (findRootDivergences (authenticatedCheckpoints db)).min?, cp.treeSize < floor := by
  intro floor hfloor
  have hmem := h.divergences_start (List.min?_eq_some_iff.1 hfloor).1
  cases hleast : view.rootDivergences.min? with
  | none => simp [List.min?_eq_none_iff.1 hleast] at hmem
  | some least =>
    have hle := (List.min?_eq_some_iff.1 hleast).2 floor hmem
    exact ((h.bound hbound).2.2 least (h.floor.trans hleast)).trans_le hle

end Seen

/-- What a view is that was read across the states of a call. -/
structure ReadAcross (crates : Crates H K) (config : Config K) (db : Db) (states : List Db) (view : SeriesView) :
    Prop where
  /-- The members are the checkpoints recorded when the list was read. -/
  recorded : ∃ u ∈ db :: states, view.members.map (·.checkpoint) = allCheckpoints u
  /-- Each carries the label it has in some state of the call. -/
  label : ∀ m ∈ view.members, ∃ u ∈ db :: states, ∃ members, LabelledAs crates u members ∧ m ∈ members
  /-- What was usable at the beginning is reported so. -/
  atStart : ∃ members, LabelledAs crates db members ∧ ∀ m ∈ members, m.state = .seriesUsable → m ∈ view.members
  /-- What is reported usable is so at the end. -/
  atEnd : ∃ members, LabelledAs crates (states.getLastD db) members ∧
    ∀ m ∈ view.members, m.state = .seriesUsable → m ∈ members
  /-- The divergences lie between those of the beginning and those of the end. -/
  divergences : findRootDivergences (authenticatedCheckpoints db) ⊆ view.rootDivergences ∧
    view.rootDivergences ⊆ findRootDivergences (authenticatedCheckpoints (states.getLastD db))
  floor : view.equivocationFloor = view.rootDivergences.min?
  /-- The frontier is the one the store at the end computes from the members and the floor reported. -/
  frontier : computeGapFreeFrontier crates config (states.getLastD db) (usableCheckpoints view.members)
    view.equivocationFloor = .ok ⟨view.gapFreeFrontier, view.frontierStop⟩
  /-- A bound covers its index, is usable at the end and lies below the floor of the beginning. -/
  bound : ∀ index cp, itub view index = some cp → index < cp.treeSize ∧ cp ∈ (states.getLastD db).checkpoints ∧
    UsableRow crates (states.getLastD db) cp ∧
    ∀ floor ∈ (findRootDivergences (authenticatedCheckpoints db)).min?, cp.treeSize < floor
  /-- Where no entry, node or recorded checkpoint changes, it is the view of the one store. -/
  undisturbed : (∀ u ∈ states, SameTables db u) → seriesView crates config db = .ok view

/-- **A view is consistent with the states of its call, in each of its parts.** Whatever transactions come in
between its reads: the members are those recorded when the list was read, each with the label of some state
of the call, usable where it was at the beginning and only where it is at the end; the divergences lie
between those of the two; the frontier and every bound are those of the end, for the members and the floor
reported; and where nothing that a view reads changes, it is the view of the one store. -/
theorem seriesView_read_across (hprover : ViewLaws crates)
    (hconsistency : ConsistencyLaws crates) {db : Db} (hdb : Written crates config db) {states : List Db}
    {view : SeriesView} (h : Across (Transaction crates config) (Locked.seriesView crates config) db states (.ok view)) :
    ReadAcross crates config db states view := by
  obtain ⟨u, v, t, hseen⟩ := hdb.sound.seen hprover hconsistency (h.mono fun _ _ hstep => hstep.advances)
  have hlabelled : ∀ w ∈ db :: states, ∃ members, LabelledAs crates w members ∧ ∀ m, m ∈ members ↔
      m.checkpoint ∈ w.checkpoints ∧ (m.state = .seriesUsable ↔ Counted crates w m.checkpoint) :=
    fun w hw => (hseen.sound w hw).1.labelled hprover hconsistency
  refine ⟨⟨u, hseen.listed, hseen.recorded⟩, fun m hm => ?_, ?_, ?_, ⟨hseen.divergences_start, hseen.divergences_end⟩,
    hseen.floor, hseen.frontier_end, fun index cp hbound => ?_, fun hsame => ?_⟩
  · obtain ⟨w, hw, huw, -, hiff⟩ := hseen.judged m hm
    obtain ⟨members, hmembers, hmem⟩ := hlabelled w hw
    exact ⟨w, hw, members, hmembers, (hmem m).2 ⟨huw.checkpoints.subset (hseen.row hm), hiff⟩⟩
  · obtain ⟨members, hmembers, hmem⟩ := hlabelled db List.mem_cons_self
    refine ⟨members, hmembers, fun m hm hstate => ?_⟩
    obtain ⟨hrow, hiff⟩ := (hmem m).1 hm
    have hreported := hseen.reported hrow (hiff.1 hstate)
    rwa [← hstate] at hreported
  · obtain ⟨members, hmembers, hmem⟩ := hlabelled (states.getLastD db) List.getLastD_mem_cons
    refine ⟨members, hmembers, fun m hm hstate => (hmem m).2 ?_⟩
    obtain ⟨hrow, hcounted⟩ := hseen.counted_end hm hstate
    exact ⟨hrow, iff_of_true hstate hcounted⟩
  · obtain ⟨hm, hindex, -⟩ := hseen.bound hbound
    obtain ⟨hrow, -, husable⟩ := hseen.counted_end hm rfl
    exact ⟨hindex, hrow, husable, hseen.bound_below hbound⟩
  · have hresult := h.eq_eval (Locked.seriesView_steady db) (List.forall_mem_cons.2 ⟨SameTables.refl db, hsame⟩)
    rw [Locked.seriesView_eval] at hresult
    exact hresult.symm

namespace Symbolic

/-- Three members in time, over one, two and three entries, of which one is held. -/
def arriving : List Call :=
  [stage 1, stage 5, stage 6, ingest (checkpoint "A" 1 (rootOf [[1]]) 5) [pending [[1]] 0],
    ingest (checkpoint "A" 2 (rootOf [[1], [5]]) 6) [], ingest (checkpoint "A" 3 (rootOf [[1], [5], [6]]) 7) []]

/-- The second entry arrives, and then the third. -/
def secondArrived : List Call := arriving ++ [promote 2 (pending [[1], [5]] 1)]

def thirdArrived : List Call := secondArrived ++ [promote 3 (pending [[1], [5], [6]] 2)]

/-- The view of the three members, with the states of the second and the third. -/
def arrivingView (second third : CheckpointState) (frontier : Nat) : SeriesView :=
  ⟨[⟨checkpoint "A" 1 (rootOf [[1]]) 5, .seriesUsable⟩, ⟨checkpoint "A" 2 (rootOf [[1], [5]]) 6, second⟩,
    ⟨checkpoint "A" 3 (rootOf [[1], [5], [6]]) 7, third⟩], some frontier, none, [], none⟩

/-- The second member checked before both entries arrive, and the third one after. -/
def skewedView : SeriesView := arrivingView .authenticated .seriesUsable 3

theorem across_skewedView : Across (Transaction (Symbolic.crates documents) Symbolic.config)
    (Locked.seriesView (Symbolic.crates documents) Symbolic.config) (after arriving)
    [after secondArrived, after thirdArrived]
    (.ok skewedView) := by
  obtain ⟨hsecond, hthird, hresult⟩ :
      promoteEntryIn (Symbolic.crates documents) (after arriving) (checkpoint "A" 2 (rootOf [[1], [5]]) 6)
        (hashText [5]) 1 [hashText [1]] = .ok (.inserted, after secondArrived) ∧
      promoteEntryIn (Symbolic.crates documents) (after secondArrived) (checkpoint "A" 3 (rootOf [[1], [5], [6]]) 7)
        (hashText [6]) 2 [hashText (rootOf [[1], [5]])] = .ok (.inserted, after thirdArrived) ∧
      (Locked.seriesView (Symbolic.crates documents) Symbolic.config).among
        [[], [], [], [after secondArrived, after thirdArrived]] (after arriving) = .ok skewedView := by
    decide +kernel
  have hchain : List.IsChain (Transaction (Symbolic.crates documents) Symbolic.config)
      (after arriving :: [[], [], [], [after secondArrived, after thirdArrived]].flatten) :=
    .cons_cons (.promoted hsecond) (.cons_cons (.promoted hthird) (.singleton _))
  rw [← hresult]
  exact across_among _ hchain

end Symbolic

/-- A view of no state: the second member was checked before its entry arrived and the third one after, so the
bound on the second entry is none that any state of the call gives. -/
theorem view_of_no_state : Written (Symbolic.crates Symbolic.documents) Symbolic.config (Symbolic.after Symbolic.arriving) ∧
    Across (Transaction (Symbolic.crates Symbolic.documents) Symbolic.config)
      (Locked.seriesView (Symbolic.crates Symbolic.documents) Symbolic.config) (Symbolic.after Symbolic.arriving)
      [Symbolic.after Symbolic.secondArrived, Symbolic.after Symbolic.thirdArrived] (.ok Symbolic.skewedView) ∧
    ∀ u ∈ [Symbolic.after Symbolic.arriving, Symbolic.after Symbolic.secondArrived, Symbolic.after Symbolic.thirdArrived],
      ∃ view, seriesView (Symbolic.crates Symbolic.documents) Symbolic.config u = .ok view ∧ view ≠ Symbolic.skewedView ∧
        itub view 1 ≠ itub Symbolic.skewedView 1 := by
  obtain ⟨hnone, hsecond, hthird⟩ :
      seriesView (Symbolic.crates Symbolic.documents) Symbolic.config (Symbolic.after Symbolic.arriving) =
        .ok (Symbolic.arrivingView .authenticated .authenticated 1) ∧
      seriesView (Symbolic.crates Symbolic.documents) Symbolic.config (Symbolic.after Symbolic.secondArrived) =
        .ok (Symbolic.arrivingView .seriesUsable .authenticated 2) ∧
      seriesView (Symbolic.crates Symbolic.documents) Symbolic.config (Symbolic.after Symbolic.thirdArrived) =
        .ok (Symbolic.arrivingView .seriesUsable .seriesUsable 3) := by
    decide +kernel
  refine ⟨(Symbolic.reachable_after _).written, Symbolic.across_skewedView, fun u hu => ?_⟩
  simp only [List.mem_cons, List.not_mem_nil, or_false] at hu
  rcases hu with rfl | rfl | rfl
  · exact ⟨_, hnone, by decide, by decide⟩
  · exact ⟨_, hsecond, by decide, by decide⟩
  · exact ⟨_, hthird, by decide, by decide⟩

theorem seriesView_read_across_skewed :
    ReadAcross (Symbolic.crates Symbolic.documents) Symbolic.config (Symbolic.after Symbolic.arriving)
      [Symbolic.after Symbolic.secondArrived, Symbolic.after Symbolic.thirdArrived] Symbolic.skewedView :=
  seriesView_read_across (Symbolic.viewLaws Symbolic.documents) (Symbolic.consistencyLaws _)
    (Symbolic.reachable_after _).written Symbolic.across_skewedView

end AhlMirror
