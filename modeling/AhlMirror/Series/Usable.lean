import AhlMirror.Series.Frontier
import AhlMirror.Store.CacheCheck

/-!
# Usable members

`series_view` labels a member by three checks: the count of the entries held, the cached root, and a
consistency proof from the last usable member. On a reachable store the label says that the prefix is
held and its root is the declared one (`UsableRow`): the cache covers every prefix that is held, and
the consistency proof between two such prefixes is genuine. So a label is never lost
(`UsableRow.grow`).
-/

namespace AhlMirror

open AhlMirror.Core Merkle

variable {H K : Type} {crates : Crates H K} {config : Config K}

variable (crates) in
/-- The prefix the checkpoint covers is held, and its RFC 6962 root is the declared one. -/
structure UsableRow (db : Db) (cp : Checkpoint) : Prop where
  held : cp.treeSize ≤ db.entries.length
  root : crates.parseHashHex cp.rootHash =
    .ok (mth crates.hashChildren (crates.digest []) ((leafHashes crates db).take cp.treeSize))

theorem UsableRow.grow {db after : Db} {cp : Checkpoint} (h : UsableRow crates db cp) (hgrow : Grows db after) :
    UsableRow crates after cp where
  held := h.held.trans hgrow.entries.length_le
  root := by
    have hprefix : leafHashes crates db <+: leafHashes crates after := hgrow.canonicalEntries.map _
    have hsame := take_of_prefix hprefix cp.treeSize
    rw [length_leafHashes, Nat.min_eq_right h.held, List.take_take, Nat.min_self] at hsame
    rw [hsame]
    exact h.root

variable [HashOctets H]

/-! ### The cache covers a held prefix -/

theorem Represents.requireSubtreeCacheRaw {db : Db} (h : Represents crates db) {n : Nat} (hle : n ≤ db.entries.length)
    (hbound : n < i64Bound) : requireSubtreeCacheRaw (H := H) db n = .ok () := by
  refine (requireSubtreeCacheRaw_eq_ok (hbound.trans i64Bound_lt_u64Bound)).2 fun level hlevel hodd => ?_
  -- the block of this width is complete because it ends within the size
  have hend : (n / 2 ^ level - 1 + 1) * 2 ^ level ≤ n := cacheBlocks_inside (mem_cacheBlocks.2 ⟨hlevel, hodd, rfl⟩)
  have hread : AhlMirror.treeNodeRaw db level _ = .ok _ := h.treeNodeRaw (h.index_lt (hend.trans hle))
  rw [if_pos (hend.trans hle)] at hread
  exact ⟨_, hread⟩

theorem Represents.holdsPrefix {db : Db} (h : Represents crates db) {n : Nat} (hbound : n < i64Bound) :
    holdsPrefix (H := H) db n = .ok (decide (n ≤ db.entries.length)) := by
  unfold AhlMirror.holdsPrefix
  rw [h.toCanonical.countEntriesRaw hbound]
  simp only [ok_bind]
  by_cases hheld : n ≤ db.entries.length
  · rw [if_neg (by omega), h.requireSubtreeCacheRaw hheld hbound, decide_eq_true hheld]
    rfl
  · rw [if_pos (by omega), decide_eq_false hheld]

/-! ### One member -/

/-- A member a later one may be judged against. -/
structure Predecessor (crates : Crates H K) (db : Db) (treeSize : Nat) (pred : Checkpoint) : Prop where
  usable : UsableRow crates db pred
  positive : 1 ≤ pred.treeSize
  le : pred.treeSize ≤ treeSize

omit [HashOctets H] in
theorem Predecessor.grow {db after : Db} {treeSize : Nat} {pred : Checkpoint} (h : Predecessor crates db treeSize pred)
    (hgrow : Grows db after) : Predecessor crates after treeSize pred :=
  ⟨h.usable.grow hgrow, h.positive, h.le⟩

omit [HashOctets H] in
theorem Predecessor.next {db : Db} {cp : Checkpoint} {rest : List Checkpoint} {lastUsable : Option Checkpoint}
    {usable : Bool} (hlast : ∀ later ∈ cp :: rest, ∀ pred ∈ lastUsable, Predecessor crates db later.treeSize pred)
    (hfirst : ∀ later ∈ rest, seriesLE cp later) (hpositive : 1 ≤ cp.treeSize)
    (husable : usable = true → UsableRow crates db cp) :
    ∀ later ∈ rest, ∀ pred ∈ (if usable then some cp else lastUsable), Predecessor crates db later.treeSize pred := by
  intro later hlater pred hpred
  cases usable with
  | false => exact hlast later (List.mem_cons_of_mem _ hlater) pred hpred
  | true =>
    obtain rfl : cp = pred := Option.some.inj hpred
    exact ⟨husable rfl, hpositive, (hfirst later hlater).treeSize_le⟩

@[simp] theorem ite_usable_eq {usable : Bool} :
    (if usable then CheckpointState.seriesUsable else .authenticated) = .seriesUsable ↔ usable = true := by
  cases usable <;> simp

section member
variable (hprover : ViewLaws crates) (hconsistency : ConsistencyLaws crates)
  {db : Db} (hrep : Represents crates db)
include hprover hconsistency hrep

theorem UsableRow.seriesConsistencyStored {cp pred : Checkpoint} (h : UsableRow crates db cp)
    (hbound : cp.treeSize < i64Bound) (hpred : Predecessor crates db cp.treeSize pred) :
    seriesConsistencyStored crates db pred cp = .ok true := by
  obtain ⟨treeNodes, hproof⟩ := hrep.consistencyProofMeasuredRaw hprover.toConsistencyProofLaws hpred.le h.held hbound
  unfold AhlMirror.seriesConsistencyStored
  rw [hpred.usable.root, h.root, hproof, mth_leafHashes crates hpred.positive hpred.usable.held,
    mth_leafHashes crates (hpred.positive.trans hpred.le) h.held]
  simp only [mapErr, ok_bind]
  rw [hconsistency.verifyConsistency (leafAt crates db) _ _ hpred.positive hpred.le]

variable [DecidableEq H]

/-- A member is judged without a fault, and usable exactly where its prefix is counted and held with its
root. -/
theorem judgeMember_spec {cp : Checkpoint} {lastUsable : Option Checkpoint} (hone : 1 ≤ cp.treeSize)
    (hlast : ∀ pred ∈ lastUsable, Predecessor crates db cp.treeSize pred) :
    ∃ usable, judgeMember crates db cp lastUsable = .ok usable ∧
      (usable = true ↔ cp.treeSize < i64Bound ∧ UsableRow crates db cp) := by
  unfold judgeMember seriesUsableStored
  by_cases hbound : cp.treeSize < i64Bound
  · rw [hrep.holdsPrefix hbound]
    simp only [ok_bind, decide_eq_false_iff_not]
    by_cases hheld : cp.treeSize ≤ db.entries.length
    · rw [if_neg (not_not.2 hheld)]
      unfold rootMatchesStored
      rw [hrep.logRootRaw hprover.toSubtreeLaws (fun hzero => by omega) hheld]
      cases hparse : crates.parseHashHex cp.rootHash with
      | error e => exact ⟨false, rfl, by simp, fun h => by simp [h.2.root] at hparse⟩
      | ok claimed =>
        simp only [mapErr, ok_bind, decide_eq_false_iff_not]
        by_cases hroot : mth crates.hashChildren (crates.digest []) ((leafHashes crates db).take cp.treeSize) = claimed
        · have husable : UsableRow crates db cp := ⟨hheld, hroot ▸ hparse⟩
          rw [if_neg (not_not.2 hroot)]
          cases lastUsable with
          | none => exact ⟨true, rfl, by simp [hbound, husable]⟩
          | some pred =>
            dsimp only
            rw [husable.seriesConsistencyStored hprover hconsistency hrep hbound (hlast pred rfl)]
            exact ⟨true, rfl, by simp [hbound, husable]⟩
        · rw [if_pos hroot]
          exact ⟨false, rfl, by simp, fun h => absurd (Except.ok.inj (h.2.root.symm.trans hparse)) hroot⟩
    · rw [if_pos hheld]
      exact ⟨false, rfl, by simp, fun h => absurd h.2.held hheld⟩
  · -- a size past the index space is not counted
    have hcount : holdsPrefix (H := H) db cp.treeSize = .error (.indexOverflow "to_index") := by
      unfold holdsPrefix countEntriesRaw
      rw [toI64_of_lt (by decide), toI64, if_neg hbound]
      rfl
    rw [hcount]
    exact ⟨false, rfl, by simp, fun h => absurd h.1 hbound⟩

theorem judgeMembers_spec : ∀ {rows : List Checkpoint} {lastUsable : Option Checkpoint},
    rows.Pairwise seriesLE → (∀ cp ∈ rows, 1 ≤ cp.treeSize) →
    (∀ cp ∈ rows, ∀ pred ∈ lastUsable, Predecessor crates db cp.treeSize pred) →
      ∃ members, judgeMembers crates db lastUsable rows = .ok members ∧ members.map (·.checkpoint) = rows ∧
        ∀ m ∈ members, m.state = .seriesUsable ↔ m.checkpoint.treeSize < i64Bound ∧ UsableRow crates db m.checkpoint
  | [], _, _, _, _ => ⟨[], rfl, rfl, by simp⟩
  | cp :: rest, lastUsable, hsorted, hpositive, hlast => by
    obtain ⟨usable, husable, hiff⟩ := judgeMember_spec hprover hconsistency hrep (hpositive cp List.mem_cons_self)
      (hlast cp List.mem_cons_self)
    obtain ⟨hfirst, hsorted⟩ := List.pairwise_cons.1 hsorted
    have hnext := Predecessor.next hlast hfirst (hpositive cp List.mem_cons_self) fun hcp => (hiff.1 hcp).2
    obtain ⟨members, hmembers, hmap, hstates⟩ :=
      judgeMembers_spec hsorted (fun later hlater => hpositive later (List.mem_cons_of_mem _ hlater)) hnext
    refine ⟨⟨cp, if usable then .seriesUsable else .authenticated⟩ :: members, ?_, by rw [List.map_cons, hmap], ?_⟩
    · rw [judgeMembers, husable]
      simp only [ok_bind]
      rw [hmembers]
      rfl
    · intro m hm
      rcases List.mem_cons.1 hm with rfl | hm
      · exact ite_usable_eq.trans hiff
      · exact hstates m hm

end member

/-! ### The members of a view -/

theorem RowsGoverned.positive {db : Db} (h : RowsGoverned crates config db) {cp : Checkpoint}
    (hcp : cp ∈ db.checkpoints) : 1 ≤ cp.treeSize := by
  by_contra hzero
  have hempty : walk crates config ((canonicalEntries db).take cp.treeSize) (some []) = .ok ⟨none, some []⟩ := by
    rw [show cp.treeSize = 0 by omega]
    rfl
  exact h cp hcp _ hempty rfl

theorem extendPrefix_zero (overlay : Overlay) (entries : List Bytes) : ∀ fuel next : Nat,
    extendPrefix 0 fuel next overlay entries = entries
  | 0, _ => rfl
  | fuel + 1, next => by rw [extendPrefix, if_neg (Nat.not_lt_zero next)]

theorem Judged.positive {db : Db} {cp : Checkpoint} {raw : Option Bytes} {batch : List PendingPromotion}
    {rotationFor : Option Nat} {claimedRoot : H} {admission : Admission} {visible : List Bytes}
    {list : List (GovernanceState K)} {active : GovernanceState K}
    (h : Judged crates config db cp raw batch rotationFor claimedRoot admission visible list active) :
    1 ≤ cp.treeSize := by
  by_contra hzero
  have hvisible := h.visiblePrefix
  rw [show cp.treeSize = 0 by omega] at hvisible
  unfold buildVisiblePrefix at hvisible
  obtain ⟨canonical, hcanonical, hvisible⟩ := bind_eq_ok.1 hvisible
  obtain ⟨overlay, -, hvisible⟩ := bind_eq_ok.1 hvisible
  rw [extendPrefix_zero] at hvisible
  obtain rfl := Except.ok.inj hvisible
  have hnone : entryRows db 0 0 = [] := by simp [entryRows]
  unfold getEntriesRangeRaw at hcanonical
  rw [toI64_of_lt (by decide), toI64_of_lt (by decide)] at hcanonical
  simp only [ok_bind, hnone] at hcanonical
  obtain rfl := Except.ok.inj hcanonical
  cases h.versions

variable [DecidableEq H]

section usable
variable (hprover : ViewLaws crates) (hconsistency : ConsistencyLaws crates)
  {db : Db} {view : SeriesView} (h : Viewed crates config db view)
include hprover hconsistency h

/-- The usable members of a view are the recorded rows whose prefix is counted and held with the declared
root, where each of them covers at least the genesis. -/
theorem Viewed.mem_usable_iff (hrep : Represents crates db) (hpositive : ∀ cp ∈ db.checkpoints, 1 ≤ cp.treeSize)
    {cp : Checkpoint} : cp ∈ usableCheckpoints view.members ↔
      cp ∈ db.checkpoints ∧ cp.treeSize < i64Bound ∧ UsableRow crates db cp := by
  obtain ⟨members, hmembers, hmap, hstates⟩ := judgeMembers_spec hprover hconsistency hrep (allCheckpoints_sorted db)
    (fun cp hcp => hpositive cp (mem_allCheckpoints.1 hcp)) (fun cp _ pred (hpred : pred ∈ none) => by simp at hpred)
  obtain rfl := Except.ok.inj (h.members.symm.trans hmembers)
  rw [mem_usableCheckpoints]
  constructor
  · exact fun hm => ⟨mem_allCheckpoints.1 (hmap ▸ List.mem_map_of_mem hm), (hstates _ hm).1 rfl⟩
  · rintro ⟨hrow, husable⟩
    rw [← mem_allCheckpoints, ← hmap] at hrow
    obtain ⟨⟨_, state⟩, hm, rfl⟩ := List.mem_map.1 hrow
    obtain rfl : state = .seriesUsable := (hstates _ hm).2 husable
    exact hm

theorem Viewed.mem_usable (hinclusion : InclusionLaws crates) (hreach : Reachable crates config db) {cp : Checkpoint} :
    cp ∈ usableCheckpoints view.members ↔ cp ∈ db.checkpoints ∧ UsableRow crates db cp := by
  rw [h.mem_usable_iff hprover hconsistency hreach.represents fun cp hcp => hreach.rowsGoverned.positive hcp]
  exact and_congr_right fun _ => and_iff_right_of_imp fun husable =>
    husable.held.trans_lt (hreach.addressable hinclusion)

end usable

/-! ### Why a view fails -/

omit [HashOctets H] [DecidableEq H] in
theorem WalkFailure.grow {entries more : List Bytes} (hgrow : entries <+: more) {e : MirrorError}
    (h : WalkFailure crates entries e) : WalkFailure crates more e := by
  obtain ⟨rest, rfl⟩ := hgrow
  obtain ⟨index, bytes, envelope, payload, kind, hat, hfailed⟩ := h
  have hlt := (List.getElem?_eq_some_iff.1 hat).1
  exact ⟨index, bytes, envelope, payload, kind, (List.getElem?_append_left hlt).trans hat, hfailed⟩

variable (crates) in
/-- A canonical entry ends a walk, or the time of a usable member does not parse. -/
def FrontierFailure (db : Db) (usable : List Checkpoint) (e : MirrorError) : Prop :=
  WalkFailure crates (canonicalEntries db) e ∨ ∃ cp ∈ usable, parseCheckpointTime crates cp.checkpointTime = .error e

section failures
variable {db : Db} (hrep : Represents crates db) {e : MirrorError}
include hrep

omit [DecidableEq H] in
theorem resolveGovernanceFor_failure {n : Nat} (hn : n < i64Bound)
    (h : resolveGovernanceFor crates config db n = .error e) : WalkFailure crates (canonicalEntries db) e := by
  unfold resolveGovernanceFor at h
  rw [hrep.toCanonical.entriesPrefix hn, ok_bind] at h
  split_ifs at h
  cases hresolve : resolve crates config ((canonicalEntries db).take n) with
  | ok state =>
    rw [hresolve] at h
    cases h
  | error failure =>
    rw [hresolve] at h
    rcases resolve_failure hresolve with rfl | hwalk
    · cases h
    · -- an unresolvable chain is no failure of the walk
      split at h
      · cases h
      · cases h
      · rename_i heq
        obtain rfl := Except.error.inj heq
        obtain rfl := Except.error.inj h
        exact hwalk.grow (List.take_prefix _ _)

omit [DecidableEq H] in
theorem extendFrontier_failure {floor : Option Nat} : ∀ {rest : List Checkpoint} {frontier : Nat} {prev : Checkpoint}
    {prevTime : Nat}, prev.treeSize < i64Bound → (∀ cp ∈ rest, cp.treeSize < i64Bound) →
      extendFrontier crates config db floor frontier prev prevTime rest = .error e → FrontierFailure crates db rest e
  | [], _, _, _, _, _, h => by cases h
  | cp :: rest, frontier, prev, prevTime, hprev, hrest, h => by
    obtain ⟨hcp, hrest⟩ := List.forall_mem_cons.1 hrest
    unfold extendFrontier at h
    split_ifs at h
    rcases bind_eq_error.1 h with htime | ⟨cpTime, -, h⟩
    · exact Or.inr ⟨cp, List.mem_cons_self, htime⟩
    split at h
    · cases h
    rcases bind_eq_error.1 h with hgovernance | ⟨governance, -, h⟩
    · exact Or.inl (resolveGovernanceFor_failure hrep hprev hgovernance)
    split at h
    · cases h
    split_ifs at h
    rcases extendFrontier_failure hcp hrest h with hgovernance | ⟨later, hlater, htime⟩
    · exact Or.inl hgovernance
    · exact Or.inr ⟨later, List.mem_cons_of_mem _ hlater, htime⟩

omit [DecidableEq H] in
theorem computeGapFreeFrontier_failure {usable : List Checkpoint} {floor : Option Nat}
    (husable : ∀ cp ∈ usable, cp.treeSize < i64Bound)
    (h : computeGapFreeFrontier crates config db usable floor = .error e) : FrontierFailure crates db usable e := by
  cases usable with
  | nil => cases h
  | cons first rest =>
    obtain ⟨hfirst, hrest⟩ := List.forall_mem_cons.1 husable
    unfold computeGapFreeFrontier at h
    dsimp only at h
    split_ifs at h
    rcases bind_eq_error.1 h with hgovernance | ⟨governance, hgoverns, h⟩
    · exact Or.inl (resolveGovernanceFor_failure hrep hfirst hgovernance)
    split at h
    · cases h
    -- the genesis lies inside the prefix that was resolved
    obtain ⟨-, -, hgenesis, -⟩ := (resolveGovernanceFor_some hrep hfirst hgoverns).genesis
    rw [checkedAdd_of_lt (by have := i64Bound_lt_u64Bound; omega)] at h
    simp only [okOr, ok_bind] at h
    rcases bind_eq_error.1 h with hgovernance | ⟨genesis, -, h⟩
    · exact Or.inl (resolveGovernanceFor_failure hrep (hgenesis.trans_lt hfirst) hgovernance)
    split at h
    · cases h
    rcases bind_eq_error.1 h with htime | ⟨firstTime, -, h⟩
    · exact Or.inr ⟨first, List.mem_cons_self, htime⟩
    split_ifs at h
    rcases extendFrontier_failure hrep hfirst hrest h with hgovernance | ⟨later, hlater, htime⟩
    · exact Or.inl hgovernance
    · exact Or.inr ⟨later, List.mem_cons_of_mem _ hlater, htime⟩

end failures

variable (crates) in
/-- The time of every recorded row parses. -/
def RowsTimed (db : Db) : Prop :=
  ∀ row ∈ db.checkpoints, ∃ time, parseCheckpointTime crates row.checkpointTime = .ok time

omit [DecidableEq H] in
theorem verifiesUnder_timed {state : GovernanceState K} {cp : Checkpoint} {raw : Option Bytes}
    (h : verifiesUnder crates config state cp raw = .ok ()) :
    ∃ time, parseCheckpointTime crates cp.checkpointTime = .ok time := by
  unfold verifiesUnder verifyCheckpointSignature checkpointBlob at h
  simp only [bind_eq_ok, ite_error_eq_ok] at h
  obtain ⟨key, -, -, blob, ⟨origin, -, root, -, time, htime, -⟩, -⟩ := h
  exact ⟨time, htime⟩

theorem CallEffect.rowsTimed {db after : Db} {call : Call} (hrep : Represents crates db) (hdb : RowsTimed crates db)
    (h : CallEffect crates config db call after) : RowsTimed crates after := by
  cases h with
  | unchanged => exact hdb
  | staged _ => exact hdb
  | admitted hjudge hcommit =>
    obtain ⟨-, mid, recorded, hcommitted⟩ := commitAdmission_cases hcommit
    obtain ⟨visible, list, active, hjudged⟩ := judgeCheckpoint_cases hjudge
    intro row hrow
    rcases hcommitted.checkpoints hrep hrow with hold | ⟨rfl, hmember⟩
    · exact hdb row hold
    · exact verifiesUnder_timed (hjudged.member.1 hmember)
  | promoted _ hpromote =>
    obtain ⟨-, hgrow⟩ := promoteEntryIn_grow hrep hpromote
    intro row hrow
    exact hdb row (hgrow.checkpoints ▸ hrow)

theorem Reachable.rowsTimed {db : Db} (h : Reachable crates config db) : RowsTimed crates db :=
  h.keeps (by simp [RowsTimed, Db.empty]) fun _ _ _ hrep hdb heffect => heffect.rowsTimed hrep hdb

theorem Reachable.seriesView_failure (hprover : ViewLaws crates) (hconsistency : ConsistencyLaws crates) {db : Db}
    (hreach : Reachable crates config db) {e : MirrorError} (h : seriesView crates config db = .error e) :
    WalkFailure crates (canonicalEntries db) e := by
  obtain ⟨members, hmembers, hmap, hstates⟩ := judgeMembers_spec hprover hconsistency hreach.represents
    (allCheckpoints_sorted db) (fun cp hcp => hreach.rowsGoverned.positive (mem_allCheckpoints.1 hcp))
    (fun cp _ pred (hpred : pred ∈ none) => by simp at hpred)
  unfold seriesView at h
  rw [hmembers, ok_bind] at h
  rcases bind_eq_error.1 h with hfrontier | ⟨result, -, h⟩
  · have hcounted : ∀ cp ∈ usableCheckpoints members, cp.treeSize < i64Bound := fun cp hcp =>
      ((hstates _ (mem_usableCheckpoints.1 hcp)).1 rfl).1
    rcases computeGapFreeFrontier_failure hreach.represents hcounted hfrontier with hwalk | ⟨cp, hcp, htime⟩
    · exact hwalk
    · have hrow : cp ∈ allCheckpoints db := hmap ▸ List.mem_map_of_mem (mem_usableCheckpoints.1 hcp)
      obtain ⟨time, hparse⟩ := hreach.rowsTimed cp (mem_allCheckpoints.1 hrow)
      rw [hparse] at htime
      cases htime
  · cases h

end AhlMirror
