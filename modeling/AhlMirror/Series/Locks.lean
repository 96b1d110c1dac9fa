import AhlMirror.Series.Floor
import AhlMirror.Series.Snapshot
import AhlMirror.Store.History

/-!
# Reads across locks

A read that succeeded succeeds again on every later store, with the same result (`Later`): the proof
builders ask for complete nodes, and the rows of a prefix do not change. So it does not matter in which
state, at or after the one a checkpoint was chosen in, the response over it is built.
-/

namespace AhlMirror

open Merkle

variable {H K : Type} [HashOctets H] {crates : Crates H K} {config : Config K}

/-! ### One read -/

namespace Later
variable {db after : Db} (h : Later crates db after)
include h

theorem retrieveById {entryId : String} {index : Nat} {envelope : Bytes}
    (hread : retrieveById crates db entryId = .ok (.present index envelope)) :
    retrieveById crates after entryId = .ok (.present index envelope) := by
  unfold AhlMirror.retrieveById at hread ⊢
  cases hstored : AhlMirror.getEntryById db entryId with
  | none =>
    rw [hstored] at hread
    cases Except.ok.inj hread
  | some stored =>
    rw [hstored] at hread
    rw [h.getEntryById hstored]
    exact hread

section proofs
variable (hspan : SpanLaws crates)
include hspan

theorem inclusionProofRaw {leafIndex treeSize : Nat} {proof : InclusionProof H}
    (hread : inclusionProofRaw crates db leafIndex treeSize = .ok proof) :
    inclusionProofRaw crates after leafIndex treeSize = .ok proof := by
  unfold AhlMirror.inclusionProofRaw at hread ⊢
  obtain ⟨out, hopen, hproof⟩ := bind_eq_ok.1 hread
  have hasks := (hspan.generateInclusionProof leafIndex treeSize).mono fun level index hin
    (_ : (index + 1) * 2 ^ level ≤ i64Bound) => show (index + 1) * 2 ^ level ≤ treeSize by simpa using hin.2
  exact bind_eq_ok.2 ⟨out, h.withTreeNodes hasks hopen, hproof⟩

theorem subtreeRootRaw {offset size : Nat} {root : H} (hread : subtreeRootRaw crates db offset size = .ok root) :
    subtreeRootRaw crates after offset size = .ok root := by
  unfold AhlMirror.subtreeRootRaw at hread ⊢
  obtain ⟨out, hopen, hroot⟩ := bind_eq_ok.1 hread
  have hasks := (hspan.computeSubtreeRoot offset size).mono fun level index hin
      (hlast : (index + 1) * 2 ^ level ≤ i64Bound) => show (index + 1) * 2 ^ level ≤ saturatingAdd offset size by
    have hend := hin.2
    have hu64 := i64Bound_lt_u64Bound
    unfold saturatingAdd
    omega
  exact bind_eq_ok.2 ⟨out, h.withTreeNodes hasks hopen, hroot⟩

theorem subtreeRootRaw_held {offset size : Nat} (hheld : offset + size ≤ db.entries.length) :
    AhlMirror.subtreeRootRaw crates after offset size = AhlMirror.subtreeRootRaw crates db offset size := by
  have hsum : saturatingAdd offset size = offset + size := saturatingAdd_of_lt (by
    have := h.before.representable
    have := i64Bound_lt_u64Bound
    omega)
  unfold AhlMirror.subtreeRootRaw
  rw [hsum, h.withTreeNodes_held hheld ((hspan.computeSubtreeRoot offset size).mono fun _ _ hin => hin.2)]

theorem consistencyProofMeasuredRaw_held (fromSize : Nat) {toSize : Nat} (hheld : toSize ≤ db.entries.length) :
    consistencyProofMeasuredRaw crates after fromSize toSize = consistencyProofMeasuredRaw crates db fromSize toSize := by
  unfold consistencyProofMeasuredRaw
  rw [h.countEntriesRaw 0 hheld,
    h.withTreeNodes_held hheld ((hspan.generateConsistencyProof fromSize toSize).mono fun _ _ hin => by simpa using hin.2)]

theorem consistencyProofMeasuredRaw {fromSize toSize : Nat} {out : ConsistencyProof H × Nat}
    (hread : consistencyProofMeasuredRaw crates db fromSize toSize = .ok out) :
    AhlMirror.consistencyProofMeasuredRaw crates after fromSize toSize = .ok out := by
  have hheld : toSize ≤ db.entries.length := by
    unfold AhlMirror.consistencyProofMeasuredRaw at hread
    obtain ⟨have_, hcount, hread⟩ := bind_eq_ok.1 hread
    obtain ⟨hall, -⟩ := ite_error_eq_ok.1 hread
    obtain rfl := not_not.1 hall
    exact (h.before.toCanonical.held_of_count hcount).2
  rw [h.consistencyProofMeasuredRaw_held hspan fromSize hheld]
  exact hread

/-! ### A range response -/

theorem openSubtrees : ∀ (spans : List (Nat × Nat)) (treeNodes : Nat),
    (∀ span ∈ spans, span.1 + span.2 ≤ db.entries.length) →
      openSubtrees crates after spans treeNodes = openSubtrees crates db spans treeNodes
  | [], _, _ => rfl
  | (offset, size) :: rest, treeNodes, hheld => by
    unfold AhlMirror.openSubtrees openSubtree
    rw [h.subtreeRootRaw_held hspan (hheld _ List.mem_cons_self)]
    apply bind_congr
    rintro ⟨node, treeNodes⟩
    dsimp only
    rw [openSubtrees rest treeNodes fun span hspan => hheld span (List.mem_cons_of_mem _ hspan)]

variable [DecidableEq H] (hsplit : SplitLaws crates)
include hsplit

theorem buildRangeResponseIn_held {cp : Checkpoint} (hheld : cp.treeSize ≤ db.entries.length) (start stop : Nat) :
    buildRangeResponseIn crates after cp start stop = buildRangeResponseIn crates db cp start stop := by
  unfold buildRangeResponseIn
  dsimp only
  rw [h.countEntriesRaw 0 hheld]
  apply bind_congr
  intro have_
  split_ifs with hcount hwindow
  · rfl
  · rfl
  · -- the window is not empty, so every span opened lies in the prefix held
    have hone : 1 ≤ cp.treeSize := by omega
    have hu64 : cp.treeSize < u64Bound := by
      have := h.before.representable
      have := i64Bound_lt_u64Bound
      omega
    have hspans : ∀ span ∈ outsideSubtrees crates 0 cp.treeSize start stop, span.1 + span.2 ≤ db.entries.length := by
      intro span hmem
      rw [outsideSubtrees_eq hsplit.largestPowerOf2LessThan hone hu64] at hmem
      have hwithin := outsideSpans_within hone hmem
      omega
    unfold openSubtree
    rw [h.subtreeRootRaw_held hspan (by omega)]
    simp only [h.openSubtrees hspan _ _ hspans, h.leafHashesRangeRaw start (show stop ≤ db.entries.length by omega),
      h.getEntriesRangeRaw start (show stop ≤ db.entries.length by omega)]

theorem buildRangeResponseIn {cp : Checkpoint} {start stop : Nat} {out : RangeResponse × RangeReadCost}
    (hread : buildRangeResponseIn crates db cp start stop = .ok out) :
    AhlMirror.buildRangeResponseIn crates after cp start stop = .ok out := by
  have hheld : cp.treeSize ≤ db.entries.length := by
    unfold AhlMirror.buildRangeResponseIn at hread
    obtain ⟨have_, hcount, hread⟩ := bind_eq_ok.1 hread
    obtain ⟨hall, -⟩ := ite_error_eq_ok.1 hread
    obtain rfl := not_not.1 hall
    exact (h.before.toCanonical.held_of_count hcount).2
  rw [h.buildRangeResponseIn_held hspan hsplit hheld]
  exact hread

end proofs
end Later

/-! ### Handlers over their locked steps -/

section handlers
variable [DecidableEq H]

variable (crates config) in
/-- `range_handler`, the checkpoint chosen in one state and the response built in another. -/
def rangeHandlerAcross (chosen built : Db) (req : RangeRequest) : MirrorResult RangeResponse := do
  let checkpoint ← seriesUsableCheckpoint crates config chosen req.treeSize
  buildRangeResponse crates built checkpoint req.fromIndex req.toIndex

variable (crates config) in
/-- `consistency_handler`, each checkpoint chosen in a state of its own and the proof built in a third. -/
def consistencyHandlerAcross (first second built : Db) (fromSize toSize : Nat) : MirrorResult (List H) :=
  if fromSize > toSize then .error (.consistencyOrder fromSize toSize)
  else do
    let fromCp ← seriesUsableCheckpoint crates config first fromSize
    let toCp ← seriesUsableCheckpoint crates config second toSize
    let (proof, _) ← consistencyProofMeasuredRaw crates built fromCp.treeSize toCp.treeSize
    .ok proof.path

variable {db : Db} {treeSize : Nat} {cp : Checkpoint}

theorem seriesUsableCheckpoint_mem (h : seriesUsableCheckpoint crates config db treeSize = .ok cp) :
    ∃ view, Viewed crates config db view ∧ cp ∈ usableCheckpoints view.members ∧ cp.treeSize = treeSize := by
  unfold seriesUsableCheckpoint at h
  simp only [bind_eq_ok, ite_error_eq_ok, okOr_eq_ok] at h
  obtain ⟨view, hview, -, -, -, hfound⟩ := h
  obtain ⟨⟨_, state⟩, hm, rfl⟩ := Option.map_eq_some_iff.1 hfound
  obtain ⟨hmem, hsize⟩ := List.mem_filter.1 (List.mem_of_find?_eq_some hm)
  obtain rfl : state = .seriesUsable := by simpa using List.find?_some hm
  exact ⟨view, seriesView_cases hview, mem_usableCheckpoints.2 hmem, by simpa using hsize⟩

theorem seriesUsableCheckpoint_of_mem {view : SeriesView} (hview : seriesView crates config db = .ok view)
    (hbelow : ∀ floor ∈ view.equivocationFloor, treeSize < floor) (hmem : cp ∈ usableCheckpoints view.members)
    (hsize : cp.treeSize = treeSize) :
    ∃ chosen, seriesUsableCheckpoint crates config db treeSize = .ok chosen ∧ chosen.treeSize = treeSize := by
  have hcandidate : ⟨cp, .seriesUsable⟩ ∈ view.members.filter fun m => m.checkpoint.treeSize == treeSize :=
    List.mem_filter.2 ⟨mem_usableCheckpoints.1 hmem, by simpa using hsize⟩
  have hfound : ((view.members.filter fun m => m.checkpoint.treeSize == treeSize).find? fun m =>
      m.state == .seriesUsable).isSome := List.find?_isSome.2 ⟨_, hcandidate, beq_self_eq_true _⟩
  obtain ⟨chosen, hchosen⟩ := Option.isSome_iff_exists.1 hfound
  have hok : seriesUsableCheckpoint crates config db treeSize = .ok chosen.checkpoint := by
    unfold seriesUsableCheckpoint
    rw [hview]
    simp only [ok_bind]
    rw [refuseAtFloor_eq_ok.2 hbelow]
    simp only [ok_bind]
    rw [if_neg (by simpa using List.ne_nil_of_mem hcandidate), hchosen]
    rfl
  exact ⟨chosen.checkpoint, hok, (seriesUsableCheckpoint_grounded hok).1⟩

theorem seriesUsableCheckpoint_held (hrep : Represents crates db)
    (h : seriesUsableCheckpoint crates config db treeSize = .ok cp) : cp.treeSize ≤ db.entries.length := by
  obtain ⟨view, hview, hmem, -⟩ := seriesUsableCheckpoint_mem h
  exact (hview.usable_held hrep hmem).2.2

variable (hspan : SpanLaws crates)
include hspan

theorem Later.rangeHandlerAcross (hsplit : SplitLaws crates) {after : Db} (h : Later crates db after) (req : RangeRequest) :
    rangeHandlerAcross crates config db after req = rangeHandler crates config db req := by
  unfold AhlMirror.rangeHandlerAcross rangeHandler
  cases hchosen : seriesUsableCheckpoint crates config db req.treeSize with
  | error e => rfl
  | ok checkpoint =>
    have hheld := seriesUsableCheckpoint_held h.before hchosen
    unfold buildRangeResponse
    simp only [ok_bind]
    rw [h.buildRangeResponseIn_held hspan hsplit hheld]

theorem Later.consistencyHandlerAcross {first second built : Db} (h : Later crates second built)
    (fromSize toSize : Nat) :
    consistencyHandlerAcross crates config first second built fromSize toSize =
      consistencyHandlerAcross crates config first second second fromSize toSize := by
  unfold AhlMirror.consistencyHandlerAcross
  split_ifs with horder
  · rfl
  · apply bind_congr
    intro fromCp
    cases hchosen : seriesUsableCheckpoint crates config second toSize with
    | error e => rfl
    | ok toCp =>
      have hheld := seriesUsableCheckpoint_held h.before hchosen
      simp only [ok_bind]
      rw [h.consistencyProofMeasuredRaw_held hspan _ hheld]

/-- A path that came out is the one of the state the second checkpoint was chosen in: the first is chosen
there as well. -/
theorem Later.consistencyHandlerAcross_ok (hprover : ViewLaws crates)
    (hconsistency : ConsistencyLaws crates) {first second built : Db} (h : Later crates first second)
    (h' : Later crates second built) (hsound : Sound crates second) {fromSize toSize : Nat}
    {path : List H} (hok : AhlMirror.consistencyHandlerAcross crates config first second built fromSize toSize = .ok path) :
    consistencyHandler crates config second fromSize toSize = .ok path := by
  rw [h'.consistencyHandlerAcross hspan] at hok
  unfold AhlMirror.consistencyHandlerAcross at hok
  unfold consistencyHandler
  obtain ⟨horder, hok⟩ := ite_error_eq_ok.1 hok
  obtain ⟨fromCp, hfrom, hok⟩ := bind_eq_ok.1 hok
  obtain ⟨toCp, hto, hok⟩ := bind_eq_ok.1 hok
  obtain ⟨view, hview, hmem, hsize⟩ := seriesUsableCheckpoint_mem hfrom
  obtain ⟨hrow, hcounted, husable⟩ := (hview.mem_usable_iff hprover hconsistency h.before
    fun cp hcp => hsound.positive cp (h.checkpoints.subset hcp)).1 hmem
  obtain ⟨-, view', hview', hbelow⟩ := seriesUsableCheckpoint_grounded hto
  have hmem' := ((seriesView_cases hview').mem_usable_iff hprover hconsistency h.represents hsound.positive).2
    ⟨h.checkpoints.subset hrow, hcounted, husable.grow h.toGrows⟩
  obtain ⟨chosen, hchosen, hsame⟩ := seriesUsableCheckpoint_of_mem hview'
    (fun floor hfloor => (not_lt.1 horder).trans_lt (hbelow floor hfloor)) hmem' hsize
  rw [if_neg horder, hchosen, hto]
  simp only [ok_bind]
  rw [hsame, ← hsize]
  exact hok

end handlers

/-! ### The whole life -/

variable (crates) in
/-- What a life starts from: a file of the mirror's own, or an older one whose checkpoints each cover an entry. -/
inductive Begun : Db → Prop
  | fresh : Begun Db.fresh
  | older {db : Db} : PreLeafHash db → (∀ cp ∈ db.checkpoints, 1 ≤ cp.treeSize) → Begun db

theorem StoreCall.sound [DecidableEq H] (config : Config K) {db : Db} (h : Sound crates db) (call : StoreCall) :
    Sound crates (call.after crates config db) := by
  refine ⟨(StoreCall.represents config h.represents call).1, ?_⟩
  cases call with
  | serve call =>
    show ∀ cp ∈ (AhlMirror.serve crates config db call).1.checkpoints, 1 ≤ cp.treeSize
    rcases serve_cases crates config db call with ⟨-, hsame⟩ | ⟨-, hserved⟩
    · rw [hsame]
      exact h.positive
    · exact (hserved.transaction.advances h).1.positive
  | stageEntry entryId bytes =>
    rw [StoreCall.after]
    rcases withTransaction_cases db (storeStageEntry · entryId bytes) with hsame | ⟨outcome, hok⟩
    · rw [hsame]
      exact h.positive
    · rcases storeStageEntry_cases hok with hsame | hafter
      · rw [hsame]
        exact h.positive
      · rw [hafter]
        exact h.positive
  | promoteEntry entryIndex entryId =>
    rw [StoreCall.after]
    rcases withTransaction_cases db (promoteEntryRaw crates · entryIndex entryId) with hsame | ⟨outcome, hok⟩
    · rw [hsame]
      exact h.positive
    · rcases promoteEntryRaw_cases h.represents hok with ⟨hsame, -⟩ | ⟨bytes, rows, -, -, -, hafter, -⟩
      · rw [hsame]
        exact h.positive
      · rw [hafter]
        exact h.positive

theorem Lives.sound [DecidableEq H] {origin db : Db} (hbegun : Begun origin)
    (hlives : Lives crates config (false, origin) (true, db)) : Sound crates db := by
  have horigin : DiskState crates config false origin ∧ ∀ cp ∈ origin.checkpoints, 1 ≤ cp.treeSize := by
    cases hbegun with
    | fresh => exact ⟨.fresh, by simp [Db.fresh]⟩
    | older hold hpositive => exact ⟨.preLeafHash hold, hpositive⟩
  suffices h : ∀ t : Bool × Db, Lives crates config (false, origin) t → ∀ cp ∈ t.2.checkpoints, 1 ≤ cp.treeSize from
    ⟨(Lives.grows horigin.1 hlives).1.invariant.2 rfl, h _ hlives⟩
  intro t hlife
  induction hlife with
  | refl => exact horigin.2
  | tail hbefore hstep ih =>
    cases hstep with
    | @interrupted db after hmem =>
      have hsame := congrArg Db.checkpoints ((openStore_leaves _ db rfl).1 after hmem)
      exact (show after.checkpoints = db.checkpoints from hsame) ▸ ih
    | @opened db after hok =>
      have hsame := congrArg Db.checkpoints ((openStore_leaves _ db rfl).2 () after hok)
      exact (show after.checkpoints = db.checkpoints from hsame) ▸ ih
    | called call => exact (call.sound config ⟨(Lives.grows horigin.1 hbefore).1.invariant.2 rfl, ih⟩).positive
    | closed => exact ih

/-- **History is immutable.** Over the life of a database file, whatever was staged, promoted and admitted,
however calls failed and stores were reopened in between: what an open store answers of an entry, of a range
under a checkpoint, of a proof, a root or the leaf hashes of a prefix it holds, every later store answers as
well. So a response built after its checkpoint was chosen is the one of the state it was chosen in; and where
the two checkpoints of a consistency path were chosen in two states, it is the one of the second. -/
theorem history_immutable [DecidableEq H] (hsplit : SplitLaws crates) (hspan : SpanLaws crates) {db after : Db}
    (hdb : DiskState crates config true db) (hlives : Lives crates config (true, db) (true, after)) :
    (∀ entryId index envelope, retrieveById crates db entryId = .ok (.present index envelope) →
      retrieveById crates after entryId = .ok (.present index envelope)) ∧
    (∀ cp fromIndex toIndex out, buildRangeResponseIn crates db cp fromIndex toIndex = .ok out →
      buildRangeResponseIn crates after cp fromIndex toIndex = .ok out) ∧
    (∀ leafIndex treeSize proof, inclusionProofRaw crates db leafIndex treeSize = .ok proof →
      inclusionProofRaw crates after leafIndex treeSize = .ok proof) ∧
    (∀ fromSize toSize out, consistencyProofMeasuredRaw crates db fromSize toSize = .ok out →
      consistencyProofMeasuredRaw crates after fromSize toSize = .ok out) ∧
    (∀ offset size root, subtreeRootRaw crates db offset size = .ok root → subtreeRootRaw crates after offset size = .ok root) ∧
    (∀ fromIndex toIndex, toIndex ≤ db.entries.length →
      leafHashesRangeRaw (H := H) after fromIndex toIndex = leafHashesRangeRaw db fromIndex toIndex) ∧
    (∀ req, rangeHandlerAcross crates config db after req = rangeHandler crates config db req) ∧
    (∀ fromSize toSize, consistencyHandlerAcross crates config db db after fromSize toSize =
      consistencyHandler crates config db fromSize toSize) ∧
    (ViewLaws crates → ConsistencyLaws crates → ∀ origin built, Begun origin →
      Lives crates config (false, origin) (true, db) → Lives crates config (true, after) (true, built) →
      ∀ fromSize toSize path, consistencyHandlerAcross crates config db after built fromSize toSize = .ok path →
        consistencyHandler crates config after fromSize toSize = .ok path) := by
  have h := hdb.later hlives
  refine ⟨fun _ _ _ => h.retrieveById, fun _ _ _ _ => h.buildRangeResponseIn hspan hsplit,
    fun _ _ _ => h.inclusionProofRaw hspan, fun _ _ _ => h.consistencyProofMeasuredRaw hspan,
    fun _ _ _ => h.subtreeRootRaw hspan, fun fromIndex _ hheld => h.leafHashesRangeRaw fromIndex hheld,
    h.rangeHandlerAcross hspan hsplit, fun _ _ => h.consistencyHandlerAcross hspan _ _,
    fun hview hconsistency origin built hbegun hlife hbuilt _ _ _ hok => ?_⟩
  have h' := (Lives.grows hdb hlives).1.later hbuilt
  exact h.consistencyHandlerAcross_ok hspan hview hconsistency h' (Lives.sound hbegun (hlife.trans hlives)) hok

namespace Symbolic

/-- The migrated store closed, opened again and given a third entry. -/
def grown : Db :=
  { migrated with
    stagedEntries := [("c", [7])]
    entries := [⟨0, "a", [1], some [1]⟩, ⟨1, "b", [5], some [5]⟩, ⟨2, "c", [7], some [7]⟩] }

theorem lives_grown : Lives (Symbolic.crates documents) Symbolic.config (true, migrated) (true, grown) := by
  have hopened : DiskStep (Symbolic.crates documents) Symbolic.config (false, migrated) (true, migrated) :=
    .opened (by decide +kernel)
  have hstaged : DiskStep (Symbolic.crates documents) Symbolic.config (true, migrated)
      (true, { migrated with stagedEntries := [("c", [7])] }) := .called (.stageEntry "c" [7])
  have hpromoted : DiskStep (Symbolic.crates documents) Symbolic.config
      (true, { migrated with stagedEntries := [("c", [7])] }) (true, grown) := .called (.promoteEntry 2 "c")
  exact .tail (.tail (.tail (.single .closed) hopened) hstaged) hpromoted

end Symbolic

theorem history_immutable_grown :
    inclusionProofRaw (Symbolic.crates Symbolic.documents) Symbolic.grown 0 2 = .ok ⟨0, 2, [[5]]⟩ ∧
      leafHashesRangeRaw (H := Bytes) Symbolic.grown 0 2 = leafHashesRangeRaw Symbolic.migrated 0 2 := by
  obtain ⟨-, -, hinclusion, -, -, hleaves, -⟩ := history_immutable (Symbolic.splitLaws Symbolic.documents)
    (Symbolic.spanLaws Symbolic.documents) Symbolic.diskState_migrated Symbolic.lives_grown
  exact ⟨hinclusion 0 2 ⟨0, 2, [[5]]⟩ (by decide +kernel), hleaves 0 2 (by decide)⟩

end AhlMirror
