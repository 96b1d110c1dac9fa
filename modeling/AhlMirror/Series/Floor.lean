import AhlMirror.Series.Divergence
import AhlMirror.Series.Usable

/-!
# The equivocation floor

Once a view has a floor, no later view has a higher one (`Viewed.divergences_grow`), and no route serves
anything at or above the floor of its own view (`refusesFrom_of_grounded`). A later view may fail
instead, where an entry promoted in between ends the walk over the manifests (`Reachable.seriesView_failure`);
every one of these routes then fails with it.
-/

namespace AhlMirror

variable {H K : Type} [HashOctets H] [DecidableEq H]

/-- No route serves material grounded at `floor` or above. -/
structure RefusesFrom (crates : Crates H K) (config : Config K) (db : Db) (floor : Nat) : Prop where
  seriesUsableCheckpoint : ∀ treeSize cp, seriesUsableCheckpoint crates config db treeSize = .ok cp →
    cp.treeSize = treeSize ∧ treeSize < floor
  rangeHandler : ∀ req response, rangeHandler crates config db req = .ok response →
    response.checkpoint.treeSize = req.treeSize ∧ req.treeSize < floor
  consistencyHandler : ∀ fromSize toSize path, consistencyHandler crates config db fromSize toSize = .ok path →
    fromSize < floor ∧ toSize < floor
  getCheckpointHandler : ∀ treeSize m, getCheckpointHandler crates config db treeSize = .ok m →
    m.checkpoint.treeSize = treeSize ∧ treeSize < floor
  itubHandler : ∀ index bound stop, itubHandler crates config db index = .ok (some bound, stop) →
    bound.treeSize < floor
  rotationProofElement : ∀ manifestEntryIndex element,
    rotationProofElement crates config db manifestEntryIndex = .ok element → element.checkpoint.treeSize < floor

variable {crates : Crates H K} {config : Config K}

/-! ### The routes -/

section routes
variable (crates config) in
/-- A view comes out, and its floor, where it has one, lies above `treeSize`. -/
def Grounded (db : Db) (treeSize : Nat) : Prop :=
  ∃ view, seriesView crates config db = .ok view ∧ ∀ floor ∈ view.equivocationFloor, treeSize < floor

variable {db : Db}

theorem seriesUsableCheckpoint_grounded {treeSize : Nat} {cp : Checkpoint}
    (h : seriesUsableCheckpoint crates config db treeSize = .ok cp) :
    cp.treeSize = treeSize ∧ Grounded crates config db treeSize := by
  unfold seriesUsableCheckpoint at h
  simp only [bind_eq_ok, ite_error_eq_ok, okOr_eq_ok] at h
  obtain ⟨view, hview, ⟨⟩, hbelow, -, hfound⟩ := h
  obtain ⟨m, hm, rfl⟩ := Option.map_eq_some_iff.1 hfound
  have hsize := (List.mem_filter.1 (List.mem_of_find?_eq_some hm)).2
  exact ⟨by simpa using hsize, view, hview, refuseAtFloor_eq_ok.1 hbelow⟩

theorem buildRangeResponse_checkpoint {cp : Checkpoint} {fromIndex toIndex : Nat} {response : RangeResponse}
    (h : buildRangeResponse crates db cp fromIndex toIndex = .ok response) : response.checkpoint = cp := by
  unfold buildRangeResponse buildRangeResponseIn at h
  simp only [bind_eq_ok, ite_error_eq_ok] at h
  obtain ⟨⟨_, _⟩, ⟨_, -, -, -, _, -, ⟨_, _⟩, -, -, ⟨_, _⟩, -, _, -, _, -, -, _, -, _, -, hbuilt⟩, h⟩ := h
  obtain ⟨rfl, rfl⟩ := Prod.mk.inj (Except.ok.inj hbuilt)
  obtain rfl := Except.ok.inj h
  rfl

theorem rangeHandler_grounded {req : RangeRequest} {response : RangeResponse}
    (h : rangeHandler crates config db req = .ok response) :
    response.checkpoint.treeSize = req.treeSize ∧ Grounded crates config db req.treeSize := by
  unfold rangeHandler at h
  obtain ⟨cp, hcp, hbuilt⟩ := bind_eq_ok.1 h
  rw [buildRangeResponse_checkpoint hbuilt]
  exact seriesUsableCheckpoint_grounded hcp

theorem consistencyHandler_grounded {fromSize toSize : Nat} {path : List H}
    (h : consistencyHandler crates config db fromSize toSize = .ok path) :
    Grounded crates config db fromSize ∧ Grounded crates config db toSize := by
  unfold consistencyHandler at h
  simp only [ite_error_eq_ok, bind_eq_ok] at h
  obtain ⟨-, fromCp, hfrom, toCp, hto, -⟩ := h
  exact ⟨(seriesUsableCheckpoint_grounded hfrom).2, (seriesUsableCheckpoint_grounded hto).2⟩

theorem latestMember_mem : ∀ {members : List ReportedCheckpoint} {m : ReportedCheckpoint},
    latestMember members = some m → m ∈ members
  | [], _, h => by cases h
  | first :: rest, m, h => by
    obtain rfl := Option.some.inj h
    induction rest using List.reverseRecOn with
    | nil => exact List.mem_cons_self
    | append_singleton rest next ih =>
      rw [List.foldl_append, List.foldl_cons, List.foldl_nil]
      split_ifs
      · rw [← List.cons_append]
        exact List.mem_append_left _ (ih rfl)
      · simp

theorem getCheckpointHandler_grounded {treeSize : Nat} {m : ReportedCheckpoint}
    (h : getCheckpointHandler crates config db treeSize = .ok m) :
    m.checkpoint.treeSize = treeSize ∧ Grounded crates config db treeSize := by
  unfold getCheckpointHandler at h
  simp only [bind_eq_ok, okOr_eq_ok] at h
  obtain ⟨view, hview, ⟨⟩, hbelow, hlatest⟩ := h
  have hsize := (List.mem_filter.1 (latestMember_mem hlatest)).2
  exact ⟨by simpa using hsize, view, hview, refuseAtFloor_eq_ok.1 hbelow⟩

theorem rotationProofElement_grounded {manifestEntryIndex : Nat} {element : RotationProofElement}
    (h : rotationProofElement crates config db manifestEntryIndex = .ok element) :
    Grounded crates config db element.checkpoint.treeSize := by
  unfold rotationProofElement at h
  simp only [bind_eq_ok, ite_error_eq_ok] at h
  obtain ⟨_, -, cp, -, view, hview, ⟨⟩, hbelow, _, -, -, _, -, _, -, _, -, _, -, _, -, -, h⟩ := h
  obtain rfl := Except.ok.inj h
  exact ⟨view, hview, refuseAtFloor_eq_ok.1 hbelow⟩

theorem itubHandler_grounded {index : Nat} {bound : Checkpoint} {stop : Option FrontierStop}
    (h : itubHandler crates config db index = .ok (some bound, stop)) : Grounded crates config db bound.treeSize := by
  unfold itubHandler at h
  obtain ⟨view, hview, h⟩ := bind_eq_ok.1 h
  obtain ⟨hbound, -⟩ := Prod.mk.inj (Except.ok.inj h)
  obtain ⟨stop, hfrontier⟩ := (seriesView_cases hview).frontier
  exact ⟨view, hview, (itub_cases hfrontier hbound).2.2⟩

theorem refusesFrom_of_grounded {floor : Nat}
    (h : ∀ treeSize, Grounded crates config db treeSize → treeSize < floor) : RefusesFrom crates config db floor where
  seriesUsableCheckpoint _ _ hok := (seriesUsableCheckpoint_grounded hok).imp_right (h _)
  rangeHandler _ _ hok := (rangeHandler_grounded hok).imp_right (h _)
  consistencyHandler _ _ _ hok := (consistencyHandler_grounded hok).imp (h _) (h _)
  getCheckpointHandler _ _ hok := (getCheckpointHandler_grounded hok).imp_right (h _)
  itubHandler _ _ _ hok := h _ (itubHandler_grounded hok)
  rotationProofElement _ _ hok := h _ (rotationProofElement_grounded hok)

end routes

/-! ### Along a run -/

theorem Viewed.divergences_grow {db after : Db} (hgrow : Grows db after) {view view' : SeriesView}
    (h : Viewed crates config db view) (h' : Viewed crates config after view') :
    ∀ n ∈ view.rootDivergences, n ∈ view'.rootDivergences := by
  rw [h.divergences, h'.divergences]
  intro n hn
  obtain ⟨a, ha, b, hb, hconflict⟩ := mem_rootDivergences.1 hn
  exact mem_rootDivergences.2 ⟨a, hgrow.authenticated ha, b, hgrow.authenticated hb, hconflict⟩

namespace Symbolic

/-- The genesis in time, then two roots in conflict over it and one entry. -/
def conflict : List Call :=
  [stage 1, stage 5, ingest (checkpoint "A" 1 (rootOf [[1]]) 5) [pending [[1]] 0],
    ingest (checkpoint "A" 2 (rootOf [[1], [6]]) 6) [], ingest (checkpoint "A" 2 (rootOf [[1], [5]]) 7) []]

/-- The view of the conflict, with the state of the last member. -/
def conflictView (state : CheckpointState) : SeriesView :=
  ⟨[⟨checkpoint "A" 1 (rootOf [[1]]) 5, .seriesUsable⟩, ⟨checkpoint "A" 2 (rootOf [[1], [6]]) 6, .authenticated⟩,
    ⟨checkpoint "A" 2 (rootOf [[1], [5]]) 7, state⟩], some 1, some (.equivocation 2), [2], some 2⟩

/-- A checkpoint over an entry not promoted yet, and two roots in conflict past it. -/
def conflictPastThree : List Call :=
  [stage 1, stage 3, ingest (checkpoint "A" 2 (rootOf [[1], [3]]) 5) [pending [[1], [3]] 0],
    ingest (checkpoint "A" 3 (rootOf [[1], [3], [5]]) 6) [], ingest (checkpoint "A" 3 (rootOf [[1], [3], [6]]) 7) []]

def conflictPastThreeView : SeriesView :=
  ⟨[⟨checkpoint "A" 2 (rootOf [[1], [3]]) 5, .authenticated⟩, ⟨checkpoint "A" 3 (rootOf [[1], [3], [5]]) 6, .authenticated⟩,
    ⟨checkpoint "A" 3 (rootOf [[1], [3], [6]]) 7, .authenticated⟩], none, some (.equivocation 3), [3], some 3⟩

end Symbolic

end AhlMirror
