import AhlMirror.Model.Routes
import AhlMirror.Service.Faults
import AhlMirror.Store.Cost

/-!
# Every answer is of one log

An answer says something about the log: an entry at its index, a window under a checkpoint, a path between two,
an anchor. `Owed` says what each route's answer says. A read takes the lock many times, and others write in
between; what it answers with success is so when it ends and on every store later in the schedule. So answers
collected at any moments are all of one log.
-/

namespace AhlMirror

open AhlMirror.Core Merkle
open AhlMirror.Core.Reading

variable {H K : Type} [HashOctets H]

/-! ### What an answer says -/

section statements
variable (crates : Crates H K) (config : Config K) (db : Db)

/-- The entry is at its index of the log, under its hash. -/
structure EntryAt (entryId : String) (index : Nat) (envelope : Bytes) : Prop where
  held : (canonicalEntries db)[index]? = some envelope
  filed : sha256Id crates envelope = entryId

/-- A recorded series member that a prefix of the entries vouches for, usable where it is labelled so. -/
structure ReportedMember (m : ReportedCheckpoint) : Prop where
  recorded : m.checkpoint ∈ db.checkpoints
  vouched : VouchedMember crates config db m.checkpoint
  usable : m.state = .seriesUsable → UsableRow crates db m.checkpoint

/-- A member a client may build on. -/
abbrev UsableMember (cp : Checkpoint) : Prop := ReportedMember crates config db ⟨cp, .seriesUsable⟩

/-- The window asked for, with the log's entries, as an offline verifier accepts it. -/
structure WindowOf (req : RangeRequest) (response : RangeResponse) : Prop where
  range : response.range = ⟨req.fromIndex, req.toIndex⟩
  treeSize : response.checkpoint.treeSize = req.treeSize
  member : UsableMember crates config db response.checkpoint
  proper : req.fromIndex < req.toIndex ∧ req.toIndex ≤ req.treeSize
  entries : response.entries.map (fun entry => crates.jcs entry.envelope) =
    ((canonicalEntries db).take req.toIndex).drop req.fromIndex
  verifies : verifyRangeResponse crates response = .ok true

/-- A path between two usable members, as a client accepts it for their roots. -/
structure PathBetween (fromCp toCp : Checkpoint) (path : List String) : Prop where
  older : UsableMember crates config db fromCp
  newer : UsableMember crates config db toCp
  accepted : ∃ nodes fromRoot toRoot, nodes.map hashText = path ∧
    crates.parseHashHex fromCp.rootHash = .ok fromRoot ∧ crates.parseHashHex toCp.rootHash = .ok toRoot ∧
    crates.verifyConsistency ⟨fromCp.treeSize, toCp.treeSize, nodes⟩ fromRoot toRoot = .ok true

/-- What a successful answer to each read says of the log. -/
inductive Owed (base64 : Base64) : Request → Body → Prop where
  | health : Owed base64 .health .healthy
  | raw {entryId : String} {encoding : Option String} {index : Nat} {envelope : Bytes}
      (plain : encoding ≠ some "base64") (entry : EntryAt crates db entryId index envelope) :
      Owed base64 (.retrieve entryId encoding) (.raw index envelope)
  | base64 {entryId : String} {index : Nat} {envelope : Bytes} (entry : EntryAt crates db entryId index envelope) :
      Owed base64 (.retrieve entryId (some "base64")) (.base64 entryId index ("base64:" ++ base64.encode envelope))
  | range {req : RangeRequest} {response : RangeResponse} (window : WindowOf crates config db req response) :
      Owed base64 (.range req) (.range response)
  | checkpoints {members : List ReportedCheckpoint} (reported : ∀ m ∈ members, ReportedMember crates config db m) :
      Owed base64 .listCheckpoints (.checkpoints members)
  | checkpoint {m : ReportedCheckpoint} (reported : ReportedMember crates config db m) :
      Owed base64 (.getCheckpoint m.checkpoint.treeSize) (.checkpoint m)
  | rotationProof {element : RotationProofElement} (sound : SoundElement crates db element)
      (vouched : VouchedAnchor crates config db (element.manifestEntryIndex, element.checkpoint)) :
      Owed base64 (.rotationProof element.manifestEntryIndex) (.rotationProof element)
  | itub {index : Nat} {cp : Checkpoint} (covers : index < cp.treeSize) (member : UsableMember crates config db cp) :
      Owed base64 (.itub index) (.itub index cp)
  | consistency {fromCp toCp : Checkpoint} {path : List String} (ordered : fromCp.treeSize ≤ toCp.treeSize)
      (between : PathBetween crates config db fromCp toCp path) :
      Owed base64 (.consistency fromCp.treeSize toCp.treeSize)
        (.consistencyPath fromCp.treeSize toCp.treeSize path)

end statements

variable {base64 : Base64} {crates : Crates H K} {config : Config K}

/-! ### It stays so -/

section grow
variable {db after : Db} (hgrow : Grows db after)
include hgrow

theorem EntryAt.grow {entryId : String} {index : Nat} {envelope : Bytes} (h : EntryAt crates db entryId index envelope) :
    EntryAt crates after entryId index envelope where
  held := by
    obtain ⟨more, hmore⟩ := hgrow.canonicalEntries
    obtain ⟨hlt, -⟩ := List.getElem?_eq_some_iff.1 h.held
    rw [← hmore, List.getElem?_append_left hlt]
    exact h.held
  filed := h.filed

theorem ReportedMember.grow {m : ReportedCheckpoint} (h : ReportedMember crates config db m) :
    ReportedMember crates config after m where
  recorded := hgrow.checkpoints.subset h.recorded
  vouched := h.vouched.grow hgrow.canonicalEntries
  usable hstate := (h.usable hstate).grow hgrow

theorem window_grow {start stop : Nat} (hstop : stop ≤ db.entries.length) :
    ((canonicalEntries after).take stop).drop start = ((canonicalEntries db).take stop).drop start := by
  obtain ⟨more, hmore⟩ := hgrow.canonicalEntries
  rw [← hmore, List.take_append_of_le_length (by rwa [length_canonicalEntries])]

theorem WindowOf.grow {req : RangeRequest} {response : RangeResponse} (h : WindowOf crates config db req response) :
    WindowOf crates config after req response where
  range := h.range
  treeSize := h.treeSize
  member := h.member.grow hgrow
  proper := h.proper
  entries := by
    have hheld := (h.member.usable rfl).held
    have htree := h.treeSize
    have hproper := h.proper
    dsimp only at hheld
    rw [window_grow hgrow (by omega)]
    exact h.entries
  verifies := h.verifies

theorem PathBetween.grow {fromCp toCp : Checkpoint} {path : List String}
    (h : PathBetween crates config db fromCp toCp path) : PathBetween crates config after fromCp toCp path where
  older := h.older.grow hgrow
  newer := h.newer.grow hgrow
  accepted := h.accepted

theorem SoundElement.grow {element : RotationProofElement} (h : SoundElement crates db element) :
    SoundElement crates after element := by
  have husable : UsableRow crates after element.checkpoint := UsableRow.grow ⟨h.held, h.root⟩ hgrow
  obtain ⟨bytes, root, hbytes, hroot, hverified⟩ := h.opened
  have hentry : EntryAt crates db _ _ bytes := ⟨hbytes, rfl⟩
  exact ⟨h.size, husable.held, husable.root, bytes, root, (hentry.grow hgrow).held, hroot, hverified⟩

theorem Owed.grow {request : Request} {body : Body} (h : Owed crates config db base64 request body) :
    Owed crates config after base64 request body := by
  cases h with
  | health => exact .health
  | raw plain entry => exact .raw plain (entry.grow hgrow)
  | base64 entry => exact .base64 (entry.grow hgrow)
  | range window => exact .range (window.grow hgrow)
  | checkpoints reported => exact .checkpoints fun m hm => (reported m hm).grow hgrow
  | checkpoint reported => exact .checkpoint (reported.grow hgrow)
  | rotationProof sound vouched => exact .rotationProof (sound.grow hgrow) (vouched.grow hgrow.canonicalEntries)
  | itub covers member => exact .itub covers (member.grow hgrow)
  | consistency ordered between => exact .consistency ordered (between.grow hgrow)

end grow

/-! ### On one store -/

section eval
variable [DecidableEq H]

namespace Locked
variable (db : Db)

theorem seriesUsableCheckpoint_eval (treeSize : Nat) : (seriesUsableCheckpoint crates config treeSize).eval db =
    AhlMirror.seriesUsableCheckpoint crates config db treeSize := by
  unfold seriesUsableCheckpoint AhlMirror.seriesUsableCheckpoint
  rw [eval_bind, seriesView_eval]
  refine bind_congr fun view => ?_
  rw [eval_bind, eval_lift]
  refine bind_congr fun _ => ?_
  dsimp only
  split_ifs <;> rfl

theorem getCheckpointHandler_eval (treeSize : Nat) : (getCheckpointHandler crates config treeSize).eval db =
    AhlMirror.getCheckpointHandler crates config db treeSize := by
  unfold getCheckpointHandler AhlMirror.getCheckpointHandler
  rw [eval_bind, seriesView_eval]
  refine bind_congr fun view => ?_
  rw [eval_bind, eval_lift]
  rfl

theorem rotationProofElement_eval (manifestEntryIndex : Nat) :
    (rotationProofElement crates config manifestEntryIndex).eval db =
      AhlMirror.rotationProofElement crates config db manifestEntryIndex := by
  unfold rotationProofElement AhlMirror.rotationProofElement
  rw [eval_bind, eval_query]
  refine bind_congr fun found => ?_
  rw [eval_bind, eval_lift]
  refine bind_congr fun checkpoint => ?_
  rw [eval_bind, seriesView_eval]
  refine bind_congr fun view => ?_
  rw [eval_bind, eval_lift]
  refine bind_congr fun _ => ?_
  rw [eval_bind, eval_query]
  refine bind_congr fun have_ => ?_
  split_ifs
  · rfl
  · simp only [eval_bind, eval_query, eval_lift]
    refine bind_congr fun proof => bind_congr fun root => bind_congr fun leaves => bind_congr fun leaf =>
      bind_congr fun included => ?_
    split_ifs <;> rfl

theorem consistencyHandler_eval (fromSize toSize : Nat) : (consistencyHandler crates config fromSize toSize).eval db =
    AhlMirror.consistencyHandler crates config db fromSize toSize := by
  unfold consistencyHandler AhlMirror.consistencyHandler
  split_ifs
  · rfl
  · rw [eval_bind, seriesUsableCheckpoint_eval]
    refine bind_congr fun fromCp => ?_
    rw [eval_bind, seriesUsableCheckpoint_eval]
    refine bind_congr fun toCp => ?_
    rw [eval_bind, eval_query]
    rfl

theorem respond_eval (request : Request) (hreads : request.Reads) :
    Response.of id ((respond base64 crates config request hreads).eval db) =
      (AhlMirror.respond base64 crates config db request).2 := by
  have hof : ∀ {α : Type} (f : α → Response) (g : α → Except MirrorError Response) (result : MirrorResult α),
      (∀ value, g value = .ok (f value)) → Response.of id (result >>= g) = Response.of f result := by
    intro α f g result hg
    cases result with
    | error e => rfl
    | ok value =>
      rw [ok_bind, hg]
      rfl
  cases request with
  | stage req => exact hreads.elim
  | promote req => exact hreads.elim
  | ingestCheckpoint req => exact hreads.elim
  | health => rfl
  | retrieve entryId encoding =>
    rw [respond, eval_bind, eval_query]
    refine hof _ _ _ fun value => ?_
    cases value with
    | absent => rfl
    | present entryIndex envelope =>
      dsimp only
      split_ifs <;> rfl
  | range req =>
    rw [respond, eval_bind, rangeHandler, eval_bind, seriesUsableCheckpoint_eval]
    exact hof _ _ _ fun _ => rfl
  | listCheckpoints =>
    rw [respond, eval_bind, seriesView_eval]
    exact hof _ _ _ fun _ => rfl
  | getCheckpoint treeSize =>
    rw [respond, eval_bind, getCheckpointHandler_eval]
    exact hof _ _ _ fun _ => rfl
  | rotationProof index =>
    rw [respond, eval_bind, rotationProofElement_eval]
    exact hof _ _ _ fun _ => rfl
  | itub index =>
    rw [respond, eval_bind, itubHandler, eval_bind, seriesView_eval]
    refine hof _ _ _ fun value => ?_
    obtain ⟨_ | cp, stop⟩ := value <;> rfl
  | consistency fromSize toSize =>
    rw [respond, eval_bind, consistencyHandler_eval]
    exact hof _ _ _ fun _ => rfl

end Locked

theorem answer_nil (s : Server H) (request : Request) (hreads : request.Reads) :
    s.answer base64 crates config request hreads [] = (respond base64 crates config s.db request).2 := by
  unfold Server.answer
  rw [amid_nil, Locked.respond_eval]

end eval

/-! ### Between two stores -/

section between
variable (crates config)

/-- What the store of every schedule is. -/
structure Dependable (db : Db) : Prop where
  sound : Sound crates db
  accounted : Accounted crates config db
  bounded : Bounded db

/-- What an event of a schedule makes of its store. -/
def Follows (db after : Db) : Prop :=
  Dependable crates config db ∧ Dependable crates config after ∧ Grows db after

/-- The read began on the one store and ended on the other, and this came out. -/
def Yields {α : Type} (q : Locked.Reads α) (db after : Db) (value : α) : Prop :=
  ∃ states, Across (Follows crates config) q db states (.ok value) ∧ states.getLastD db = after

end between

theorem across_dependable {α : Type} {q : Locked.Reads α} {db : Db} {states : List Db} {result : MirrorResult α}
    (hdb : Dependable crates config db) (h : Across (Follows crates config) q db states result) :
    ∀ u ∈ db :: states, Dependable crates config u ∧ Grows db u ∧ Grows u (states.getLastD db) := by
  intro u hu
  have hkept : Across (fun s t => Dependable crates config s → Dependable crates config t ∧ Grows s t) q db states result :=
    h.mono fun _ _ hfollows _ => hfollows.2
  obtain ⟨hto, hfrom⟩ := hkept.related (fun s hs => ⟨hs, Grows.refl s⟩)
    (fun hst htu hs => ⟨(htu (hst hs).1).1, (hst hs).2.trans (htu (hst hs).1).2⟩) u hu
  exact ⟨(hto hdb).1, (hto hdb).2, (hfrom (hto hdb).1).2⟩

namespace Yields
variable {α β : Type} {q : Locked.Reads α} {f : α → Locked.Reads β} {db after : Db} {a : α} {b : β}

theorem grows (hdb : Dependable crates config db) (h : Yields crates config q db after a) :
    Dependable crates config after ∧ Grows db after := by
  obtain ⟨states, hacross, rfl⟩ := h
  obtain ⟨hlast, hgrow, -⟩ := across_dependable hdb hacross _ List.getLastD_mem_cons
  exact ⟨hlast, hgrow⟩

theorem bind (h : Yields crates config (q >>= f) db after b) :
    ∃ a mid, Yields crates config q db mid a ∧ Yields crates config (f a) mid after b := by
  obtain ⟨states, hacross, rfl⟩ := h
  obtain ⟨a, first, second, rfl, hfirst, hsecond⟩ := hacross.bind_ok
  exact ⟨a, first.getLastD db, ⟨first, hfirst, rfl⟩, second, hsecond, (getLastD_append first second db).symm⟩

theorem map {g : α → β} (h : Yields crates config (q >>= fun a => pure (g a)) db after b) :
    ∃ a, Yields crates config q db after a ∧ g a = b := by
  obtain ⟨states, hacross, hlast⟩ := h
  obtain ⟨a, hfirst, ha⟩ := hacross.map_ok
  exact ⟨a, ⟨states, hfirst, hlast⟩, ha⟩

theorem query_bind {g : Db → MirrorResult α} (hdb : Dependable crates config db)
    (h : Yields crates config (query g >>= f) db after b) :
    ∃ a u, g u = .ok a ∧ Dependable crates config u ∧ Grows db u ∧ Yields crates config (f a) u after b := by
  obtain ⟨states, hacross, rfl⟩ := h
  have hkept := across_dependable hdb hacross
  obtain ⟨a, first, second, rfl, hread, hsecond⟩ := hacross.query_bind_ok
  obtain ⟨hu, hgrow, -⟩ := hkept (first.getLastD db) (mem_states_of_first List.getLastD_mem_cons)
  exact ⟨a, _, hread, hu, hgrow, second, hsecond, (getLastD_append first second db).symm⟩

theorem query {g : Db → MirrorResult α} (hdb : Dependable crates config db)
    (h : Yields crates config (query g) db after a) :
    ∃ u, g u = .ok a ∧ Dependable crates config u ∧ Grows db u ∧ Grows u after := by
  obtain ⟨states, hacross, rfl⟩ := h
  obtain ⟨u, hu, hread⟩ := hacross.query_ok
  exact ⟨u, hread, across_dependable hdb hacross u hu⟩

theorem lift_bind {result : MirrorResult α} (h : Yields crates config (lift result >>= f) db after b) :
    ∃ a, result = .ok a ∧ Yields crates config (f a) db after b := by
  cases result with
  | error e =>
    obtain ⟨states, hacross, -⟩ := h
    cases hacross.done_eq
  | ok a => exact ⟨a, rfl, h⟩

theorem lift {result : MirrorResult α} (h : Yields crates config (lift result) db after a) : result = .ok a := by
  obtain ⟨states, hacross, -⟩ := h
  exact hacross.done_eq

end Yields

/-! ### Each read -/

variable [DecidableEq H]

section reads
variable {db after : Db}

omit [DecidableEq H] in
theorem EntryAt.of_mem (hrep : Represents crates db) {row : EntryRow} (hrow : row ∈ db.entries)
    (hfiled : sha256Id crates row.envelope = row.entryId) : EntryAt crates db row.entryId row.entryIndex row.envelope := by
  obtain ⟨i, hi, rfl⟩ := List.mem_iff_getElem.1 hrow
  rw [hrep.toCanonical.contiguous.getElem hi]
  exact ⟨by rw [canonicalEntries, List.getElem?_map, List.getElem?_eq_getElem hi, Option.map_some], hfiled⟩

omit [DecidableEq H] in
theorem retrieveById_entryAt (hrep : Represents crates db) {entryId : String} {index : Nat} {envelope : Bytes}
    (h : retrieveById crates db entryId = .ok (.present index envelope)) : EntryAt crates db entryId index envelope := by
  unfold retrieveById at h
  cases hget : getEntryById db entryId with
  | none => simp [hget] at h
  | some stored =>
    simp only [hget, ite_error_eq_ok, not_not] at h
    obtain ⟨hfiled, hstored⟩ := h
    obtain ⟨row, hrow, rfl, rfl⟩ := hrep.toCanonical.getEntryById.1 hget
    obtain ⟨rfl, rfl⟩ := Retrieved.present.inj (Except.ok.inj hstored)
    exact .of_mem hrep hrow hfiled

theorem buildRangeResponse_window (hsplit : SplitLaws crates) (hsubtree : SubtreeLaws crates)
    (hrange : RangeLaws crates) (hdb : Dependable crates config db) {cp : Checkpoint}
    (hcp : UsableMember crates config db cp) {req : RangeRequest} (hsize : cp.treeSize = req.treeSize)
    {response : RangeResponse} (h : buildRangeResponse crates db cp req.fromIndex req.toIndex = .ok response) :
    WindowOf crates config db req response := by
  -- the builder refuses any other window
  obtain ⟨hlt, hle⟩ : req.fromIndex < req.toIndex ∧ req.toIndex ≤ cp.treeSize := by
    unfold buildRangeResponse at h
    obtain ⟨⟨built, cost⟩, hin, -⟩ := bind_eq_ok.1 h
    obtain ⟨-, hlt, hle, -⟩ := buildRangeResponseIn_cost hin
    exact ⟨hlt, hle⟩
  have hcanonical : ∀ row ∈ db.entries, CanonicalBytes crates row.envelope := fun row hrow =>
    (hdb.accounted.entries row hrow).1.2.canonical
  obtain ⟨hheld, hroot⟩ := hcp.usable rfl
  obtain ⟨entries, hwindow⟩ := windowed_of_root hrange hcanonical hheld (hdb.bounded.checkpoints cp hcp.recorded) hroot hlt hle
  obtain rfl := Except.ok.inj (h.symm.trans (hwindow.buildRangeResponse hsplit hsubtree hdb.sound.represents))
  exact ⟨rfl, hsize, hcp, ⟨hlt, hsize ▸ hle⟩, hwindow.canonical, hwindow.verifyRangeResponse hrange⟩

omit [DecidableEq H] in
theorem consistencyProofMeasuredRaw_between (hgenerate : ConsistencyProofLaws crates)
    (hconsistency : ConsistencyLaws crates) (hdb : Dependable crates config db)
    {fromCp toCp : Checkpoint} (hfrom : UsableMember crates config db fromCp) (hto : UsableMember crates config db toCp)
    (hle : fromCp.treeSize ≤ toCp.treeSize) {proof : ConsistencyProof H} {treeNodes : Nat}
    (h : consistencyProofMeasuredRaw crates db fromCp.treeSize toCp.treeSize = .ok (proof, treeNodes)) :
    PathBetween crates config db fromCp toCp (proof.path.map hashText) := by
  obtain ⟨hfromHeld, hfromRoot⟩ := hfrom.usable rfl
  obtain ⟨htoHeld, htoRoot⟩ := hto.usable rfl
  have hone := hdb.sound.positive fromCp hfrom.recorded
  obtain ⟨treeNodes', hgenuine⟩ := hdb.sound.represents.consistencyProofMeasuredRaw hgenerate hle htoHeld
    (hdb.bounded.checkpoints toCp hto.recorded)
  obtain ⟨rfl, -⟩ := Prod.mk.inj (Except.ok.inj (h.symm.trans hgenuine))
  refine ⟨hfrom, hto, _, _, _, rfl, hfromRoot, htoRoot, ?_⟩
  dsimp only at hfromHeld htoHeld
  rw [mth_leafHashes crates hone hfromHeld, mth_leafHashes crates (hone.trans hle) htoHeld]
  exact hconsistency.verifyConsistency (leafAt crates db) _ _ hone hle

theorem inclusionProofRaw_sound (hgenerate : InclusionProofLaws crates) (hpath : PathLaws crates)
    (hopens : InclusionVerifyLaws crates) (hrep : Represents crates db)
    {index : Nat} {cp : Checkpoint} (hindex : index < cp.treeSize) (hheld : cp.treeSize ≤ db.entries.length)
    {proof : InclusionProof H} (hproof : inclusionProofRaw crates db index cp.treeSize = .ok proof) {claimed : H}
    (hclaimed : crates.parseHashHex cp.rootHash = .ok claimed)
    (hincluded : crates.verifyInclusion (leafAt crates db index) proof claimed = .ok true) :
    SoundElement crates db ⟨index, cp, crates.proofPathHex proof⟩ := by
  obtain rfl := Except.ok.inj (hproof.symm.trans (hrep.inclusionProofRaw hgenerate hindex hheld))
  have hroot : mth crates.hashChildren (crates.digest []) ((leafHashes crates db).take cp.treeSize) = claimed := by
    rw [mth_leafHashes crates (by omega) hheld]
    by_contra hne
    exact auditPath_rejected hopens hindex hne hincluded
  have hlt : index < (canonicalEntries db).length := by
    rw [length_canonicalEntries]
    omega
  have hentry := List.getElem?_eq_getElem hlt
  have hverified := verifyInclusionFor_auditPath hpath hindex hheld hentry
  rw [hroot] at hverified
  exact ⟨hindex, hheld, hclaimed.trans (congrArg Except.ok hroot.symm), _, claimed, hentry, hclaimed, hverified⟩

end reads

/-! ### Each route -/

section routes
variable (hprover : ViewLaws crates) (hconsistency : ConsistencyLaws crates) {db after : Db}
  (hdb : Dependable crates config db)
include hprover hconsistency hdb

namespace Locked

/-- What a view reports is so when it ends, and so are the bounds it gives. -/
theorem seriesView_yields {view : SeriesView} (h : Yields crates config (seriesView crates config) db after view) :
    (∀ m ∈ view.members, ReportedMember crates config after m) ∧
      ∀ index cp, itub view index = some cp → index < cp.treeSize ∧ UsableMember crates config after cp := by
  obtain ⟨states, hacross, rfl⟩ := h
  have hkept := across_dependable hdb hacross
  obtain ⟨u, v, t, hseen⟩ := hdb.sound.seen hprover hconsistency
    (hacross.mono fun _ _ hfollows _ => ⟨hfollows.2.1.sound, hfollows.2.2⟩)
  have hmembers : ∀ m ∈ view.members, ReportedMember crates config (states.getLastD db) m := by
    intro m hm
    obtain ⟨hu, -, hgrow⟩ := hkept u hseen.listed
    have hrow := hseen.row hm
    exact ⟨hgrow.checkpoints.subset hrow, (hu.accounted.checkpoints _ hrow).grow hgrow.canonicalEntries,
      fun hstate => (hseen.counted_end hm hstate).2.2⟩
  refine ⟨hmembers, fun index cp hbound => ?_⟩
  obtain ⟨hm, hcovers, -⟩ := hseen.bound hbound
  exact ⟨hcovers, hmembers _ hm⟩

theorem seriesUsableCheckpoint_yields {treeSize : Nat} {cp : Checkpoint}
    (h : Yields crates config (seriesUsableCheckpoint crates config treeSize) db after cp) :
    cp.treeSize = treeSize ∧ UsableMember crates config after cp := by
  obtain ⟨view, viewed, hview, h⟩ := h.bind
  obtain ⟨_, -, h⟩ := h.lift_bind
  have hgrow := (h.grows (hview.grows hdb).1).2
  dsimp only at h
  split_ifs at h
  · cases h.lift
  · obtain ⟨⟨_, state⟩, hfound, rfl⟩ := Option.map_eq_some_iff.1 (okOr_eq_ok.1 h.lift)
    obtain ⟨hmem, hsize⟩ := List.mem_filter.1 (List.mem_of_find?_eq_some hfound)
    obtain rfl : state = .seriesUsable := by simpa using List.find?_some hfound
    exact ⟨by simpa using hsize, ((seriesView_yields hprover hconsistency hdb hview).1 _ hmem).grow hgrow⟩

theorem getCheckpointHandler_yields {treeSize : Nat} {m : ReportedCheckpoint}
    (h : Yields crates config (getCheckpointHandler crates config treeSize) db after m) :
    m.checkpoint.treeSize = treeSize ∧ ReportedMember crates config after m := by
  obtain ⟨view, viewed, hview, h⟩ := h.bind
  obtain ⟨_, -, h⟩ := h.lift_bind
  have hgrow := (h.grows (hview.grows hdb).1).2
  obtain ⟨hmem, hsize⟩ := List.mem_filter.1 (latestMember_mem (okOr_eq_ok.1 h.lift))
  exact ⟨by simpa using hsize, ((seriesView_yields hprover hconsistency hdb hview).1 _ hmem).grow hgrow⟩

theorem rangeHandler_yields (hsplit : SplitLaws crates) (hrange : RangeLaws crates) {req : RangeRequest} {response : RangeResponse}
    (h : Yields crates config (rangeHandler crates config req) db after response) :
    WindowOf crates config after req response := by
  obtain ⟨cp, chosen, hchosen, h⟩ := h.bind
  obtain ⟨hsize, hcp⟩ := seriesUsableCheckpoint_yields hprover hconsistency hdb hchosen
  obtain ⟨u, hbuilt, hu, hbefore, hafter⟩ := h.query (hchosen.grows hdb).1
  exact (buildRangeResponse_window hsplit hprover.toSubtreeLaws hrange hu (hcp.grow hbefore) hsize hbuilt).grow hafter

theorem consistencyHandler_yields {fromSize toSize : Nat} {nodes : List H}
    (h : Yields crates config (consistencyHandler crates config fromSize toSize) db after nodes) : ∃ fromCp toCp,
      fromCp.treeSize = fromSize ∧ toCp.treeSize = toSize ∧ fromSize ≤ toSize ∧
        PathBetween crates config after fromCp toCp (nodes.map hashText) := by
  unfold consistencyHandler at h
  split_ifs at h with horder
  · cases h.lift
  · obtain ⟨fromCp, first, hfrom, h⟩ := h.bind
    obtain ⟨toCp, second, hto, h⟩ := h.bind
    have hfirst := (hfrom.grows hdb).1
    obtain ⟨hsecond, hgrow⟩ := hto.grows hfirst
    obtain ⟨hfromSize, hfromCp⟩ := seriesUsableCheckpoint_yields hprover hconsistency hdb hfrom
    obtain ⟨htoSize, htoCp⟩ := seriesUsableCheckpoint_yields hprover hconsistency hfirst hto
    obtain ⟨⟨proof, treeNodes⟩, u, hproof, hu, hbefore, h⟩ := h.query_bind hsecond
    have hbetween := consistencyProofMeasuredRaw_between hprover.toConsistencyProofLaws hconsistency hu ((hfromCp.grow hgrow).grow hbefore)
      (htoCp.grow hbefore) (by omega) hproof
    obtain rfl := Except.ok.inj h.lift
    exact ⟨fromCp, toCp, hfromSize, htoSize, by omega, hbetween.grow (h.grows hu).2⟩

omit hprover hconsistency in
/-- The anchor, the count, the path and the leaf are each read in a store no earlier than the one before. -/
theorem rotationProofElement_yields (hgenerate : InclusionProofLaws crates) (hpath : PathLaws crates)
    (hopens : InclusionVerifyLaws crates) {index : Nat}
    {element : RotationProofElement}
    (h : Yields crates config (rotationProofElement crates config index) db after element) :
    element.manifestEntryIndex = index ∧ SoundElement crates after element ∧
      VouchedAnchor crates config after (index, element.checkpoint) := by
  obtain ⟨found, anchored, hget, hanchored, -, h⟩ := h.query_bind hdb
  obtain ⟨cp, hfound, h⟩ := h.lift_bind
  rw [okOr_eq_ok.1 hfound] at hget
  have hrow := getRotationCheckpoint_mem hget
  obtain ⟨hcovers, hsize⟩ : index < cp.treeSize ∧ cp.treeSize < i64Bound := hanchored.bounded.rotations _ hrow
  have hvouched := (hanchored.accounted.rotations _ hrow).grow (h.grows hanchored).2.canonicalEntries
  obtain ⟨view, viewed, hview, h⟩ := h.bind
  obtain ⟨_, -, h⟩ := h.lift_bind
  obtain ⟨have_, counted, hcount, hcounted, -, h⟩ := h.query_bind (hview.grows hanchored).1
  split_ifs at h with hhave
  · cases h.lift
  have hheld : cp.treeSize ≤ counted.entries.length := by
    rw [hcounted.sound.represents.toCanonical.countEntriesRaw hsize] at hcount
    have := Except.ok.inj hcount
    omega
  obtain ⟨proof, opened, hproof, hopened, hgrow, h⟩ := h.query_bind hcounted
  have hheld : cp.treeSize ≤ opened.entries.length := hheld.trans hgrow.entries.length_le
  obtain ⟨claimed, hclaimed, h⟩ := h.lift_bind
  obtain ⟨leaves, read, hleaves, hread, hgrow, h⟩ := h.query_bind hopened
  obtain ⟨leaf, hleaf, h⟩ := h.lift_bind
  obtain ⟨included, hincluded, h⟩ := h.lift_bind
  have hnext : saturatingAdd index 1 = index + 1 := saturatingAdd_of_lt (by
    have := i64Bound_lt_u64Bound
    omega)
  -- the leaf is that of the store the path was built in
  have hsame : leaf = leafAt crates opened index := by
    rw [hnext, hread.sound.represents.leafHashesRangeRaw (by omega) (by omega)] at hleaves
    rw [← Except.ok.inj hleaves, head?_leafHashes (by have := hgrow.entries.length_le; omega)] at hleaf
    rw [← Option.some.inj (okOr_eq_ok.1 hleaf)]
    exact Later.leafAt ⟨hgrow, hopened.sound.represents, hread.sound.represents⟩ (by omega)
  split_ifs at h with htrue
  · cases h.lift
  have htrue : included = true := by simpa using htrue
  rw [hsame, htrue] at hincluded
  have hsound := inclusionProofRaw_sound hgenerate hpath hopens hopened.sound.represents hcovers hheld hproof
    (mapErr_eq_ok.1 hclaimed) (mapErr_eq_ok.1 hincluded)
  obtain rfl := Except.ok.inj h.lift
  exact ⟨rfl, (hsound.grow hgrow).grow (h.grows hread).2, hvouched⟩

/-- What a read route answers with success is so when it ends. -/
theorem respond_owed (hsplit : SplitLaws crates) (hgenerate : InclusionProofLaws crates) (hpath : PathLaws crates)
    (hopens : InclusionVerifyLaws crates) (hrange : RangeLaws crates)
    {request : Request} {hreads : request.Reads} {response : Response} (hok : response.status = .ok)
    (h : Yields crates config (respond base64 crates config request hreads) db after response) :
    Owed crates config after base64 request response.body := by
  cases request with
  | stage req => exact hreads.elim
  | promote req => exact hreads.elim
  | ingestCheckpoint req => exact hreads.elim
  | health =>
    obtain rfl := Except.ok.inj h.lift
    exact .health
  | retrieve entryId encoding =>
    obtain ⟨retrieved, u, hretrieved, hu, -, h⟩ := h.query_bind hdb
    have hgrow := (h.grows hu).2
    cases retrieved with
    | absent =>
      obtain rfl := Except.ok.inj h.lift
      cases hok
    | present index envelope =>
      have hentry := (retrieveById_entryAt hu.sound.represents hretrieved).grow hgrow
      dsimp only at h
      split_ifs at h with hencoding
      · obtain rfl := Except.ok.inj h.lift
        exact hencoding ▸ .base64 hentry
      · obtain rfl := Except.ok.inj h.lift
        exact .raw hencoding hentry
  | range req =>
    obtain ⟨built, hbuilt, rfl⟩ := h.map
    exact .range (rangeHandler_yields hprover hconsistency hdb hsplit hrange hbuilt)
  | listCheckpoints =>
    obtain ⟨view, hview, rfl⟩ := h.map
    exact .checkpoints (seriesView_yields hprover hconsistency hdb hview).1
  | getCheckpoint treeSize =>
    obtain ⟨m, hm, rfl⟩ := h.map
    obtain ⟨rfl, hreported⟩ := getCheckpointHandler_yields hprover hconsistency hdb hm
    exact .checkpoint hreported
  | rotationProof index =>
    obtain ⟨element, helement, rfl⟩ := h.map
    obtain ⟨rfl, hsound, hvouched⟩ := rotationProofElement_yields hdb hgenerate hpath hopens helement
    exact .rotationProof hsound hvouched
  | itub index =>
    obtain ⟨⟨bound, stop⟩, mid, hitub, h⟩ := h.bind
    have hgrow := (h.grows (hitub.grows hdb).1).2
    obtain ⟨view, hview, hbound⟩ := hitub.map
    cases bound with
    | none =>
      obtain rfl := Except.ok.inj h.lift
      cases hok
    | some cp =>
      obtain rfl := Except.ok.inj h.lift
      obtain ⟨hcovers, hmember⟩ := (seriesView_yields hprover hconsistency hdb hview).2 index cp (Prod.mk.inj hbound).1
      exact .itub hcovers (hmember.grow hgrow)
  | consistency fromSize toSize =>
    obtain ⟨nodes, hnodes, rfl⟩ := h.map
    obtain ⟨fromCp, toCp, rfl, rfl, hle, hbetween⟩ := consistencyHandler_yields hprover hconsistency hdb hnodes
    exact .consistency hle hbetween

end Locked

end routes

/-! ### Each answer -/

theorem serverAfter_dependable (crates : Crates H K) (config : Config K) (schedule : List Event) :
    Dependable crates config (serverAfter crates config schedule).db :=
  ⟨(serverAfter_written crates config schedule).sound, serverAfter_accounted crates config schedule,
    serverAfter_bounded crates config schedule⟩

variable (crates config) in
/-- Some schedule leads to the server. -/
def Scheduled (s : Server H) : Prop := ∃ schedule, serverAfter crates config schedule = s

theorem follows_next (crates : Crates H K) (config : Config K) (s : Server H) (event : Event)
    (hs : Scheduled crates config s) : Scheduled crates config ((server crates config).next s event) ∧
      Follows crates config s.db ((server crates config).next s event).db := by
  obtain ⟨schedule, rfl⟩ := hs
  have hnext : serverAfter crates config (schedule ++ [event]) =
      (server crates config).next (serverAfter crates config schedule) event := Machine.exec_append _ _ _ _
  rw [← hnext]
  exact ⟨⟨_, rfl⟩, serverAfter_dependable crates config _, serverAfter_dependable crates config _,
    serverAfter_grows crates config schedule [event]⟩

/-- **Every answer is of one log.** A read request arrives after any schedule, and any events come before each of its
reads. What it answers with success is true of the store it ends on and of every later one: an entry is at its index
under its hash; a window holds the log's entries and verifies under a usable member; a path proves two usable members
consistent; an anchor has the root of the entries. -/
theorem answers_of_one_log (hprover : ViewLaws crates) (hsplit : SplitLaws crates)
    (hgenerate : InclusionProofLaws crates) (hconsistency : ConsistencyLaws crates) (hpath : PathLaws crates)
    (hopens : InclusionVerifyLaws crates) (hrange : RangeLaws crates) (base64 : Base64)
    (before : List Event) (batches : List (List Event)) (later : List Event) (request : Request) (hreads : request.Reads)
    (hok : ((serverAfter crates config before).answer base64 crates config request hreads batches).status = .ok) :
    Owed crates config (serverAfter crates config (before ++ batches.flatten ++ later)).db base64 request
      ((serverAfter crates config before).answer base64 crates config request hreads batches).body := by
  obtain ⟨response, hresponse⟩ := of_succeeded (Or.inl hok)
  have hanswer : (serverAfter crates config before).answer base64 crates config request hreads batches = response := by
    unfold Server.answer
    rw [hresponse]
    rfl
  rw [hanswer] at hok ⊢
  obtain ⟨states, hacross, hlast⟩ := across_amid (follows_next crates config)
    (Locked.respond base64 crates config request hreads) batches ⟨before, rfl⟩
  rw [hresponse] at hacross
  have howed := Locked.respond_owed hprover hconsistency (serverAfter_dependable crates config before) hsplit hgenerate
    hpath hopens hrange hok
    ⟨states, hacross, hlast⟩
  rw [← Machine.exec_append] at howed
  exact howed.grow (serverAfter_grows crates config (before ++ batches.flatten) later)

namespace Symbolic

/-- The second entry comes after the list of checkpoints was read, and the third after a restart. -/
def secondMeanwhile : List (List Event) := [[], oneAtATime [promote 2 (pending [[1], [5]] 1)]]

def thirdLater : List Event := .restart :: oneAtATime [promote 3 (pending [[1], [5], [6]] 2)]

/-- A path to the second checkpoint, asked for before it was usable. -/
def pathAnswer : Response := (serverAfter (Symbolic.crates documents) Symbolic.config (oneAtATime arriving)).answer standard
  (Symbolic.crates documents) Symbolic.config (.consistency 1 2) trivial secondMeanwhile

end Symbolic

theorem answers_of_one_log_meanwhile : Owed (Symbolic.crates Symbolic.documents) Symbolic.config
    (serverAfter (Symbolic.crates Symbolic.documents) Symbolic.config
      (oneAtATime Symbolic.arriving ++ Symbolic.secondMeanwhile.flatten ++ Symbolic.thirdLater)).db
    Symbolic.standard (.consistency 1 2) Symbolic.pathAnswer.body := by
  refine answers_of_one_log (Symbolic.viewLaws _) (Symbolic.splitLaws _) (Symbolic.inclusionProofLaws _)
    (Symbolic.consistencyLaws _) (Symbolic.pathLaws _)
    (Symbolic.inclusionVerifyLaws _) (Symbolic.rangeLaws _) Symbolic.standard (oneAtATime Symbolic.arriving)
    Symbolic.secondMeanwhile Symbolic.thirdLater (.consistency 1 2) trivial ?_
  rw [serverAfter_oneAtATime]
  decide +kernel

end AhlMirror
