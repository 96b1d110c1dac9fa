import AhlMirror.Store.Missing
import AhlMirror.Store.RangeResponse
import AhlMirror.Store.Representation

/-!
# History is immutable

Over the life of a database file, calls and openings alike, the tables only grow at their end: no
statement of an opening changes more than what is derived (`openStore_leaves`). Two open stores of one
life are one `Later` than the other, and what the earlier one answers of its entries the later one answers
too, since a node that was held is complete in both.
-/

namespace AhlMirror

open AhlMirror.Core.Committing (Leaves statement)
open Merkle

/-- The database without what is derived from its envelopes. -/
def Db.underived (db : Db) : Db :=
  { db with entriesSchema := .current, entries := db.entries.map fun row => { row with leafHash := none }, subtreeRoots := [] }

/-- The database without its leaf hashes. -/
def Db.unhashed (db : Db) : Db :=
  { db with entriesSchema := .current, entries := db.entries.map fun row => { row with leafHash := none } }

/-- The database without its cache. -/
def Db.uncached (db : Db) : Db := { db with subtreeRoots := [] }

variable {H K : Type} [HashOctets H] {crates : Crates H K}

/-! ### Openings -/

theorem Grows.underived {db after : Db} (h : Grows db after) : Grows db.underived after.underived :=
  ⟨h.staged, h.entries.map _, h.checkpoints, h.rotationCheckpoints⟩

theorem foldLevel_leaves (level : Nat) : ∀ (pairs : List (H × H)) (next : Nat),
    Leaves Db.uncached (foldLevel crates level next pairs)
  | [], _ => Leaves.pure _
  | (left, right) :: rest, next => by
    refine Leaves.bind ?_ fun _ => (foldLevel_leaves level rest (next + 1)).bind fun _ => Leaves.pure _
    apply Leaves.statement
    intro db after hok
    unfold insertSubtreeRow at hok
    simp only [bind_eq_ok, ite_error_eq_ok] at hok
    obtain ⟨_, -, -, hok⟩ := hok
    obtain rfl := Except.ok.inj hok
    rfl

theorem rebuildLoop_leaves : ∀ (fuel level : Nat) (current : List H), Leaves Db.uncached (rebuildLoop crates fuel level current)
  | 0, _, _ => Leaves.pure _
  | fuel + 1, level, current => by
    rw [rebuildLoop]
    split_ifs
    · exact (foldLevel_leaves level _ 0).bind fun next => rebuildLoop_leaves fuel (level + 1) next
    · exact Leaves.pure _

theorem rebuildSubtreeCacheIfIncomplete_leaves : Leaves Db.uncached (rebuildSubtreeCacheIfIncomplete crates) := by
  refine (Leaves.query _).bind fun entries => (Leaves.query _).bind fun complete => ?_
  split_ifs
  · exact Leaves.pure _
  · refine Leaves.bind ?_ fun _ =>
      (Leaves.query _).bind fun current => rebuildLoop_leaves (MAX_SUBTREE_LEVEL + 1) 1 current
    apply Leaves.statement
    intro db after hok
    obtain rfl := Except.ok.inj hok
    rfl

theorem createEntriesTable_leaves :
    Leaves Db.unhashed (statement fun db => .ok (createEntriesTable db) : Migration Unit) := by
  apply Leaves.statement
  intro db after hok
  obtain rfl := Except.ok.inj hok
  unfold createEntriesTable
  split <;> rfl

theorem addLeafHashColumn_leaves : Leaves Db.unhashed addLeafHashColumn := by
  refine (Leaves.query _).bind fun schema => ?_
  split_ifs
  · exact Leaves.pure _
  · apply Leaves.statement
    intro db after hok
    obtain rfl := Except.ok.inj hok
    unfold Db.unhashed
    rw [List.map_map]
    rfl

theorem backfillLoop_leaves : ∀ fuel : Nat, Leaves Db.unhashed (backfillLoop crates fuel)
  | 0 => Leaves.pure _
  | fuel + 1 => by
    refine (Leaves.query _).bind fun batch => ?_
    split_ifs
    · exact Leaves.pure _
    · refine (Leaves.forEach (fun row => ?_) batch).bind fun _ => backfillLoop_leaves fuel
      apply Leaves.statement
      intro db after hok
      obtain rfl := Except.ok.inj hok
      unfold updateLeafHash Db.unhashed
      rw [List.map_map]
      congr 1
      apply List.map_congr_left
      intro held _
      dsimp only [Function.comp]
      split_ifs <;> rfl

theorem backfillLeafHashes_leaves : Leaves Db.unhashed (backfillLeafHashes crates) :=
  (Leaves.query _).bind fun unfilled => backfillLoop_leaves (unfilled + 1)

theorem openStore_leaves : Leaves Db.underived (openStore crates) :=
  (createEntriesTable_leaves.comp Db.uncached).bind fun _ => (addLeafHashColumn_leaves.comp Db.uncached).bind fun _ =>
    (backfillLeafHashes_leaves.comp Db.uncached).bind fun _ => rebuildSubtreeCacheIfIncomplete_leaves.comp Db.unhashed

/-! ### The life of a file -/

variable [DecidableEq H] {config : Config K}

variable (crates config) in
/-- One step in the life of a database file: an opening interrupted or completed, a call, a close. -/
inductive DiskStep : Bool × Db → Bool × Db → Prop
  | interrupted {db after : Db} : after ∈ (openStore crates db).committed → DiskStep (false, db) (false, after)
  | opened {db after : Db} : (openStore crates db).result = .ok ((), after) → DiskStep (false, db) (true, after)
  | called {db : Db} (call : StoreCall) : DiskStep (true, db) (true, call.after crates config db)
  | closed {db : Db} : DiskStep (true, db) (false, db)

variable (crates config) in
/-- The steps from one state of a file to a later one. -/
abbrev Lives : Bool × Db → Bool × Db → Prop := Relation.ReflTransGen (DiskStep crates config)

theorem DiskState.step {s t : Bool × Db} (h : DiskState crates config s.1 s.2) (hstep : DiskStep crates config s t) :
    DiskState crates config t.1 t.2 := by
  cases hstep with
  | interrupted hmem => exact .interrupted h hmem
  | opened hok => exact .opened h hok
  | called call => exact .called call h
  | closed => exact .closed h

theorem Lives.grows {s t : Bool × Db} (h : DiskState crates config s.1 s.2) (hlives : Lives crates config s t) :
    DiskState crates config t.1 t.2 ∧ Grows s.2.underived t.2.underived := by
  induction hlives with
  | refl => exact ⟨h, Grows.refl _⟩
  | tail _ hstep ih =>
    obtain ⟨hstate, hgrow⟩ := ih
    refine ⟨hstate.step hstep, hgrow.trans ?_⟩
    cases hstep with
    | @interrupted db after hmem =>
      rw [(openStore_leaves _ db rfl).1 after hmem]
      exact Grows.refl _
    | @opened db after hok =>
      rw [(openStore_leaves _ db rfl).2 () after hok]
      exact Grows.refl _
    | called call => exact (call.represents config (hstate.invariant.2 rfl)).2.underived
    | closed => exact Grows.refl _

/-! ### An earlier and a later store -/

variable (crates) in
/-- Two open stores, the tables of the second extending those of the first. -/
structure Later (db after : Db) : Prop extends Grows db after where
  before : Represents crates db
  represents : Represents crates after

omit [DecidableEq H] in
theorem Represents.entries_eq {db : Db} (h : Represents crates db) : db.entries =
    db.underived.entries.map fun row => { row with leafHash := some (asSlice (logLeafHash crates row.envelope)) } := by
  unfold Db.underived
  rw [List.map_map]
  symm
  calc _ = db.entries.map id := List.map_congr_left fun row hrow => by
        show EntryRow.mk _ _ _ _ = row
        rw [← h.leafHash row hrow]
    _ = db.entries := List.map_id _

theorem DiskState.later {db after : Db} (h : DiskState crates config true db)
    (hlives : Lives crates config (true, db) (true, after)) : Later crates db after := by
  obtain ⟨hafter, hgrow⟩ := Lives.grows h hlives
  have hbefore := h.invariant.2 rfl
  have hrepresents := hafter.invariant.2 rfl
  refine ⟨⟨hgrow.staged, ?_, hgrow.checkpoints, hgrow.rotationCheckpoints⟩, hbefore, hrepresents⟩
  rw [hbefore.entries_eq, hrepresents.entries_eq]
  exact hgrow.entries.map _

omit [DecidableEq H]

namespace Later
variable {db after : Db} (h : Later crates db after)
include h

/-! ### Rows -/

theorem leafAt {index : Nat} (hindex : index < db.entries.length) :
    leafAt crates after index = leafAt crates db index := by
  obtain ⟨rows, hrows⟩ := h.entries
  exact leafAt_append crates hrows.symm hindex

theorem getEntryById {entryId : String} {stored : StoredEntry} (hread : getEntryById db entryId = some stored) :
    AhlMirror.getEntryById after entryId = some stored := by
  obtain ⟨rows, hrows⟩ := h.entries
  unfold AhlMirror.getEntryById at hread ⊢
  obtain ⟨row, hfind, rfl⟩ := Option.map_eq_some_iff.1 hread
  rw [← hrows, List.find?_append, hfind]
  rfl

theorem entryRows (start : Nat) {stop : Nat} (hstop : stop ≤ db.entries.length) :
    entryRows after start stop = entryRows db start stop := by
  obtain ⟨rows, hrows⟩ := h.entries
  rw [h.represents.toCanonical.entryRows, h.before.toCanonical.entryRows, ← hrows, List.take_append_of_le_length hstop]

theorem rangeQuery {α : Type} (f : List EntryRow → MirrorResult α) (start : Nat) {stop : Nat}
    (hstop : stop ≤ db.entries.length) :
    (toI64 "from_index" start >>= fun start => toI64 "to_index" stop >>= fun stop => f (AhlMirror.entryRows after start stop)) =
      toI64 "from_index" start >>= fun start => toI64 "to_index" stop >>= fun stop => f (AhlMirror.entryRows db start stop) := by
  apply bind_congr
  intro start
  unfold toI64
  split_ifs
  · simp only [ok_bind]
    rw [h.entryRows start hstop]
  · rfl

theorem getEntriesRangeRaw (start : Nat) {stop : Nat} (hstop : stop ≤ db.entries.length) :
    getEntriesRangeRaw after start stop = getEntriesRangeRaw db start stop :=
  h.rangeQuery (fun rows => .ok (rows.map EntryRow.envelope)) start hstop

theorem countEntriesRaw (start : Nat) {stop : Nat} (hstop : stop ≤ db.entries.length) :
    countEntriesRaw after start stop = countEntriesRaw db start stop :=
  h.rangeQuery (fun rows => .ok rows.length) start hstop

theorem leafHashesRangeRaw (start : Nat) {stop : Nat} (hstop : stop ≤ db.entries.length) :
    leafHashesRangeRaw (H := H) after start stop = leafHashesRangeRaw db start stop :=
  h.rangeQuery _ start hstop

/-! ### Nodes -/

theorem treeNodeRaw {level index : Nat} (hcomplete : (index + 1) * 2 ^ level ≤ db.entries.length) :
    treeNodeRaw (H := H) after level index = treeNodeRaw db level index := by
  have hlength := h.entries.length_le
  have hindex := h.before.index_lt hcomplete
  rw [h.represents.treeNodeRaw hindex, h.before.treeNodeRaw hindex, if_pos hcomplete, if_pos (hcomplete.trans hlength),
    nodeRoot_congr crates.hashChildren hcomplete fun i hi => h.leafAt hi]

theorem treeNodeRaw_cases (level index : Nat) :
    AhlMirror.treeNodeRaw (H := H) after level index = AhlMirror.treeNodeRaw db level index ∨
      AhlMirror.treeNodeRaw (H := H) db level index = .ok none ∧ (index + 1) * 2 ^ level ≤ i64Bound := by
  by_cases hcomplete : (index + 1) * 2 ^ level ≤ db.entries.length
  · exact Or.inl (h.treeNodeRaw hcomplete)
  · by_cases hindex : index < i64Bound
    · rw [h.represents.treeNodeRaw hindex, h.before.treeNodeRaw hindex, if_neg hcomplete]
      split_ifs with hlater
      · exact Or.inr ⟨rfl, hlater.trans h.represents.representable⟩
      · exact Or.inl rfl
    · left
      unfold AhlMirror.treeNodeRaw toI64
      rw [if_neg hindex]
      rfl

/-- A computation over stored nodes that came out of the earlier store comes out of the later one: a node
that it missed was above its bound. -/
theorem withTreeNodes {α : Type} {bound : Nat} {f : NodeQuery H (Except AtlError α)} {out : α × Nat}
    (hasks : f.Asks fun level index => (index + 1) * 2 ^ level ≤ i64Bound → (index + 1) * 2 ^ level ≤ bound)
    (hread : withTreeNodes db bound f = .ok out) : AhlMirror.withTreeNodes after bound f = .ok out := by
  have hu64 := i64Bound_lt_u64Bound
  have hanswer : ∀ (level index : Nat) (reads : NodeReads),
      ((index + 1) * 2 ^ level ≤ i64Bound → (index + 1) * 2 ^ level ≤ bound) → True →
      (getNode (H := H) db bound level index reads = getNode after bound level index reads ∧ True) ∨
        (getNode (H := H) db bound level index reads).2.failure.isSome := by
    intro level index reads hle _
    rcases h.treeNodeRaw_cases level index with hsame | ⟨hnone, hlast⟩
    · refine Or.inl ⟨?_, trivial⟩
      unfold getNode
      rw [hsame]
    · right
      rw [getNode, hnone]
      dsimp only
      rw [nodeIsComplete_of_le (hlast.trans_lt hu64) (hle hlast), if_pos rfl]
      unfold NodeReads.record
      cases hfailure : reads.failure with
      | none => rfl
      | some e =>
        dsimp only
        rw [hfailure]
        rfl
  have hstay : ∀ (level index : Nat) (reads : NodeReads), reads.failure.isSome →
      (getNode (H := H) db bound level index reads).2.failure.isSome := by
    intro level index reads hreads
    obtain ⟨e, he⟩ := Option.isSome_iff_exists.1 hreads
    rw [getNode_failure he]
    rfl
  rcases NodeQuery.run_congr_or_flagged (I := fun _ => True) hstay hanswer hasks (s := ⟨none, 0⟩) trivial
    with hsame | hflag
  · unfold AhlMirror.withTreeNodes at hread ⊢
    rwa [← hsame]
  · obtain ⟨e, he⟩ := Option.isSome_iff_exists.1 hflag
    rw [withTreeNodes_of_failure he] at hread
    cases hread

theorem withTreeNodes_held {α : Type} {bound : Nat} (hbound : bound ≤ db.entries.length)
    {f : NodeQuery H (Except AtlError α)} (hasks : f.Asks fun level index => (index + 1) * 2 ^ level ≤ bound) :
    AhlMirror.withTreeNodes after bound f = AhlMirror.withTreeNodes db bound f := by
  have hanswer : ∀ (level index : Nat) (reads : NodeReads), (index + 1) * 2 ^ level ≤ bound →
      getNode (H := H) after bound level index reads = getNode db bound level index reads := by
    intro level index reads hle
    unfold getNode
    rw [h.treeNodeRaw (hle.trans hbound)]
  unfold AhlMirror.withTreeNodes
  rw [NodeQuery.run_congr hanswer hasks]

end Later

end AhlMirror
