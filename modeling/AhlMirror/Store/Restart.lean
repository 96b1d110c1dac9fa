import AhlMirror.Store.Reopening

/-!
# Opening a store that was open before

An opening finds nothing to do on a store an opening left, whatever requests were served on it since: the
column is there, no row lacks its leaf hash, and the cache passes the check because an exact cache has one
row for each complete node.
-/

namespace AhlMirror

open AhlMirror.Core.Committing (Completes Keeps Leaves query statement)

variable {H K : Type} {crates : Crates H K}

theorem CacheExact.length [HashOctets H] {leaf : Nat → H} {n : Nat} {rows : List SubtreeRow}
    (h : CacheExact crates leaf n rows) (hn : n ≤ i64Bound) : rows.length = (completeNodes n).card := by
  let position : SubtreeRow → Σ _ : Nat, Nat := fun row => ⟨row.level.toNat, row.nodeIndex.toNat⟩
  have hposition : ∀ l j, position (nodeRow crates leaf l j) = ⟨l, j⟩ := fun l j => by simp [position, nodeRow]
  have hnodup : (rows.map position).Nodup := by
    refine List.Nodup.map_on (fun a ha b hb hsame => ?_) h.keys.of_map
    obtain ⟨l, j, -, rfl⟩ := h.complete a ha
    obtain ⟨l', j', -, rfl⟩ := h.complete b hb
    rw [hposition, hposition] at hsame
    obtain ⟨rfl, hj⟩ := Sigma.mk.inj_iff.1 hsame
    rw [eq_of_heq hj]
  have hnodes : (rows.map position).toFinset = completeNodes n := by
    ext ⟨level, index⟩
    rw [List.mem_toFinset, mem_completeNodes hn, List.mem_map]
    constructor
    · rintro ⟨row, hrow, hat⟩
      obtain ⟨l, j, hcomplete, rfl⟩ := h.complete row hrow
      rw [hposition] at hat
      obtain ⟨rfl, hj⟩ := Sigma.mk.inj_iff.1 hat
      exact eq_of_heq hj ▸ hcomplete
    · intro hcomplete
      exact ⟨_, h.covers level index hcomplete, hposition level index⟩
  rw [← hnodes, List.toFinset_card_of_nodup hnodup, List.length_map]

variable [HashOctets H] {db : Db}

theorem Represents.filled (h : Represents crates db) : Filled db := fun row hrow => by rw [h.leafHash row hrow]; rfl

theorem Represents.subtreeCacheLooksComplete (h : Represents crates db) :
    subtreeCacheLooksComplete (H := H) db.entries.length db = .ok true := by
  have hbound := h.representable
  have hheld : AhlMirror.requireSubtreeCacheRaw (H := H) db db.entries.length = .ok () := by
    refine (requireSubtreeCacheRaw_eq_ok (hbound.trans_lt i64Bound_lt_u64Bound)).2 fun level hlevel hodd => ?_
    have hinside := cacheBlocks_inside (mem_cacheBlocks.2 ⟨hlevel, hodd, rfl⟩)
    have hread : AhlMirror.treeNodeRaw db level _ = .ok _ := h.treeNodeRaw (h.index_lt hinside)
    rw [if_pos hinside] at hread
    exact ⟨_, hread⟩
  unfold AhlMirror.subtreeCacheLooksComplete
  rw [expectedPopulation_eq hbound, ok_bind, hheld, h.cache.length hbound, decide_eq_true rfl]
  rfl

theorem Represents.backfillBatch (h : Represents crates db) : backfillBatch db = [] := by
  cases hbatch : AhlMirror.backfillBatch db with
  | nil => rfl
  | cons row rest =>
    obtain ⟨hmem, hnone⟩ := mem_backfillBatch (hbatch ▸ List.mem_cons_self (a := row) (l := rest))
    have hfilled := h.filled row hmem
    rw [hnone] at hfilled
    cases hfilled

theorem Represents.openStore (h : Represents crates db) (hschema : db.entriesSchema = .current) :
    openStore crates db = ⟨[db], .ok ((), db)⟩ := by
  have hcreate : createEntriesTable db = db := by
    unfold createEntriesTable
    rw [hschema]
  have hcolumn : addLeafHashColumn db = ⟨[], .ok ((), db)⟩ := by
    show (query (fun db : Db => .ok db.entriesSchema) >>= _ : Migration Unit) db = _
    simp only [bind, query, Except.map, hschema]
    rfl
  have hbackfill : backfillLeafHashes crates db = ⟨[], .ok ((), db)⟩ := by
    simp only [backfillLeafHashes, backfillLoop, bind, query, Except.map, h.backfillBatch]
    rfl
  have hcache : rebuildSubtreeCacheIfIncomplete crates db = ⟨[], .ok ((), db)⟩ := by
    simp only [rebuildSubtreeCacheIfIncomplete, bind, query, Except.map, h.subtreeCacheLooksComplete]
    rfl
  simp only [AhlMirror.openStore, migrate, bind, statement, hcreate, hcolumn, hbackfill, hcache]
  rfl

/-! ### The schema -/

theorem openStore_schema {after : Db} (hok : (AhlMirror.openStore crates db).result = .ok ((), after)) :
    after.entriesSchema = .current := by
  have hleaves : ∀ {f : Db → MirrorResult Db}, (∀ s t, f s = .ok t → t.entriesSchema = s.entriesSchema) →
      Leaves Db.entriesSchema (statement f : Migration Unit) := fun h => Leaves.statement h
  have hcolumn : Keeps (fun _ => True) (fun _ => True) addLeafHashColumn
      fun (_ : Unit) (s : Db) => s.entriesSchema = .current := by
    refine (Keeps.query (Q := fun schema s => s.entriesSchema = schema) fun s schema _ hs => Except.ok.inj hs).bind
      fun schema => ?_
    split_ifs with hcurrent
    · exact Keeps.pure fun s hs => hs.trans hcurrent
    · exact Keeps.statement fun s t _ ht => ⟨trivial, by rw [← Except.ok.inj ht]⟩
  have hbackfill : ∀ fuel : Nat, Leaves Db.entriesSchema (backfillLoop crates fuel) := by
    intro fuel
    induction fuel with
    | zero => exact Leaves.pure _
    | succ fuel ih =>
      refine (Leaves.query _).bind fun batch => ?_
      split_ifs
      · exact Leaves.pure _
      · exact (Leaves.forEach (fun row => hleaves fun s t ht => by rw [← Except.ok.inj ht]; rfl) batch).bind fun _ => ih
  have hcache : Leaves Db.entriesSchema (rebuildSubtreeCacheIfIncomplete crates) :=
    rebuildSubtreeCacheIfIncomplete_leaves.comp Db.entriesSchema
  have hopen : Keeps (fun _ => True) (fun _ => True) (AhlMirror.openStore crates)
      fun _ after => after.entriesSchema = .current := by
    refine Keeps.bind (Q := fun _ _ => True) (Keeps.statement fun _ _ _ _ => ⟨trivial, trivial⟩) fun _ =>
      hcolumn.bind fun _ => ?_
    refine (((Leaves.query _).bind fun unfilled => hbackfill (unfilled + 1)).keeps _).bind fun _ => hcache.keeps _
  exact (hopen db trivial).2 () after hok

/-! ### An opening completes -/

theorem Writing.unwritten {n level next : Nat} (h : Writing n level next db) (hash : Bytes) :
    ∃ after, insertSubtreeRow level next hash db = .ok after := by
  have hnone : ¬ (subtreeBlob db level next).isSome := by
    rw [subtreeBlob_isSome, h]
    rintro ⟨l, j, -, hwhich, hkey⟩
    simp only [Prod.mk.injEq, Int.natCast_inj] at hkey
    omega
  exact ⟨_, if_neg hnone⟩

theorem foldLevel_completes (crates : Crates H K) {n level : Nat} (hlevel : 1 ≤ level) (hn : n ≤ i64Bound) :
    ∀ (pairs : List (H × H)) (next : Nat), next + pairs.length = n / 2 ^ level →
      Completes (Writing n level next) (foldLevel crates level next pairs)
  | [], _, _ => Completes.pure _
  | (left, right) :: rest, next, hlength => by
    rw [List.length_cons] at hlength
    have hnext : next < i64Bound := by
      have := Nat.div_le_self n (2 ^ level)
      omega
    have hnode : CompleteNode n level next := completeNode_iff.2 ⟨hlevel, by omega⟩
    refine Completes.bind (I := fun _ => True) (Q := fun _ => Writing n level (next + 1))
      (Completes.statement fun s hs => ?_) (Keeps.statement fun s t hs hok => ⟨trivial, ?_⟩) fun _ => ?_
    · rw [toI64_of_lt hnext]
      exact hs.unwritten _
    · rw [toI64_of_lt hnext] at hok
      exact hs.insert hnode hok
    · exact (foldLevel_completes crates hlevel hn rest (next + 1) (by omega)).bind (Keeps.trivial _)
        fun _ => Completes.pure _

theorem rebuildLoop_completes (crates : Crates H K) {n : Nat} (hn : n ≤ i64Bound) :
    ∀ (fuel level : Nat) (current : List H), current.length = n / 2 ^ level →
      Completes (Writing n (level + 1) 0) (rebuildLoop crates fuel (level + 1) current)
  | 0, _, _, _ => Completes.pure _
  | fuel + 1, level, current, hlength => by
    have hpairs : 0 + (chunksOfTwo current).length = n / 2 ^ (level + 1) := by
      rw [Nat.zero_add, length_chunksOfTwo, hlength, Nat.div_div_eq_div_mul, ← pow_succ]
    rw [rebuildLoop]
    split_ifs with hmore
    · refine (foldLevel_completes crates (by omega) hn _ 0 hpairs).bind
        (foldLevel_writes crates (by omega) (chunksOfTwo current) 0 hpairs) fun nodes => ?_
      by_cases hnodes : nodes.length = n / 2 ^ (level + 1)
      · refine (rebuildLoop_completes crates hn fuel (level + 1) nodes hnodes).consequence fun s hs => ?_
        rw [hpairs] at hs
        exact hs.1.succ
      · intro s hs
        rw [Nat.zero_add] at hpairs
        exact absurd (hs.2.trans hpairs) hnodes
    · exact Completes.pure _

theorem backfillLoop_completes (crates : Crates H K) : ∀ fuel : Nat, Completes (fun _ => True) (backfillLoop crates fuel)
  | 0 => Completes.pure _
  | fuel + 1 => by
    refine Completes.bind (Completes.query fun s _ => ⟨_, rfl⟩) (Keeps.trivial _) fun batch => ?_
    split_ifs
    · exact Completes.pure _
    · exact (Completes.forEach (fun row => Completes.statement fun s _ => ⟨_, rfl⟩) batch).bind (Keeps.trivial _)
        fun _ => backfillLoop_completes crates fuel

theorem OnDisk.leafHashesRangeRaw (h : OnDisk crates db) (hfilled : Filled db) (hsize : db.entries.length < i64Bound) :
    leafHashesRangeRaw db 0 db.entries.length = .ok (leafHashes crates db) := by
  have hleaf : ∀ row ∈ db.entries, row.leafHash = some (asSlice (logLeafHash crates row.envelope)) := by
    intro row hrow
    refine (h.leafHash row hrow).resolve_left fun hnone => ?_
    have hheld := hfilled row hrow
    rw [hnone] at hheld
    cases hheld
  rw [leafHashesRangeRaw_eq h.toCanonical hleaf (by decide) hsize, List.drop_zero, List.take_of_length_le (by simp)]

theorem rebuildSubtreeCacheIfIncomplete_completes :
    Completes (fun db => (OnDisk crates db ∧ Filled db) ∧ db.entries.length < i64Bound)
      (rebuildSubtreeCacheIfIncomplete crates) := by
  refine Completes.bind (I := fun _ => True)
    (Q := fun entries db => ((OnDisk crates db ∧ Filled db) ∧ db.entries.length < i64Bound) ∧ entries = db.entries.length)
    (Completes.query fun s _ => ⟨_, rfl⟩)
    (Keeps.query fun s entries hs hok => ⟨hs, (Except.ok.inj hok).symm⟩) fun entries => ?_
  refine Completes.bind (I := fun _ => True)
    (Q := fun _ db => ((OnDisk crates db ∧ Filled db) ∧ db.entries.length < i64Bound) ∧ entries = db.entries.length)
    (Completes.query fun s hs => ?_) (Keeps.query fun s _ hs _ => hs) fun complete => ?_
  · obtain ⟨⟨⟨hdisk, -⟩, -⟩, rfl⟩ := hs
    unfold AhlMirror.subtreeCacheLooksComplete
    rw [expectedPopulation_eq hdisk.representable]
    exact ⟨_, rfl⟩
  · split_ifs
    · exact Completes.pure _
    · rintro s ⟨⟨⟨hdisk, hfilled⟩, hsize⟩, rfl⟩
      have hread := hdisk.leafHashesRangeRaw hfilled hsize
      have hempty : Writing s.entries.length (0 + 1) 0 { s with subtreeRoots := [] } := by
        intro key
        refine iff_of_false List.not_mem_nil ?_
        rintro ⟨l, j, hnode, hwhich, -⟩
        have := hnode.1
        omega
      obtain ⟨a, t, hok⟩ := rebuildLoop_completes crates hdisk.representable (MAX_SUBTREE_LEVEL + 1) 0
        (leafHashes crates s) (by simp) _ hempty
      have hread' : leafHashesRangeRaw (H := H) { s with subtreeRoots := [] } 0 s.entries.length =
          .ok (leafHashes crates s) := hread
      refine ⟨a, t, ?_⟩
      simp only [rebuildSubtreeCache, bind, statement, query, hread', Except.map]
      exact hok

/-- On a file whose entries the schema can index, an opening completes, wherever the one before it stopped. -/
theorem OnDisk.openStore_completes (h : OnDisk crates db) (hsize : db.entries.length < i64Bound) :
    ∃ after, (AhlMirror.openStore crates db).result = .ok ((), after) := by
  have hlength : ∀ s : Db, s.unhashed = db.unhashed → s.entries.length = db.entries.length := by
    intro s hs
    have hentries : s.unhashed.entries.length = db.unhashed.entries.length := by rw [hs]
    simpa [Db.unhashed] using hentries
  have hopen : Completes (fun s => OnDisk crates s ∧ s.unhashed = db.unhashed) (AhlMirror.openStore crates) := by
    refine Completes.bind (Completes.statement fun s _ => ⟨_, rfl⟩)
      (createEntriesTable_keeps.and_leaves createEntriesTable_leaves db.unhashed) fun _ => ?_
    refine Completes.bind ?_ (addLeafHashColumn_keeps.and_leaves addLeafHashColumn_leaves db.unhashed) fun _ => ?_
    · refine Completes.bind (Completes.query fun s _ => ⟨_, rfl⟩) (Keeps.trivial _) fun schema => ?_
      split_ifs
      · exact Completes.pure _
      · exact Completes.statement fun s _ => ⟨_, rfl⟩
    refine Completes.bind ?_ (backfillLeafHashes_keeps.and_leaves backfillLeafHashes_leaves db.unhashed) fun _ => ?_
    · exact Completes.bind (Completes.query fun s _ => ⟨_, rfl⟩) (Keeps.trivial _)
        fun unfilled => backfillLoop_completes crates (unfilled + 1)
    · exact rebuildSubtreeCacheIfIncomplete_completes.consequence fun s hs => ⟨hs.1, (hlength s hs.2) ▸ hsize⟩
  obtain ⟨⟨⟩, after, hok⟩ := hopen db ⟨h, rfl⟩
  exact ⟨after, hok⟩

/-! ### The schema along a run -/

theorem promoteEntryIn_schema (hrep : Represents crates db) {after : Db} {cp : Checkpoint} {entryId : String}
    {leafIndex : Nat} {path : List String} {outcome : InsertOutcome}
    (h : promoteEntryIn crates db cp entryId leafIndex path = .ok (outcome, after)) :
    after.entriesSchema = db.entriesSchema := by
  rcases promoteEntryIn_cases hrep h with ⟨rfl, -⟩ | ⟨bytes, rows, root, -, -, -, -, -, rfl, -⟩ <;> rfl

theorem promoteBatch_schema {cp : Checkpoint} : ∀ {batch : List PendingPromotion} {db after : Db},
    Represents crates db → promoteBatch crates cp batch db = .ok after → after.entriesSchema = db.entriesSchema
  | [], db, after, _, h => Except.ok.inj h ▸ rfl
  | pending :: rest, db, after, hrep, h => by
    simp only [promoteBatch, bind_eq_ok] at h
    obtain ⟨⟨outcome, mid⟩, hpromote, hrest⟩ := h
    exact (promoteBatch_schema (promoteEntryIn_grow hrep hpromote).1 hrest).trans (promoteEntryIn_schema hrep hpromote)

theorem Committed.schema [DecidableEq H] {cp : Checkpoint} {batch : List PendingPromotion} {claimedRoot : H}
    {admission : Admission} {mid recorded after : Db} (hrep : Represents crates db)
    (h : Committed crates cp batch claimedRoot admission db mid recorded after) :
    after.entriesSchema = db.entriesSchema := by
  rw [← promoteBatch_schema hrep h.batch]
  obtain ⟨kept, -, -, rfl⟩ := insertRotationCheckpoints_cases h.rotations
  rcases recordSeriesMember_cases h.member with ⟨rfl, -⟩ | ⟨-, rfl, -⟩ <;> rfl

/-! ### Interrupted and completed openings -/

variable (crates) in
/-- What a file is left as by openings that were interrupted, one after the other. -/
abbrev Interrupted : Db → Db → Prop := Relation.ReflTransGen fun db mid => mid ∈ (AhlMirror.openStore crates db).committed

theorem Interrupted.keeps {mid : Db} (h : Interrupted crates db mid) (hdisk : OnDisk crates db) :
    OnDisk crates mid ∧ mid.underived = db.underived := by
  induction h with
  | refl => exact ⟨hdisk, rfl⟩
  | tail _ hmem ih =>
    exact ⟨(openStore_keeps _ ih.1).1 _ hmem, ((openStore_leaves _ _ rfl).1 _ hmem).trans ih.2⟩

theorem Represents.subtreeRoots_perm {other : Db} (h : Represents crates db) (h' : Represents crates other)
    (hentries : other.entries = db.entries) : other.subtreeRoots.Perm db.subtreeRoots := by
  have hleaf : leafAt crates other = leafAt crates db := by
    funext index
    unfold leafAt canonicalEntries
    rw [hentries]
  have hrows : ∀ {db : Db}, Represents crates db → ∀ row, row ∈ db.subtreeRoots ↔
      ∃ level index, CompleteNode db.entries.length level index ∧ row = nodeRow crates (leafAt crates db) level index := by
    intro db h row
    refine ⟨h.cache.complete row, ?_⟩
    rintro ⟨level, index, hcomplete, rfl⟩
    exact h.cache.covers level index hcomplete
  refine (List.perm_ext_iff_of_nodup h'.cache.keys.of_map h.cache.keys.of_map).2 fun row => ?_
  rw [hrows h', hrows h, hleaf, hentries]

/-- The same rows in every table, those of the derived cache in some order. -/
structure SameRows (db other : Db) : Prop where
  staged : other.stagedEntries = db.stagedEntries
  entries : other.entries = db.entries
  checkpoints : other.checkpoints = db.checkpoints
  rotationCheckpoints : other.rotationCheckpoints = db.rotationCheckpoints
  subtreeRoots : other.subtreeRoots.Perm db.subtreeRoots

variable [DecidableEq H] {config : Config K}

/-- **Openings converge.** A file whose entries the schema can index is opened, wherever the openings before
were interrupted and however often; each way leaves the same rows, those of the derived cache in some order;
and opening the store once more writes nothing. -/
theorem openings_converge (h : DiskState crates config false db) (hsize : db.entries.length < i64Bound) :
    ∃ after, (openStore crates db).result = .ok ((), after) ∧ openStore crates after = ⟨[after], .ok ((), after)⟩ ∧
      ∀ mid, Interrupted crates db mid → ∃ after', (openStore crates mid).result = .ok ((), after') ∧
        SameRows after after' := by
  have hdisk := h.invariant.1
  obtain ⟨after, hok⟩ := hdisk.openStore_completes hsize
  have hrep := (openStore_keeps db hdisk).2 () after hok
  refine ⟨after, hok, hrep.openStore (openStore_schema hok), fun mid hmid => ?_⟩
  obtain ⟨hdisk', hsame⟩ := hmid.keeps hdisk
  have hlength : mid.entries.length = db.entries.length := by
    have hentries : mid.underived.entries.length = db.underived.entries.length := by rw [hsame]
    simpa [Db.underived] using hentries
  obtain ⟨after', hok'⟩ := hdisk'.openStore_completes (hlength ▸ hsize)
  have hrep' := (openStore_keeps mid hdisk').2 () after' hok'
  -- neither opening touches more than what is derived
  have hunderived : after'.underived = after.underived :=
    ((openStore_leaves _ mid rfl).2 () after' hok').trans (hsame.trans ((openStore_leaves _ db rfl).2 () after hok).symm)
  have htable : ∀ {α : Type} (table : Db → α), table after'.underived = table after.underived :=
    fun table => congrArg table hunderived
  have hentries : after'.entries = after.entries := by rw [hrep'.entries_eq, hrep.entries_eq, hunderived]
  exact ⟨after', hok', htable Db.stagedEntries, hentries, htable Db.checkpoints, htable Db.rotationCheckpoints,
    hrep.subtreeRoots_perm hrep' hentries⟩

/-- The older database, its first opening interrupted in the middle of the backfill. -/
theorem openings_converge_halfMigrated : ∃ after, (openStore (Symbolic.crates Symbolic.documents) Symbolic.halfMigrated).result =
    .ok ((), after) ∧ SameRows Symbolic.migrated after := by
  have hmid : Interrupted (Symbolic.crates Symbolic.documents) Symbolic.olderDatabase Symbolic.halfMigrated :=
    .single (by decide +kernel)
  have hatOnce : (openStore (Symbolic.crates Symbolic.documents) Symbolic.olderDatabase).result =
      .ok ((), Symbolic.migrated) := by decide +kernel
  have hdisk : DiskState (Symbolic.crates Symbolic.documents) Symbolic.config false Symbolic.olderDatabase :=
    .preLeafHash Symbolic.preLeafHash_olderDatabase
  obtain ⟨after, hok, -, hconverges⟩ := openings_converge hdisk (by decide)
  obtain rfl := (Prod.mk.inj (Except.ok.inj (hok.symm.trans hatOnce))).2
  exact hconverges Symbolic.halfMigrated hmid

end AhlMirror
