import AhlMirror.Store.CacheCheck
import AhlMirror.Store.History

/-!
# What an opening makes of the cache

Over entries in place, whatever else the file holds, a rebuild writes a row for each complete node and no
other: only the number of the leaf hashes decides which (`rebuildSubtreeCache_writes`). An opening that
rebuilds so ends with the right keys. The one that does not has counted as many rows as there are
complete nodes and met the blocks of the size, and the keys stay what they were (`PassesCheck`).

A store with the right keys never lacks a node of its entries, however many calls later, since a call
takes no row away (`KeepsNodes`).
-/

namespace AhlMirror

open AhlMirror.Core (Indexed)
open AhlMirror.Core.Committing (Keeps Leaves statement)
open Merkle

/-! ### The keys -/

/-- The rows are those of the complete nodes of `n` leaves, whatever their hashes. -/
def KeysOf (n : Nat) (db : Db) : Prop := ∀ key, key ∈ db.subtreeRoots.map SubtreeRow.key ↔
  ∃ level index : Nat, CompleteNode n level index ∧ key = ((level : Int), (index : Int))

/-- What is stored for a node. -/
def Db.heldBlob (db : Db) (level index : Nat) : Option Bytes :=
  if level = 0 then (entryAt db index).bind (·.leafHash) else subtreeBlob db level index

/-- Every node within the first `n` leaves is stored. -/
def CoversNodes (n : Nat) (db : Db) : Prop :=
  ∀ level index, (index + 1) * 2 ^ level ≤ n → (db.heldBlob level index).isSome

theorem subtreeBlob_isSome {db : Db} {level index : Nat} : (subtreeBlob db level index).isSome ↔
    ((level : Int), (index : Int)) ∈ db.subtreeRoots.map SubtreeRow.key := by
  unfold subtreeBlob
  rw [Option.isSome_map, List.find?_isSome, List.mem_map]
  simp only [Bool.and_eq_true, beq_iff_eq, SubtreeRow.key, Prod.mk.injEq]

theorem KeysOf.coversNodes {db : Db} (h : KeysOf db.entries.length db) (hrows : Canonical db) (hfilled : Filled db) :
    CoversNodes db.entries.length db := by
  intro level index hle
  unfold Db.heldBlob
  split_ifs with hzero
  · subst hzero
    rw [pow_zero, Nat.mul_one] at hle
    rw [hrows.entryAt, List.getElem?_eq_getElem (by omega), Option.bind_some]
    exact hfilled _ (List.getElem_mem _)
  · exact subtreeBlob_isSome.2 ((h _).2 ⟨level, index, ⟨by omega, hle⟩, rfl⟩)

theorem Canonical.of_underived {db after : Db} (h : Canonical db) (hsame : after.underived = db.underived) :
    Canonical after ∧ after.entries.length = db.entries.length := by
  have hmap : ∀ {α : Type} (g : EntryRow → α), (∀ row : EntryRow, g { row with leafHash := none } = g row) →
      after.entries.map g = db.entries.map g := by
    intro α g hg
    have hentries := congrArg (fun db : Db => db.entries.map g) hsame
    simpa only [Db.underived, List.map_map, Function.comp_def, hg] using hentries
  have hlength : after.entries.length = db.entries.length := by
    have := congrArg List.length (hmap EntryRow.entryIndex fun _ => rfl)
    rwa [List.length_map, List.length_map] at this
  refine ⟨⟨?_, hlength ▸ h.representable, ?_⟩, hlength⟩
  · show after.entries.map _ = _
    rw [hmap EntryRow.entryIndex fun _ => rfl, hlength]
    exact h.contiguous
  · rw [hmap (·.entryId) fun _ => rfl]
    exact h.distinct

variable {H K : Type} [HashOctets H] {crates : Crates H K}

/-! ### The rebuild -/

/-- The rows written so far: every level below `level`, and `level` below `next`. -/
def Writing (n level next : Nat) (db : Db) : Prop := ∀ key, key ∈ db.subtreeRoots.map SubtreeRow.key ↔
  ∃ l j : Nat, CompleteNode n l j ∧ (l < level ∨ l = level ∧ j < next) ∧ key = ((l : Int), (j : Int))

theorem Writing.keysOf {n level : Nat} {db : Db} (h : Writing n level 0 db)
    (hnone : ∀ l j, level ≤ l → ¬ CompleteNode n l j) : KeysOf n db := by
  intro key
  rw [h key]
  constructor
  · rintro ⟨l, j, hnode, -, rfl⟩
    exact ⟨l, j, hnode, rfl⟩
  · rintro ⟨l, j, hnode, rfl⟩
    have hlevel : l < level := by
      by_contra hl
      exact hnone l j (by omega) hnode
    exact ⟨l, j, hnode, Or.inl hlevel, rfl⟩

theorem Writing.succ {n level : Nat} {db : Db} (h : Writing n level (n / 2 ^ level) db) : Writing n (level + 1) 0 db := by
  intro key
  rw [h key]
  constructor
  · rintro ⟨l, j, hnode, hwhich, rfl⟩
    exact ⟨l, j, hnode, by omega, rfl⟩
  · rintro ⟨l, j, hnode, hwhich, rfl⟩
    refine ⟨l, j, hnode, ?_, rfl⟩
    by_cases hl : l = level
    · exact Or.inr ⟨hl, hl ▸ (completeNode_iff.1 hnode).2⟩
    · omega

theorem Writing.insert {n level next : Nat} {hash : Bytes} {db after : Db} (h : Writing n level next db)
    (hnode : CompleteNode n level next) (hok : insertSubtreeRow level next hash db = .ok after) :
    Writing n level (next + 1) after := by
  unfold insertSubtreeRow at hok
  rw [ite_error_eq_ok] at hok
  obtain rfl := Except.ok.inj hok.2
  intro key
  rw [List.map_append, List.mem_append, h key, List.map_singleton, List.mem_singleton]
  constructor
  · rintro (⟨l, j, hcomplete, hwhich, rfl⟩ | rfl)
    · exact ⟨l, j, hcomplete, by omega, rfl⟩
    · exact ⟨level, next, hnode, by omega, rfl⟩
  · rintro ⟨l, j, hcomplete, hwhich, rfl⟩
    by_cases hold : l < level ∨ l = level ∧ j < next
    · exact Or.inl ⟨l, j, hcomplete, hold, rfl⟩
    · obtain ⟨rfl, rfl⟩ : l = level ∧ j = next := by omega
      exact Or.inr rfl

theorem length_chunksOfTwo {α : Type} : ∀ l : List α, (chunksOfTwo l).length = l.length / 2
  | [] => by simp [chunksOfTwo]
  | [_] => by simp [chunksOfTwo]
  | _ :: _ :: rest => by
    rw [chunksOfTwo, List.length_cons, length_chunksOfTwo rest, List.length_cons, List.length_cons]
    omega

theorem foldLevel_writes (crates : Crates H K) {n level : Nat} (hlevel : 1 ≤ level) :
    ∀ (pairs : List (H × H)) (next : Nat), next + pairs.length = n / 2 ^ level →
    Keeps (Writing n level next) (fun _ => True) (foldLevel crates level next pairs)
      fun nodes db => Writing n level (next + pairs.length) db ∧ nodes.length = pairs.length
  | [], _, _ => Keeps.pure fun _ h => ⟨h, rfl⟩
  | (left, right) :: rest, next, hlength => by
    rw [List.length_cons] at hlength
    refine Keeps.bind (Q := fun _ => Writing n level (next + 1)) (Keeps.statement fun db after h hok => ?_) fun _ => ?_
    · simp only [bind_eq_ok, toI64_eq_ok] at hok
      obtain ⟨index, ⟨-, rfl⟩, hok⟩ := hok
      exact ⟨trivial, h.insert (completeNode_iff.2 ⟨hlevel, by omega⟩) hok⟩
    · refine (foldLevel_writes crates hlevel rest (next + 1) (by omega)).bind fun nodes => Keeps.pure fun db h => ?_
      rw [List.length_cons, List.length_cons, h.2, show next + (rest.length + 1) = next + 1 + rest.length by omega]
      exact ⟨h.1, rfl⟩

theorem rebuildLoop_writes (crates : Crates H K) {n : Nat} (hn : n ≤ i64Bound) :
    ∀ (fuel level : Nat) (current : List H), fuel + level = MAX_SUBTREE_LEVEL + 1 → current.length = n / 2 ^ level →
    Keeps (Writing n (level + 1) 0) (fun _ => True) (rebuildLoop crates fuel (level + 1) current) fun _ => KeysOf n
  | 0, level, current, hfuel, _ => Keeps.pure fun db h => h.keysOf fun l j hl hnode => by
      have := hnode.level_lt hn
      have : MAX_SUBTREE_LEVEL = 63 := rfl
      omega
  | fuel + 1, level, current, hfuel, hlength => by
    have hmax : MAX_SUBTREE_LEVEL = 63 := rfl
    have hpairs : (chunksOfTwo current).length = n / 2 ^ (level + 1) := by
      rw [length_chunksOfTwo, hlength, Nat.div_div_eq_div_mul, ← pow_succ]
    rw [rebuildLoop]
    split_ifs with hmore
    · have hlast : 0 + (chunksOfTwo current).length = n / 2 ^ (level + 1) := by rw [Nat.zero_add, hpairs]
      refine (foldLevel_writes crates (by omega) (chunksOfTwo current) 0 hlast).bind fun nodes => ?_
      by_cases hnodes : nodes.length = n / 2 ^ (level + 1)
      · refine (rebuildLoop_writes crates hn fuel (level + 1) nodes (by omega) hnodes).consequence (fun db h => ?_)
          fun _ _ h => h
        rw [hlast] at h
        exact h.1.succ
      · exact fun db h => absurd (h.2.trans hpairs) hnodes
    · refine Keeps.pure fun db h => h.keysOf fun l j hl hnode => hmore ⟨hlength ▸ hnode.two_le_div hl, ?_⟩
      have := hnode.level_lt hn
      omega

theorem length_leafHashesRangeRaw {db : Db} (h : Canonical db) {n : Nat} {hashes : List H}
    (hok : leafHashesRangeRaw db 0 n = .ok hashes) : hashes.length = min n db.entries.length := by
  unfold leafHashesRangeRaw at hok
  simp only [bind_eq_ok, toI64_eq_ok] at hok
  obtain ⟨a, ⟨-, rfl⟩, b, ⟨-, rfl⟩, hok⟩ := hok
  rw [h.entryRows, List.drop_zero] at hok
  have hlength : ∀ (rows : List EntryRow) {hashes : List H}, rows.mapM (fun row => do
        let blob ← okOr (.treeMaterialMissing 0 row.entryIndex) row.leafHash
        hashOfBlob 0 row.entryIndex blob) = .ok hashes → hashes.length = rows.length := by
    intro rows
    induction rows with
    | nil =>
      intro hashes hmap
      obtain rfl := Except.ok.inj hmap
      rfl
    | cons row rows ih =>
      intro hashes hmap
      simp only [List.mapM_cons, bind_eq_ok] at hmap
      obtain ⟨hash, -, rest, hrest, hdone⟩ := hmap
      obtain rfl := Except.ok.inj hdone
      rw [List.length_cons, List.length_cons, ih hrest]
  rw [hlength _ hok, List.length_take]

theorem rebuildSubtreeCache_writes (crates : Crates H K) (n : Nat) :
    Keeps (fun db => Canonical db ∧ n = db.entries.length) (fun _ => True) (rebuildSubtreeCache crates n)
      fun _ => KeysOf n := by
  refine Keeps.bind (Q := fun _ db => (Canonical db ∧ n = db.entries.length) ∧ Writing n 1 0 db)
    (Keeps.statement fun db after h hok => ?_) fun _ => ?_
  · obtain rfl := Except.ok.inj hok
    refine ⟨trivial, ⟨⟨h.1.contiguous, h.1.representable, h.1.distinct⟩, h.2⟩, fun key => ?_⟩
    rw [List.map_nil]
    refine iff_of_false List.not_mem_nil ?_
    rintro ⟨l, j, hnode, hwhich, -⟩
    have := hnode.1
    omega
  · refine Keeps.bind (Q := fun current db => ((Canonical db ∧ n = db.entries.length) ∧ Writing n 1 0 db) ∧
      current.length = n / 2 ^ 0) (Keeps.query fun db current h hok => ⟨h, ?_⟩) fun current => ?_
    · obtain ⟨⟨hrows, rfl⟩, -⟩ := h
      rw [length_leafHashesRangeRaw hrows hok, Nat.min_self, pow_zero, Nat.div_one]
    · intro db h
      obtain ⟨⟨⟨hrows, rfl⟩, hwriting⟩, hlength⟩ := h
      exact rebuildLoop_writes crates hrows.representable _ 0 current rfl hlength db hwriting

/-! ### The check, and an opening -/

variable (H) in
/-- The check of an opening lets the rows be: there are as many as complete nodes, and each block of the
size's binary form has a readable one. -/
structure PassesCheck (db : Db) : Prop where
  population : db.subtreeRoots.length = (completeNodes db.entries.length).card
  blocks : ∀ level, 1 ≤ level → db.entries.length / 2 ^ level % 2 = 1 →
    ((subtreeBlob db level (db.entries.length / 2 ^ level - 1)).bind (tryFrom : Bytes → Option H)).isSome

theorem treeNodeRaw_eq_some {db : Db} {level index : Nat} (hlevel : 1 ≤ level) (hindex : index < i64Bound) :
    (∃ hash : H, treeNodeRaw db level index = .ok (some hash)) ↔
      ((subtreeBlob db level index).bind (tryFrom : Bytes → Option H)).isSome := by
  unfold treeNodeRaw hashOfBlob
  rw [toI64_of_lt hindex, ok_bind, if_neg (by omega)]
  cases subtreeBlob db level index with
  | none => simp
  | some blob => cases hblob : (tryFrom blob : Option H) <;> simp [okOr, hblob]

theorem subtreeCacheLooksComplete_eq {db : Db} (h : Canonical db) {complete : Bool}
    (hok : subtreeCacheLooksComplete (H := H) db.entries.length db = .ok complete) :
    complete = true ↔ PassesCheck H db := by
  have hu64 := i64Bound_lt_u64Bound
  have hbound := h.representable
  unfold subtreeCacheLooksComplete at hok
  rw [expectedPopulation_eq hbound, ok_bind] at hok
  obtain rfl := Except.ok.inj hok
  have hread : ∀ level, 1 ≤ level → db.entries.length / 2 ^ level % 2 = 1 →
      ((∃ hash : H, treeNodeRaw db level (db.entries.length / 2 ^ level - 1) = .ok (some hash)) ↔
        ((subtreeBlob db level (db.entries.length / 2 ^ level - 1)).bind (tryFrom : Bytes → Option H)).isSome) := by
    intro level hlevel hodd
    have hinside := cacheBlocks_inside (mem_cacheBlocks.2 ⟨hlevel, hodd, rfl⟩)
    exact treeNodeRaw_eq_some hlevel ((index_lt_of_le hinside).trans_le hbound)
  rw [Bool.and_eq_true, decide_eq_true_eq, isOk_eq_true, requireSubtreeCacheRaw_eq_ok (hbound.trans_lt hu64)]
  exact ⟨fun h => ⟨h.1, fun level hlevel hodd => (hread level hlevel hodd).1 (h.2 level hlevel hodd)⟩,
    fun h => ⟨h.population, fun level hlevel hodd => (hread level hlevel hodd).2 (h.blocks level hlevel hodd)⟩⟩

theorem PassesCheck.congr {db other : Db} (hroots : other.subtreeRoots = db.subtreeRoots)
    (hlength : other.entries.length = db.entries.length) : PassesCheck H other ↔ PassesCheck H db := by
  have hblob : ∀ level index, subtreeBlob other level index = subtreeBlob db level index := fun level index => by
    unfold subtreeBlob
    rw [hroots]
  constructor
  · rintro ⟨hpopulation, hblocks⟩
    exact ⟨by rw [← hroots, ← hlength]; exact hpopulation, by simpa only [hlength, hblob] using hblocks⟩
  · rintro ⟨hpopulation, hblocks⟩
    exact ⟨by rw [hroots, hlength]; exact hpopulation, by simpa only [hlength, hblob] using hblocks⟩

/-- The keys are left as they are where the check passes, and else become the right ones. -/
def Restored (H : Type) [HashOctets H] (db after : Db) : Prop :=
  (PassesCheck H db ∧ after.subtreeRoots = db.subtreeRoots) ∨
    (¬ PassesCheck H db ∧ KeysOf db.entries.length after)

theorem rebuildSubtreeCacheIfIncomplete_restores (crates : Crates H K) {db : Db} (h : Canonical db) :
    Keeps (fun s => s.unhashed = db.unhashed) (fun _ => True) (rebuildSubtreeCacheIfIncomplete crates)
      fun _ => Restored H db := by
  have hmid : ∀ s : Db, s.unhashed = db.unhashed → (Canonical s ∧ s.entries.length = db.entries.length) ∧
      s.subtreeRoots = db.subtreeRoots := by
    intro s hs
    have hroots : s.unhashed.subtreeRoots = db.unhashed.subtreeRoots := by rw [hs]
    exact ⟨h.of_underived (congrArg Db.uncached hs), hroots⟩
  refine Keeps.bind (Q := fun entries s => s.unhashed = db.unhashed ∧ entries = s.entries.length)
    (Keeps.query fun s entries hs hok => ⟨hs, (Except.ok.inj hok).symm⟩) fun entries => ?_
  refine Keeps.bind (Q := fun complete s => (s.unhashed = db.unhashed ∧ entries = s.entries.length) ∧
      (complete = true ↔ PassesCheck H db))
    (Keeps.query fun s complete hs hok => ⟨hs, ?_⟩) fun complete => ?_
  · obtain ⟨hs, rfl⟩ := hs
    obtain ⟨⟨hrows, hlength⟩, hroots⟩ := hmid s hs
    exact (subtreeCacheLooksComplete_eq hrows hok).trans (PassesCheck.congr hroots hlength)
  · split_ifs with hcomplete
    · exact Keeps.pure fun s hs => Or.inl ⟨hs.2.1 hcomplete, (hmid s hs.1.1).2⟩
    · intro s hs
      obtain ⟨⟨hrows, hlength⟩, -⟩ := hmid s hs.1.1
      have hkeys := rebuildSubtreeCache_writes crates entries s ⟨hrows, hs.1.2⟩
      refine ⟨hkeys.1, fun a t ht => Or.inr ⟨fun hpass => hcomplete (hs.2.2 hpass), ?_⟩⟩
      rw [← hlength, ← hs.1.2]
      exact hkeys.2 a t ht

/-- What an opening that succeeds leaves: the rows in place, each with a leaf hash, and the cache checked. -/
theorem openStore_restores {db after : Db} (h : Canonical db) (hok : (openStore crates db).result = .ok ((), after)) :
    Restored H db after ∧ Filled after ∧ Canonical after ∧ after.entries.length = db.entries.length := by
  have hopen : Keeps (fun s => s.unhashed = db.unhashed) (fun _ => True) (openStore crates)
      fun _ after => Restored H db after ∧ Filled after := by
    refine (createEntriesTable_leaves.keeps db.unhashed).bind fun _ => (addLeafHashColumn_leaves.keeps db.unhashed).bind
      fun _ => (((backfillLeafHashes_fills crates).and_leaves backfillLeafHashes_leaves db.unhashed).consequence
        (fun s hs => ⟨trivial, hs⟩) fun _ _ hs => hs).bind fun _ => ?_
    rintro s ⟨hfilled, hs⟩
    obtain ⟨hcommitted, hresult⟩ := rebuildSubtreeCacheIfIncomplete_restores crates h s hs
    refine ⟨hcommitted, fun _ after hafter => ⟨hresult _ after hafter, ?_⟩⟩
    -- the rebuild does not touch the entries
    have hleaves : Leaves Db.uncached (rebuildSubtreeCacheIfIncomplete crates) := rebuildSubtreeCacheIfIncomplete_leaves
    have hentries := congrArg (fun db : Db => db.entries) ((hleaves s.uncached s rfl).2 _ after hafter)
    intro row hrow
    exact hfilled row (hentries ▸ hrow)
  obtain ⟨hrestored, hfilled⟩ := (hopen db rfl).2 () after hok
  exact ⟨hrestored, hfilled, h.of_underived ((openStore_leaves _ db rfl).2 () after hok)⟩

/-! ### Requests -/

theorem withTreeNodes_finds {db : Db} {n : Nat} (h : CoversNodes n db) (hn : n ≤ i64Bound) {α : Type} {bound : Nat}
    (hbound : bound ≤ n) {f : NodeQuery H (Except AtlError α)}
    (hasks : f.Asks fun level index => (index + 1) * 2 ^ level ≤ bound) (level index : Nat) :
    withTreeNodes db bound f ≠ .error (.treeMaterialMissing level index) := by
  have hread : ∀ (l j : Nat) (reads : NodeReads), (j + 1) * 2 ^ l ≤ bound →
      reads.failure ≠ some (.treeMaterialMissing level index) →
      (getNode (H := H) db bound l j reads).1 = heldNode db l j ∧
        (getNode (H := H) db bound l j reads).2.failure ≠ some (.treeMaterialMissing level index) := by
    intro l j reads hle hreads
    have hj : j < i64Bound := (index_lt_of_le hle).trans_le (hbound.trans hn)
    -- a node that is stored is read, or it is corrupt
    have hnode : treeNodeRaw (H := H) db l j ≠ .ok none ∧
        treeNodeRaw (H := H) db l j ≠ .error (.treeMaterialMissing level index) := by
      obtain ⟨blob, hblob⟩ := Option.isSome_iff_exists.1 (h l j (hle.trans hbound))
      unfold Db.heldBlob at hblob
      unfold treeNodeRaw hashOfBlob
      rw [toI64_of_lt hj, ok_bind, hblob]
      cases htry : (tryFrom blob : Option H) <;> simp [okOr, htry]
    unfold getNode heldNode
    cases hraw : treeNodeRaw (H := H) db l j with
    | ok node =>
      cases node with
      | none => exact absurd hraw hnode.1
      | some hash => exact ⟨rfl, hreads⟩
    | error e =>
      refine ⟨rfl, ?_⟩
      unfold NodeReads.record
      cases hfailure : reads.failure with
      | none =>
        intro he
        exact hnode.2 (hraw.trans (congrArg Except.error (Option.some.inj he)))
      | some first => simpa [hfailure] using hreads
  obtain ⟨-, hfailure⟩ := NodeQuery.run_eq_eval
    (I := fun reads : NodeReads => reads.failure ≠ some (.treeMaterialMissing level index)) hread hasks
    (s := ⟨none, 0⟩) (by simp)
  unfold withTreeNodes
  rcases hrun : f.run (getNode db bound) ⟨none, 0⟩ with ⟨computed, reads⟩
  rw [hrun] at hfailure
  dsimp only at hfailure ⊢
  cases hfail : reads.failure with
  | some e =>
    dsimp only
    intro he
    exact hfailure (hfail.trans (congrArg some (Except.error.inj he)))
  | none => cases computed <;> simp [mapErr]

/-- No root, inclusion proof or consistency proof inside the first `n` entries lacks a node. -/
structure RequestsFind (crates : Crates H K) (n : Nat) (db : Db) (level index : Nat) : Prop where
  logRoot : ∀ treeSize ≤ n, logRootRaw crates db treeSize ≠ .error (.treeMaterialMissing level index)
  subtreeRoot : ∀ offset size, offset + size ≤ n →
    subtreeRootRaw crates db offset size ≠ .error (.treeMaterialMissing level index)
  inclusionProof : ∀ leafIndex, ∀ treeSize ≤ n,
    inclusionProofRaw crates db leafIndex treeSize ≠ .error (.treeMaterialMissing level index)
  consistencyProof : ∀ fromSize, ∀ toSize ≤ n,
    consistencyProofMeasuredRaw crates db fromSize toSize ≠ .error (.treeMaterialMissing level index)

theorem CoversNodes.requestsFind (hspan : SpanLaws crates) {n : Nat} {db : Db} (h : CoversNodes n db) (hn : n ≤ i64Bound)
    (level index : Nat) : RequestsFind crates n db level index := by
  have hu64 := i64Bound_lt_u64Bound
  have hsubtree : ∀ offset size, offset + size ≤ n →
      subtreeRootRaw crates db offset size ≠ .error (.treeMaterialMissing level index) := by
    intro offset size hle
    unfold subtreeRootRaw
    rw [saturatingAdd_of_lt (by omega)]
    exact bind_ne_error (withTreeNodes_finds h hn hle
      ((hspan.computeSubtreeRoot offset size).mono fun _ _ hin => hin.2) level index) fun _ => by simp
  refine ⟨fun treeSize hle => ?_, hsubtree, fun leafIndex treeSize hle => ?_, fun fromSize toSize hle => ?_⟩
  · unfold logRootRaw
    split_ifs
    · simp
    · exact hsubtree 0 treeSize (by omega)
  · have hasks := (hspan.generateInclusionProof leafIndex treeSize).mono (Q := fun level index =>
      (index + 1) * 2 ^ level ≤ treeSize) fun _ _ hin => by simpa using hin.2
    exact bind_ne_error (withTreeNodes_finds h hn hle hasks level index) fun _ => by simp
  · refine bind_ne_error ?_ fun have_ => ?_
    · unfold countEntriesRaw toI64
      split_ifs <;> simp
    · split_ifs
      · simp
      · exact withTreeNodes_finds h hn hle
          ((hspan.generateConsistencyProof fromSize toSize).mono fun _ _ hin => by simpa using hin.2) level index

/-! ### Later calls -/

/-- Every node stored is still stored, perhaps under another hash. -/
def KeepsNodes (db after : Db) : Prop :=
  ∀ level index, (db.heldBlob level index).isSome → (after.heldBlob level index).isSome

theorem KeepsNodes.refl (db : Db) : KeepsNodes db db := fun _ _ h => h

theorem KeepsNodes.trans {a b c : Db} (h : KeepsNodes a b) (h' : KeepsNodes b c) : KeepsNodes a c :=
  fun level index hheld => h' level index (h level index hheld)

theorem KeepsNodes.of_eq {db after : Db} (hentries : after.entries = db.entries)
    (hroots : after.subtreeRoots = db.subtreeRoots) : KeepsNodes db after := by
  intro level index hheld
  unfold Db.heldBlob entryAt subtreeBlob at hheld ⊢
  rwa [hentries, hroots]

theorem KeepsNodes.append (db : Db) (row : EntryRow) : KeepsNodes db { db with entries := db.entries ++ [row] } := by
  intro level index hheld
  unfold Db.heldBlob entryAt at hheld ⊢
  split_ifs at hheld ⊢
  · obtain ⟨blob, hblob⟩ := Option.isSome_iff_exists.1 hheld
    obtain ⟨held, hfound, hleaf⟩ := Option.bind_eq_some_iff.1 hblob
    rw [List.find?_append, hfound, Option.some_or, Option.bind_some, hleaf]
    rfl
  · exact hheld

theorem KeepsNodes.putSubtreeRow (db : Db) (level index : Nat) (hash : Bytes) :
    KeepsNodes db (putSubtreeRow db level index hash) := by
  intro l j hheld
  unfold Db.heldBlob at hheld ⊢
  split_ifs at hheld ⊢
  · exact hheld
  · rw [subtreeBlob_isSome, List.mem_map] at hheld ⊢
    obtain ⟨row, hrow, hkey⟩ := hheld
    by_cases hsame : row.key = ((level : Int), (index : Int))
    · exact ⟨_, mem_putSubtreeRow.2 (Or.inr rfl), by rw [← hkey, hsame]; rfl⟩
    · exact ⟨row, mem_putSubtreeRow.2 (Or.inl ⟨hrow, hsame⟩), hkey⟩

theorem extendSubtreeCacheLoop_keepsNodes {count fuel level width : Nat} {db after : Db}
    (hok : extendSubtreeCacheLoop crates count fuel level width db = .ok after) : KeepsNodes db after := by
  induction fuel generalizing level width db with
  | zero =>
    obtain rfl := Except.ok.inj hok
    exact KeepsNodes.refl _
  | succ fuel ih =>
    unfold extendSubtreeCacheLoop at hok
    split_ifs at hok with hrange
    · simp only [bind_eq_ok, okOr_eq_ok] at hok
      obtain ⟨rem, -, hok⟩ := hok
      split_ifs at hok
      · obtain rfl := Except.ok.inj hok
        exact KeepsNodes.refl _
      · simp only [bind_eq_ok, okOr_eq_ok] at hok
        obtain ⟨nodeIndex, -, left, -, right, -, child, -, leftHash, -, rightHash, -, index, -, hok⟩ := hok
        -- the row of this level, then the levels above
        have hrow := KeepsNodes.putSubtreeRow db level index (asSlice (crates.hashChildren leftHash rightHash))
        apply hrow.trans
        cases hnext : checkedMul width 2 with
        | none =>
          rw [hnext] at hok
          obtain rfl := Except.ok.inj hok
          exact KeepsNodes.refl _
        | some next =>
          rw [hnext] at hok
          exact ih hok
    · obtain rfl := Except.ok.inj hok
      exact KeepsNodes.refl _

theorem promoteEntryRaw_keepsNodes {db after : Db} {entryIndex : Nat} {entryId : String} {outcome : InsertOutcome}
    (hok : promoteEntryRaw crates db entryIndex entryId = .ok (outcome, after)) : KeepsNodes db after := by
  unfold promoteEntryRaw at hok
  simp only [bind_eq_ok, okOr_eq_ok] at hok
  obtain ⟨index, -, bytes, -, hok⟩ := hok
  cases hat : entryAt db index with
  | some existing =>
    simp only [hat] at hok
    split_ifs at hok
    obtain ⟨-, rfl⟩ := Prod.mk.inj (Except.ok.inj hok)
    exact KeepsNodes.refl _
  | none =>
    simp only [hat] at hok
    cases hid : getEntryById db entryId with
    | some existing =>
      simp only [hid] at hok
      cases hok
    | none =>
      simp only [hid, bind_eq_ok] at hok
      obtain ⟨expected, -, hok⟩ := hok
      split_ifs at hok
      obtain ⟨extended, hextend, hdone⟩ := bind_eq_ok.1 hok
      obtain ⟨-, rfl⟩ := Prod.mk.inj (Except.ok.inj hdone)
      obtain ⟨count, -, hloop⟩ := bind_eq_ok.1 hextend
      exact (KeepsNodes.append db _).trans (extendSubtreeCacheLoop_keepsNodes hloop)

theorem promoteEntryIn_keepsNodes {db after : Db} {cp : Checkpoint} {entryId : String} {leafIndex : Nat}
    {path : List String} {outcome : InsertOutcome}
    (hok : promoteEntryIn crates db cp entryId leafIndex path = .ok (outcome, after)) : KeepsNodes db after := by
  unfold promoteEntryIn at hok
  simp only [bind_eq_ok, ite_error_eq_ok] at hok
  obtain ⟨bytes, -, root, -, included, -, -, hpromote⟩ := hok
  exact promoteEntryRaw_keepsNodes hpromote

theorem promoteBatch_keepsNodes {cp : Checkpoint} {batch : List PendingPromotion} {db after : Db}
    (hok : promoteBatch crates cp batch db = .ok after) : KeepsNodes db after := by
  induction batch generalizing db with
  | nil =>
    obtain rfl := Except.ok.inj hok
    exact KeepsNodes.refl _
  | cons pending rest ih =>
    obtain ⟨⟨outcome, mid⟩, hpromote, hrest⟩ := bind_eq_ok.1 hok
    exact (promoteEntryIn_keepsNodes hpromote).trans (ih hrest)

variable [DecidableEq H]

theorem CallEffect.keepsNodes {config : Config K} {db after : Db} {call : Call}
    (h : CallEffect crates config db call after) : KeepsNodes db after := by
  cases h with
  | unchanged => exact KeepsNodes.refl _
  | staged _ => exact KeepsNodes.of_eq rfl rfl
  | admitted _ hcommit =>
    obtain ⟨-, mid, recorded, hcommitted⟩ := commitAdmission_cases hcommit
    refine (promoteBatch_keepsNodes hcommitted.batch).trans ?_
    obtain ⟨kept, -, -, rfl⟩ := insertRotationCheckpoints_cases hcommitted.rotations
    rcases recordSeriesMember_cases hcommitted.member with ⟨rfl, -⟩ | ⟨-, rfl, -⟩ <;> exact KeepsNodes.of_eq rfl rfl
  | promoted _ hpromote => exact promoteEntryIn_keepsNodes hpromote

theorem StoreCall.keepsNodes (config : Config K) (db : Db) (call : StoreCall) :
    KeepsNodes db (call.after crates config db) := by
  cases call with
  | serve call => exact (serve_effect call).keepsNodes
  | stageEntry entryId bytes =>
    rw [StoreCall.after]
    rcases withTransaction_cases db (storeStageEntry · entryId bytes) with hsame | ⟨outcome, hok⟩
    · rw [hsame]
      exact KeepsNodes.refl _
    · rcases storeStageEntry_cases hok with hsame | hafter
      · rw [hsame]
        exact KeepsNodes.refl _
      · rw [hafter]
        exact KeepsNodes.of_eq rfl rfl
  | promoteEntry entryIndex entryId =>
    rw [StoreCall.after]
    rcases withTransaction_cases db (promoteEntryRaw crates · entryIndex entryId) with hsame | ⟨outcome, hok⟩
    · rw [hsame]
      exact KeepsNodes.refl _
    · exact promoteEntryRaw_keepsNodes hok

theorem runCalls_keepsNodes (config : Config K) (calls : List StoreCall) (db : Db) :
    KeepsNodes db (calls.foldl (fun db call => call.after crates config db) db) := by
  induction calls generalizing db with
  | nil => exact KeepsNodes.refl db
  | cons call rest ih => exact (call.keepsNodes config db).trans (ih _)

/-! ### Opening and later -/

/-- **What an opening restores.** Over `n` contiguous entries, whatever `subtree_roots` held, the opened store
has exactly the keys of the complete nodes and no later request inside `[0, n]` lacks a node, unless the
table passed the check of the opening with other keys: it is rebuilt only where its row count or a block
of the size is not as expected. -/
theorem reopened_keys_exact_iff (hspan : SpanLaws crates) (config : Config K) {db after : Db} (h : Canonical db)
    (hok : (openStore crates db).result = .ok ((), after)) :
    ((∀ key : Int × Int, key ∈ after.subtreeRoots.map (fun row => (row.level, row.nodeIndex)) ↔
        ∃ level index : Nat, 1 ≤ level ∧ (index + 1) * 2 ^ level ≤ db.entries.length ∧
          key = ((level : Int), (index : Int))) ∧
      ∀ (calls : List StoreCall) (level index : Nat), RequestsFind crates db.entries.length
        (calls.foldl (fun db call => call.after crates config db) after) level index) ↔
    (PassesCheck H db → KeysOf db.entries.length db) := by
  obtain ⟨hrestored, hfilled, hrows, hlength⟩ := openStore_restores h hok
  have hkeys : (∀ key : Int × Int, key ∈ after.subtreeRoots.map (fun row => (row.level, row.nodeIndex)) ↔
      ∃ level index : Nat, 1 ≤ level ∧ (index + 1) * 2 ^ level ≤ db.entries.length ∧
        key = ((level : Int), (index : Int))) ↔ KeysOf db.entries.length after := by
    refine forall_congr' fun key => iff_congr Iff.rfl ?_
    simp only [CompleteNode, and_assoc]
  rw [hkeys]
  constructor
  · rintro ⟨hafter, -⟩ hpass
    rcases hrestored with ⟨-, hsame⟩ | ⟨hfail, -⟩
    · unfold KeysOf at hafter ⊢
      rwa [hsame] at hafter
    · exact absurd hpass hfail
  · intro hdb
    have hafter : KeysOf db.entries.length after := by
      rcases hrestored with ⟨hpass, hsame⟩ | ⟨-, hafter⟩
      · unfold KeysOf
        rw [hsame]
        exact hdb hpass
      · exact hafter
    refine ⟨hafter, fun calls level index => ?_⟩
    have hown : KeysOf after.entries.length after := hlength ▸ hafter
    have hcovers := hown.coversNodes hrows hfilled
    rw [hlength] at hcovers
    exact CoversNodes.requestsFind hspan (fun l j hle => runCalls_keepsNodes config calls after l j (hcovers l j hle))
      h.representable level index

namespace Symbolic

/-- Four entries under a cache of these rows. -/
def cached (rows : List SubtreeRow) : Db :=
  { Db.fresh with
    entriesSchema := .current
    entries := [⟨0, "a", [1], some [1]⟩, ⟨1, "b", [5], some [5]⟩, ⟨2, "c", [6], some [6]⟩, ⟨3, "d", [7], some [7]⟩]
    subtreeRoots := rows }

/-- One row, at a position that four entries do not have. -/
def truncated : Db := cached [⟨1, 7, []⟩]

/-- As many rows as four entries have complete nodes, one of them at a position they do not have. -/
def misplaced : Db := cached [⟨2, 0, [255, 255, 1, 5, 255, 6, 7]⟩, ⟨1, 0, [255, 1, 5]⟩, ⟨1, 7, []⟩]

/-- What the opening makes of the first. -/
def restored : Db := cached [⟨1, 0, [255, 1, 5]⟩, ⟨1, 1, [255, 6, 7]⟩, ⟨2, 0, [255, 255, 1, 5, 255, 6, 7]⟩]

theorem canonical_cached (rows : List SubtreeRow) : Canonical (cached rows) :=
  ⟨rfl, show 4 ≤ i64Bound by decide, show ["a", "b", "c", "d"].Nodup by decide⟩

end Symbolic

/-- A row at an impossible position and three missing ones: the count tells, and the cache is rebuilt. -/
theorem reopened_keys_exact_iff_truncated :
    (∀ key : Int × Int, key ∈ Symbolic.restored.subtreeRoots.map (fun row => (row.level, row.nodeIndex)) ↔
      ∃ level index : Nat, 1 ≤ level ∧ (index + 1) * 2 ^ level ≤ 4 ∧ key = ((level : Int), (index : Int))) ∧
    inclusionProofRaw (Symbolic.crates Symbolic.documents) Symbolic.restored 0 4 ≠ .error (.treeMaterialMissing 1 1) := by
  have h := (reopened_keys_exact_iff (Symbolic.spanLaws Symbolic.documents) Symbolic.config
    (Symbolic.canonical_cached _) (show (openStore (Symbolic.crates Symbolic.documents) Symbolic.truncated).result =
      .ok ((), Symbolic.restored) by decide +kernel)).2 fun hpass => by
    have hpopulation := hpass.population
    rw [card_completeNodes] at hpopulation
    exact absurd hpopulation (by decide +kernel)
  exact ⟨h.1, (h.2 [] 1 1).inclusionProof 0 4 le_rfl⟩

/-- Three rows under four entries, the root of the block of four among them: the opening keeps a row of no node
of theirs and the first inclusion proof lacks one. -/
theorem misplaced_row_kept : Canonical Symbolic.misplaced ∧
    (openStore (Symbolic.crates Symbolic.documents) Symbolic.misplaced).result = .ok ((), Symbolic.misplaced) ∧
    ¬ (∀ key : Int × Int, key ∈ Symbolic.misplaced.subtreeRoots.map (fun row => (row.level, row.nodeIndex)) ↔
      ∃ level index : Nat, 1 ≤ level ∧ (index + 1) * 2 ^ level ≤ Symbolic.misplaced.entries.length ∧
        key = ((level : Int), (index : Int))) ∧
    inclusionProofRaw (Symbolic.crates Symbolic.documents) Symbolic.misplaced 0 4 =
      .error (.treeMaterialMissing 1 1) := by
  refine ⟨Symbolic.canonical_cached _, by decide +kernel, fun hkeys => ?_, by decide +kernel⟩
  obtain ⟨level, index, hlevel, hle, hkey⟩ := (hkeys (1, 7)).1 (by decide)
  obtain ⟨hl, hj⟩ := Prod.mk.inj hkey
  obtain rfl : level = 1 := by omega
  obtain rfl : index = 7 := by omega
  exact absurd hle (by decide)

end AhlMirror
