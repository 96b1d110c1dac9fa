import Mathlib.Algebra.BigOperators.Intervals
import Mathlib.Data.Finset.Sigma
import AhlMirror.Model.Symbolic
import AhlMirror.Store.Opening

/-!
# The representation invariant

An opening keeps the cache only where its row count says that no complete node is missing, and a sound
cache of that many rows is exact (`CacheSound.covers_of_length`); otherwise it folds the leaf hashes
level by level, which writes every complete node. So every opened store represents its entries,
however many openings were interrupted before, and wherever.
-/

namespace AhlMirror

open AhlMirror.Core.Committing (Keeps)
open Merkle (nodeRoot nodeRoot_succ mth mth_slice)

variable {H K : Type} {crates : Crates H K}

/-! ### How many nodes are complete -/

theorem completeNode_iff {n level index : Nat} : CompleteNode n level index ↔ 1 ≤ level ∧ index < n / 2 ^ level := by
  unfold CompleteNode
  rw [Nat.lt_iff_add_one_le, Nat.le_div_iff_mul_le (Nat.two_pow_pos level)]

theorem CompleteNode.level_lt {n level index : Nat} (hn : n ≤ i64Bound) (h : CompleteNode n level index) :
    level < 64 :=
  level_lt_of_le (hn.trans_lt i64Bound_lt_u64Bound) h.2

theorem CompleteNode.two_le_div {n level index below : Nat} (h : CompleteNode n level index) (hlt : below < level) :
    2 ≤ n / 2 ^ below := by
  have hpos : 0 < n / 2 ^ level := lt_of_le_of_lt (Nat.zero_le _) (completeNode_iff.1 h).2
  have hle : 2 ^ (below + 1) ≤ n := (Nat.pow_le_pow_right (by omega) hlt).trans (Nat.div_pos_iff.1 hpos).2
  rw [Nat.le_div_iff_mul_le (Nat.two_pow_pos below), Nat.mul_comm, ← pow_succ]
  exact hle

/-- The complete nodes of `n` leaves, each with its level. -/
def completeNodes (n : Nat) : Finset (Σ _ : Nat, Nat) :=
  (Finset.Ico 1 64).sigma fun level => Finset.range (n / 2 ^ level)

theorem mem_completeNodes {n level index : Nat} (hn : n ≤ i64Bound) :
    ⟨level, index⟩ ∈ completeNodes n ↔ CompleteNode n level index := by
  rw [completeNodes, Finset.mem_sigma, Finset.mem_Ico, Finset.mem_range]
  constructor
  · rintro ⟨⟨hlevel, -⟩, hindex⟩
    exact completeNode_iff.2 ⟨hlevel, hindex⟩
  · intro h
    obtain ⟨hlevel, hindex⟩ := completeNode_iff.1 h
    exact ⟨⟨hlevel, h.level_lt hn⟩, hindex⟩

theorem card_completeNodes (n : Nat) : (completeNodes n).card = ∑ level ∈ Finset.Ico 1 64, n / 2 ^ level := by
  rw [completeNodes, Finset.card_sigma]
  exact Finset.sum_congr rfl fun level _ => Finset.card_range _

-- membership is decided by `mem_completeNodes`, never by listing the set
attribute [irreducible] completeNodes

theorem expectedPopulationLoop_eq {n : Nat} (hn : n ≤ i64Bound) : ∀ (fuel level expected : Nat), fuel + level = 65 →
    1 ≤ level → level ≤ 63 → expected + n / 2 ^ (level - 1) ≤ n →
      expectedPopulationLoop n fuel (2 ^ level) expected = .ok (expected + ∑ l ∈ Finset.Ico level 64, n / 2 ^ l)
  | 0, level, expected, hfuel, _, hhigh, _ => by omega
  | fuel + 1, level, expected, hfuel, hlow, hhigh, hroom => by
    have hubound : i64Bound < u64Bound := i64Bound_lt_u64Bound
    have hsplit : ∑ l ∈ Finset.Ico level 64, n / 2 ^ l = n / 2 ^ level + ∑ l ∈ Finset.Ico (level + 1) 64, n / 2 ^ l :=
      Finset.sum_eq_sum_Ico_succ_bot (by omega) _
    have hhalf : n / 2 ^ level = n / 2 ^ (level - 1) / 2 := by
      rw [Nat.div_div_eq_div_mul, ← pow_succ, Nat.sub_add_cancel hlow]
    generalize n / 2 ^ (level - 1) = above at hhalf hroom
    rw [expectedPopulationLoop]
    by_cases hwidth : 2 ^ level ≤ n
    · rw [if_pos hwidth]
      dsimp only
      rw [checkedDiv_of_pos (Nat.two_pow_pos level), okOr, ok_bind, checkedAdd_of_lt (by omega), okOr, ok_bind]
      by_cases hlast : level = 63
      · subst hlast
        rw [show checkedMul (2 ^ 63) 2 = none by decide, hsplit]
        rfl
      · have hnext : checkedMul (2 ^ level) 2 = some (2 ^ (level + 1)) := by
          rw [checkedMul_of_lt, pow_succ]
          have : 2 ^ level ≤ 2 ^ 62 := Nat.pow_le_pow_right (by omega) (by omega)
          have : u64Bound = 2 ^ 64 := rfl
          omega
        rw [hnext, hsplit, ← Nat.add_assoc]
        exact expectedPopulationLoop_eq hn fuel (level + 1) _ (by omega) (by omega) (by omega)
          (by rw [Nat.add_sub_cancel]; omega)
    · rw [if_neg hwidth]
      -- no node of this level or above is complete
      have hzero : ∑ l ∈ Finset.Ico level 64, n / 2 ^ l = 0 := by
        refine Finset.sum_eq_zero fun l hl => Nat.div_eq_of_lt ?_
        have : 2 ^ level ≤ 2 ^ l := Nat.pow_le_pow_right (by omega) (Finset.mem_Ico.1 hl).1
        omega
      rw [hzero, Nat.add_zero]

theorem expectedPopulation_eq {n : Nat} (hn : n ≤ i64Bound) : expectedPopulation n = .ok (completeNodes n).card := by
  have h := expectedPopulationLoop_eq hn 64 1 0 rfl le_rfl (by omega) (by simp)
  rwa [Nat.zero_add, ← card_completeNodes] at h

variable [HashOctets H]

theorem CacheSound.covers_of_length {leaf : Nat → H} {n : Nat} {rows : List SubtreeRow} (hn : n ≤ i64Bound)
    (h : CacheSound crates leaf n rows) (hlength : rows.length = (completeNodes n).card) {level index : Nat}
    (hnode : CompleteNode n level index) : nodeRow crates leaf level index ∈ rows := by
  let position : SubtreeRow → Σ _ : Nat, Nat := fun row => ⟨row.level.toNat, row.nodeIndex.toNat⟩
  have hposition : ∀ l j, position (nodeRow crates leaf l j) = ⟨l, j⟩ := fun l j => by simp [position, nodeRow]
  have hnodup : (rows.map position).Nodup := by
    refine List.Nodup.of_map (fun p => ((p.1 : Int), (p.2 : Int))) ?_
    rw [List.map_map]
    have hkeys : rows.map ((fun p => ((p.1 : Int), (p.2 : Int))) ∘ position) = rows.map SubtreeRow.key := by
      apply List.map_congr_left
      intro row hrow
      obtain ⟨l, j, -, rfl⟩ := h.complete row hrow
      simp [hposition]
    rw [hkeys]
    exact h.keys
  have hsubset : (rows.map position).toFinset ⊆ completeNodes n := by
    intro p hp
    obtain ⟨row, hrow, rfl⟩ := List.mem_map.1 (List.mem_toFinset.1 hp)
    obtain ⟨l, j, hcomplete, rfl⟩ := h.complete row hrow
    rw [hposition]
    exact (mem_completeNodes hn).2 hcomplete
  have heq : (rows.map position).toFinset = completeNodes n :=
    Finset.eq_of_subset_of_card_le hsubset (by rw [List.toFinset_card_of_nodup hnodup, List.length_map, hlength])
  have hmem : (⟨level, index⟩ : Σ _ : Nat, Nat) ∈ (rows.map position).toFinset := heq ▸ (mem_completeNodes hn).2 hnode
  obtain ⟨row, hrow, hat⟩ := List.mem_map.1 (List.mem_toFinset.1 hmem)
  obtain ⟨l, j, -, rfl⟩ := h.complete row hrow
  rw [hposition] at hat
  obtain ⟨rfl, hj⟩ := Sigma.mk.inj_iff.1 hat
  obtain rfl := eq_of_heq hj
  exact hrow

/-! ### The rebuild -/

variable (crates) in
/-- The cache while it is rebuilt: every level below `level`, and `level` below `next`. -/
structure Folding (level next : Nat) (db : Db) : Prop where
  onDisk : OnDisk crates db
  filled : Filled db
  covers : ∀ l j, CompleteNode db.entries.length l j → l < level ∨ (l = level ∧ j < next) →
    nodeRow crates (leafAt crates db) l j ∈ db.subtreeRoots

variable (crates) in
/-- The nodes of a level that lie over the stored entries. -/
def levelNodes (db : Db) (level : Nat) : List H :=
  (List.range (db.entries.length / 2 ^ level)).map (nodeRoot crates.hashChildren (leafAt crates db) level)

omit [HashOctets H] in
theorem levelNodes_zero (db : Db) : levelNodes crates db 0 = leafHashes crates db := by
  refine List.ext_getElem (by simp [levelNodes]) fun i _ h => ?_
  rw [← leafHashes_getElem crates db h]
  simp [levelNodes]

theorem chunksOfTwo_map_range' {α : Type} (f : Nat → α) : ∀ start count : Nat,
    chunksOfTwo ((List.range' (2 * start) count).map f) =
      (List.range' start (count / 2)).map fun j => (f (2 * j), f (2 * j + 1))
  | _, 0 => rfl
  | _, 1 => rfl
  | start, count + 2 => by
    have ih := chunksOfTwo_map_range' f (start + 1) count
    rw [show (count + 2) / 2 = count / 2 + 1 by omega, List.range'_succ, List.range'_succ, List.range'_succ,
      List.map_cons, List.map_cons, List.map_cons, chunksOfTwo, show 2 * start + 1 + 1 = 2 * (start + 1) by omega, ih]

omit [HashOctets H] in
theorem chunksOfTwo_levelNodes (db : Db) (level : Nat) : chunksOfTwo (levelNodes crates db level) =
    (List.range' 0 (db.entries.length / 2 ^ (level + 1))).map fun j =>
      (nodeRoot crates.hashChildren (leafAt crates db) level (2 * j),
        nodeRoot crates.hashChildren (leafAt crates db) level (2 * j + 1)) := by
  have h := chunksOfTwo_map_range' (nodeRoot crates.hashChildren (leafAt crates db) level) 0
    (db.entries.length / 2 ^ level)
  rw [Nat.mul_zero, ← List.range_eq_range', Nat.div_div_eq_div_mul, ← pow_succ] at h
  exact h

theorem insertSubtreeRow_folding {level next : Nat} {db after : Db} (h : Folding crates level next db)
    (hlevel : 1 ≤ level)
    (hnext : next < db.entries.length / 2 ^ level)
    (hok : insertSubtreeRow level next (asSlice (nodeRoot crates.hashChildren (leafAt crates db) level next)) db = .ok after) :
    after.entries = db.entries ∧ Folding crates level (next + 1) after := by
  unfold insertSubtreeRow at hok
  rw [ite_error_eq_ok] at hok
  obtain ⟨hfree, hok⟩ := hok
  obtain rfl := Except.ok.inj hok
  have hnode : CompleteNode db.entries.length level next := completeNode_iff.2 ⟨hlevel, hnext⟩
  refine ⟨rfl, ⟨⟨h.onDisk.contiguous, h.onDisk.representable, h.onDisk.distinct⟩, h.onDisk.leafHash, ?_, ?_⟩, h.filled, ?_⟩
  · intro row hrow
    rcases List.mem_append.1 hrow with hold | hnew
    · exact h.onDisk.cache.complete row hold
    · exact ⟨level, next, hnode, List.mem_singleton.1 hnew⟩
  · show ((db.subtreeRoots ++ [_]).map SubtreeRow.key).Nodup
    rw [List.map_append, List.map_singleton]
    refine h.onDisk.cache.keys.append (List.nodup_singleton _) fun key hold hnew => hfree ?_
    obtain rfl := List.mem_singleton.1 hnew
    obtain ⟨row, hrow, hkey⟩ := List.mem_map.1 hold
    obtain ⟨l, j, -, rfl⟩ := h.onDisk.cache.complete row hrow
    rw [nodeRow_key, SubtreeRow.key, Prod.mk.injEq, Int.natCast_inj, Int.natCast_inj] at hkey
    obtain ⟨rfl, rfl⟩ := hkey
    rw [subtreeBlob_of_mem h.onDisk.cache hrow]
    rfl
  · intro l j hcomplete hwhich
    show nodeRow crates (leafAt crates db) l j ∈ db.subtreeRoots ++ [_]
    by_cases hold : l < level ∨ (l = level ∧ j < next)
    · exact List.mem_append_left _ (h.covers l j hcomplete hold)
    · obtain ⟨rfl, rfl⟩ : l = level ∧ j = next := by omega
      exact List.mem_append_right _ (List.mem_singleton.2 rfl)

theorem foldLevel_keeps (crates : Crates H K) (level : Nat) (entries : List EntryRow) (leaf : Nat → H) :
    ∀ count next : Nat,
    next + count = entries.length / 2 ^ (level + 1) →
    Keeps (fun db => Folding crates (level + 1) next db ∧ db.entries = entries ∧ leafAt crates db = leaf) (OnDisk crates)
      (foldLevel crates (level + 1) next ((List.range' next count).map fun j =>
        (nodeRoot crates.hashChildren leaf level (2 * j), nodeRoot crates.hashChildren leaf level (2 * j + 1))))
      fun nodes db => (Folding crates (level + 1) (next + count) db ∧ db.entries = entries ∧ leafAt crates db = leaf) ∧
        nodes = (List.range' next count).map (nodeRoot crates.hashChildren leaf (level + 1))
  | 0, next, _ => Keeps.pure fun db h => ⟨h, rfl⟩
  | count + 1, next, hcount => by
    rw [List.range'_succ, List.map_cons]
    refine Keeps.bind (Q := fun _ db => Folding crates (level + 1) (next + 1) db ∧ db.entries = entries ∧
      leafAt crates db = leaf) (Keeps.statement fun db after h hok => ?_) fun _ => ?_
    · obtain ⟨hfolding, rfl, rfl⟩ := h
      simp only [bind_eq_ok, toI64_eq_ok] at hok
      obtain ⟨index, ⟨-, rfl⟩, hok⟩ := hok
      rw [← nodeRoot_succ crates.hashChildren] at hok
      obtain ⟨hentries, hafter⟩ := insertSubtreeRow_folding hfolding (by omega) (by omega) hok
      exact ⟨hafter.onDisk, hafter, hentries, leafAt_congr hentries⟩
    · refine (foldLevel_keeps crates level entries leaf count (next + 1) (by omega)).bind fun nodes => Keeps.pure fun db h => ?_
      obtain ⟨hstate, rfl⟩ := h
      refine ⟨by rwa [show next + 1 + count = next + (count + 1) by omega] at hstate, ?_⟩
      rw [List.map_cons, nodeRoot_succ crates.hashChildren]

/-- Where no node of a level or above is complete, the cache is whole. -/
theorem Folding.represents {level : Nat} {db : Db} (h : Folding crates level 0 db)
    (hnone : ∀ l j, level ≤ l → ¬ CompleteNode db.entries.length l j) : Represents crates db :=
  h.onDisk.represents h.filled fun l j hnode => h.covers l j hnode (Or.inl (by
    by_contra hl
    exact hnone l j (by omega) hnode))

theorem rebuildLoop_keeps (entries : List EntryRow) (leaf : Nat → H) : ∀ (fuel level : Nat) (current : List H),
    fuel + level = MAX_SUBTREE_LEVEL + 1 →
    Keeps (fun db => Folding crates (level + 1) 0 db ∧ db.entries = entries ∧ leafAt crates db = leaf ∧
        current = levelNodes crates db level) (OnDisk crates)
      (rebuildLoop crates fuel (level + 1) current) fun _ db => Represents crates db
  | 0, level, current, hfuel => Keeps.pure fun db h => h.1.represents fun l j hl hnode => by
      have := hnode.level_lt h.1.onDisk.representable
      have : MAX_SUBTREE_LEVEL = 63 := rfl
      omega
  | fuel + 1, level, current, hfuel => by
    have hmax : MAX_SUBTREE_LEVEL = 63 := rfl
    rw [rebuildLoop]
    split_ifs with hmore
    · refine Keeps.bind (Q := fun nodes db => (Folding crates (level + 1) (entries.length / 2 ^ (level + 1)) db ∧
          db.entries = entries ∧ leafAt crates db = leaf) ∧
          nodes = (List.range (entries.length / 2 ^ (level + 1))).map (nodeRoot crates.hashChildren leaf (level + 1)))
        ?_ fun nodes => (rebuildLoop_keeps entries leaf fuel (level + 1) nodes (by omega)).consequence (fun db h => ?_)
          fun _ db h => h
      · intro db h
        obtain ⟨hfolding, rfl, rfl, rfl⟩ := h
        rw [chunksOfTwo_levelNodes]
        have hfold := foldLevel_keeps crates level db.entries (leafAt crates db)
          (db.entries.length / 2 ^ (level + 1)) 0 (by omega) db ⟨hfolding, rfl, rfl⟩
        rw [Nat.zero_add] at hfold
        rwa [List.range_eq_range']
      · obtain ⟨⟨hfolding, rfl, rfl⟩, rfl⟩ := h
        refine ⟨⟨hfolding.onDisk, hfolding.filled, fun l j hnode hwhich => hfolding.covers l j hnode ?_⟩, rfl, rfl, rfl⟩
        rcases hwhich with hlt | ⟨-, hzero⟩
        · by_cases hl : l < level + 1
          · exact Or.inl hl
          · obtain rfl : l = level + 1 := by omega
            exact Or.inr ⟨rfl, (completeNode_iff.1 hnode).2⟩
        · exact absurd hzero (Nat.not_lt_zero _)
    · apply Keeps.pure
      intro db h
      obtain ⟨hfolding, rfl, rfl, rfl⟩ := h
      refine hfolding.represents fun l j hl hnode => hmore ⟨?_, ?_⟩
      · simp only [levelNodes, List.length_map, List.length_range]
        exact hnode.two_le_div hl
      · have := hnode.level_lt hfolding.onDisk.representable
        omega

theorem rebuildSubtreeCache_keeps (entries : Nat) :
    Keeps (fun db => (OnDisk crates db ∧ Filled db) ∧ entries = db.entries.length) (OnDisk crates)
      (rebuildSubtreeCache crates entries) fun _ db => Represents crates db := by
  refine Keeps.bind (Q := fun _ db => Folding crates 1 0 db ∧ entries = db.entries.length)
    (Keeps.statement fun db after h hok => ?_) fun _ => ?_
  · obtain ⟨⟨honDisk, hfilled⟩, rfl⟩ := h
    obtain rfl := Except.ok.inj hok
    have hemptied : OnDisk crates { db with subtreeRoots := [] } :=
      ⟨⟨honDisk.contiguous, honDisk.representable, honDisk.distinct⟩, honDisk.leafHash, ⟨by simp, List.nodup_nil⟩⟩
    exact ⟨hemptied, ⟨hemptied, hfilled, fun l j hnode hwhich => by have := hnode.1; omega⟩, rfl⟩
  · refine Keeps.bind (Q := fun current db => Folding crates 1 0 db ∧ current = levelNodes crates db 0)
      (Keeps.query fun db current h hok => ?_) fun current => ?_
    · obtain ⟨hfolding, rfl⟩ := h
      refine ⟨hfolding, ?_⟩
      -- the leaf hashes of the whole table, where its size can be queried at all
      have hsize : db.entries.length < i64Bound := by
        by_contra hlarge
        simp [leafHashesRangeRaw, toI64, hlarge, bind, Except.bind] at hok
        split at hok <;> simp at hok
      have hread := (leafHashesRangeRaw_eq hfolding.onDisk.toCanonical
        (fun row hrow => (hfolding.onDisk.leafHash row hrow).resolve_left fun hnone => by
          have := hfolding.filled row hrow
          simp [hnone] at this) (show 0 < i64Bound by decide) hsize)
      rw [levelNodes_zero]
      rw [hread, List.drop_zero, List.take_of_length_le (by simp)] at hok
      exact (Except.ok.inj hok).symm
    · intro db h
      exact rebuildLoop_keeps db.entries (leafAt crates db) (MAX_SUBTREE_LEVEL + 1) 0 current rfl db
        ⟨h.1, rfl, rfl, h.2⟩

theorem rebuildSubtreeCacheIfIncomplete_keeps : Keeps (fun db => OnDisk crates db ∧ Filled db) (OnDisk crates)
    (rebuildSubtreeCacheIfIncomplete crates) fun _ db => Represents crates db := by
  refine Keeps.bind (Q := fun entries db => (OnDisk crates db ∧ Filled db) ∧ entries = db.entries.length)
    (Keeps.query fun db entries h hok => ⟨h, (Except.ok.inj hok).symm⟩) fun entries => ?_
  refine Keeps.bind (Q := fun complete db => ((OnDisk crates db ∧ Filled db) ∧ entries = db.entries.length) ∧
      (complete = true → db.subtreeRoots.length = (completeNodes db.entries.length).card))
    (Keeps.query fun db complete h hok => ⟨h, fun htrue => ?_⟩) fun complete => ?_
  · obtain ⟨⟨honDisk, -⟩, rfl⟩ := h
    unfold subtreeCacheLooksComplete at hok
    rw [expectedPopulation_eq honDisk.representable, ok_bind] at hok
    have hboth := (Except.ok.inj hok).trans htrue
    rw [Bool.and_eq_true, decide_eq_true_eq] at hboth
    exact hboth.1
  · split_ifs with hcomplete
    · apply Keeps.pure
      intro db h
      obtain ⟨⟨⟨honDisk, hfilled⟩, -⟩, hlength⟩ := h
      exact honDisk.represents hfilled fun level index hnode =>
        honDisk.cache.covers_of_length honDisk.representable (hlength hcomplete) hnode
    · exact (rebuildSubtreeCache_keeps entries).consequence (fun db h => h.1) fun _ db h => h

/-- An opening leaves the database `OnDisk` at every statement, and represented where it completes. -/
theorem openStore_keeps : Keeps (OnDisk crates) (OnDisk crates) (openStore crates) fun _ db => Represents crates db :=
  createEntriesTable_keeps.bind fun _ => addLeafHashColumn_keeps.bind fun _ =>
    backfillLeafHashes_keeps.bind fun _ => rebuildSubtreeCacheIfIncomplete_keeps

/-! ### The life of a database file -/

theorem Represents.promotes {db : Db} (h : Represents crates db) (entryId : String) (level index : Nat) :
    promoteEntryRaw crates db db.entries.length entryId ≠ .error (.treeMaterialMissing level index) := by
  intro hmissing
  unfold promoteEntryRaw at hmissing
  by_cases hroom : db.entries.length < i64Bound
  swap
  · rw [toI64, if_neg hroom, error_bind] at hmissing
    cases hmissing
  rw [toI64_of_lt hroom, ok_bind] at hmissing
  cases hstaged : getStagedRaw db entryId with
  | none => simp [hstaged, okOr] at hmissing
  | some bytes =>
    rw [hstaged, okOr, ok_bind, h.toCanonical.entryAt, List.getElem?_eq_none le_rfl] at hmissing
    cases hid : getEntryById db entryId with
    | some existing => simp [hid] at hmissing
    | none =>
      have hfresh : entryId ∉ db.entries.map (·.entryId) := by
        intro hmem
        obtain ⟨row, hrow, rfl⟩ := List.mem_map.1 hmem
        unfold getEntryById at hid
        rw [Option.map_eq_none_iff, List.find?_eq_none] at hid
        exact hid row hrow (by simp)
      obtain ⟨rows, hextend, -⟩ := h.extend entryId bytes hroom hfresh
      simp only [promotedRow] at hextend
      simp [hid, h.toCanonical.nextIndex, hextend] at hmissing

variable [DecidableEq H] {config : Config K}

theorem StoreCall.represents (config : Config K) {db : Db} (h : Represents crates db) (call : StoreCall) :
    Represents crates (call.after crates config db) ∧ Grows db (call.after crates config db) := by
  cases call with
  | serve call => exact (serve_effect call).represents h
  | stageEntry entryId bytes =>
    rw [StoreCall.after]
    rcases withTransaction_cases db (storeStageEntry · entryId bytes) with hsame | ⟨outcome, hok⟩
    · rw [hsame]
      exact ⟨h, Grows.refl db⟩
    · rcases storeStageEntry_cases hok with hsame | hafter
      · rw [hsame]
        exact ⟨h, Grows.refl db⟩
      · rw [hafter]
        exact ⟨h.congr rfl rfl, List.prefix_append _ _, List.prefix_rfl, List.prefix_rfl, List.prefix_rfl⟩
  | promoteEntry entryIndex entryId =>
    rw [StoreCall.after]
    rcases withTransaction_cases db (promoteEntryRaw crates · entryIndex entryId) with hsame | ⟨outcome, hok⟩
    · rw [hsame]
      exact ⟨h, Grows.refl db⟩
    · rcases promoteEntryRaw_cases h hok with ⟨hsame, -⟩ | ⟨bytes, rows, -, -, -, hafter, hrepresents⟩
      · rw [hsame]
        exact ⟨h, Grows.refl db⟩
      · rw [hafter] at hrepresents ⊢
        exact ⟨hrepresents, List.prefix_rfl, List.prefix_append _ _, List.prefix_rfl, List.prefix_rfl⟩

theorem DiskState.invariant {opened : Bool} {db : Db} (h : DiskState crates config opened db) :
    OnDisk crates db ∧ (opened = true → Represents crates db) := by
  induction h with
  | fresh => exact ⟨OnDisk.fresh, by simp⟩
  | preLeafHash hold => exact ⟨hold.onDisk, by simp⟩
  | interrupted _ hmem ih => exact ⟨(openStore_keeps _ ih.1).1 _ hmem, by simp⟩
  | opened _ hok ih =>
    have hrep := (openStore_keeps _ ih.1).2 _ _ hok
    exact ⟨hrep.onDisk, fun _ => hrep⟩
  | called call _ ih =>
    have hrep := (StoreCall.represents config (ih.2 rfl) call).1
    exact ⟨hrep.onDisk, fun _ => hrep⟩
  | closed _ ih => exact ⟨ih.1, by simp⟩

/-- **The storage representation invariant.** Whatever a database file went through, an open store on it
holds its entries at `0..n-1` under distinct ids, each with its leaf hash; `subtree_roots` holds exactly
the complete nodes, each with the RFC 6962 root of its leaves; and the next promotion lacks no child. -/
theorem storage_representation {db : Db} (h : DiskState crates config true db) :
    db.entries.map (·.entryIndex) = List.range db.entries.length ∧ (db.entries.map (·.entryId)).Nodup ∧
    (∀ row ∈ db.entries, row.leafHash = some (asSlice (logLeafHash crates row.envelope))) ∧
    (db.subtreeRoots.map fun row => (row.level, row.nodeIndex)).Nodup ∧
    (∀ row, row ∈ db.subtreeRoots ↔ ∃ level index : Nat, 1 ≤ level ∧ (index + 1) * 2 ^ level ≤ db.entries.length ∧
      row = ⟨level, index, asSlice (mth crates.hashChildren (crates.digest [])
        (((leafHashes crates db).drop (index * 2 ^ level)).take (2 ^ level)))⟩) ∧
    ∀ entryId level index, promoteEntryRaw crates db db.entries.length entryId ≠ .error (.treeMaterialMissing level index) := by
  have hrep := h.invariant.2 rfl
  have hrow : ∀ level index : Nat, (index + 1) * 2 ^ level ≤ db.entries.length →
      nodeRow crates (leafAt crates db) level index = ⟨level, index, asSlice (mth crates.hashChildren (crates.digest [])
        (((leafHashes crates db).drop (index * 2 ^ level)).take (2 ^ level)))⟩ := by
    intro level index hle
    rw [mth_slice crates.hashChildren _ (leafHashes crates db) (leafAt crates db) (Nat.two_pow_pos level)
      (by rw [Nat.add_mul, Nat.one_mul] at hle; simpa using hle) fun i hi => leafHashes_getElem crates db hi]
    rfl
  refine ⟨hrep.contiguous, hrep.distinct, hrep.leafHash, hrep.cache.keys, fun row => ⟨fun hmem => ?_, ?_⟩, hrep.promotes⟩
  · obtain ⟨level, index, ⟨hlevel, hle⟩, rfl⟩ := hrep.cache.complete row hmem
    exact ⟨level, index, hlevel, hle, hrow level index hle⟩
  · rintro ⟨level, index, hlevel, hle, rfl⟩
    rw [← hrow level index hle]
    exact hrep.cache.covers level index ⟨hlevel, hle⟩

namespace Symbolic

/-- A database of two entries from before the derived tree material. -/
def olderDatabase : Db :=
  { Db.fresh with entriesSchema := .withoutLeafHash, entries := [⟨0, "a", [1], none⟩, ⟨1, "b", [5], none⟩] }

/-- Its migration interrupted after one row was filled. -/
def halfMigrated : Db :=
  { olderDatabase with
    entriesSchema := .current, entries := [⟨0, "a", [1], some [1]⟩, ⟨1, "b", [5], none⟩] }

/-- The store opened on it afterwards. -/
def migrated : Db :=
  { olderDatabase with
    entriesSchema := .current, entries := [⟨0, "a", [1], some [1]⟩, ⟨1, "b", [5], some [5]⟩],
    subtreeRoots := [⟨1, 0, [255, 1, 5]⟩] }

theorem preLeafHash_olderDatabase : PreLeafHash olderDatabase :=
  ⟨rfl, by decide, by decide, by decide, by decide, rfl⟩

theorem diskState_halfMigrated : DiskState (Symbolic.crates documents) Symbolic.config false halfMigrated :=
  .interrupted (.preLeafHash preLeafHash_olderDatabase) (by decide +kernel)

theorem diskState_migrated : DiskState (Symbolic.crates documents) Symbolic.config true migrated :=
  .opened diskState_halfMigrated (by decide +kernel)

end Symbolic

theorem storage_representation_migrated : Symbolic.migrated.entries.map (·.entryIndex) = [0, 1] ∧
    (Symbolic.migrated.subtreeRoots.map fun row => (row.level, row.nodeIndex)).Nodup := by
  obtain ⟨hindices, -, -, hkeys, -⟩ := storage_representation Symbolic.diskState_migrated
  exact ⟨hindices, hkeys⟩

end AhlMirror
