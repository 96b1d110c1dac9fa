import AhlMirror.Core.Indexed
import AhlMirror.Model.Store

/-!
# Reading the stored tables

What the queries return on a store whose canonical rows are contiguous (`Canonical`) and whose
derived tree material is that of its entries (`Represents`): a lookup by index is a lookup by
position, a range is a slice, and a tree node is held exactly where it is complete. Checkpoints are
read in series order (`seriesLE`).
-/

namespace AhlMirror

open AhlMirror.Core (Indexed)
open Merkle (mth mth_take spanRoot nodeRoot nodeRoot_zero)

/-! ### Canonical rows -/

/-- The canonical indices are `0..n-1` and the entry ids are pairwise distinct. -/
structure Canonical (db : Db) : Prop where
  contiguous : Indexed EntryRow.entryIndex db.entries
  representable : db.entries.length ≤ i64Bound
  distinct : (db.entries.map (·.entryId)).Nodup

/-- The canonical entries, in index order. -/
def canonicalEntries (db : Db) : List Bytes := db.entries.map (·.envelope)

@[simp] theorem length_canonicalEntries (db : Db) : (canonicalEntries db).length = db.entries.length := by
  simp [canonicalEntries]

theorem i64Bound_lt_u64Bound : i64Bound < u64Bound := by decide

namespace Canonical
variable {db : Db} (h : Canonical db)
include h

theorem entryAt (i : Nat) : entryAt db i = db.entries[i]? := h.contiguous.find? i

theorem nextIndex : nextIndex db = .ok db.entries.length := by
  have hbound := h.representable
  have hlt := i64Bound_lt_u64Bound
  unfold AhlMirror.nextIndex maxEntryIndex
  rw [h.contiguous.max?_map]
  split_ifs with hzero
  · rw [hzero]
  · show nextAfter "next_index" (db.entries.length - 1) = _
    rw [nextAfter, checkedAdd_of_lt (by omega), Nat.sub_add_cancel (by omega)]
    rfl

theorem entryRows (a b : Nat) : entryRows db a b = (db.entries.take b).drop a := by
  unfold AhlMirror.entryRows
  rw [h.contiguous.filter a b, h.contiguous.insertionSort a b]

theorem getEntriesRangeRaw {a b : Nat} (ha : a < i64Bound) (hb : b < i64Bound) :
    getEntriesRangeRaw db a b = .ok (((canonicalEntries db).take b).drop a) := by
  unfold AhlMirror.getEntriesRangeRaw
  rw [toI64_of_lt ha, toI64_of_lt hb]
  simp only [ok_bind]
  rw [h.entryRows, List.map_drop, List.map_take, canonicalEntries]

theorem countEntriesRaw {b : Nat} (hb : b < i64Bound) :
    countEntriesRaw db 0 b = .ok (min b db.entries.length) := by
  unfold AhlMirror.countEntriesRaw
  rw [toI64_of_lt (by decide), toI64_of_lt hb]
  simp only [ok_bind]
  rw [h.entryRows, List.drop_zero, List.length_take]

theorem countEntriesRaw_held {b : Nat} (hb : b < i64Bound) (hle : b ≤ db.entries.length) :
    AhlMirror.countEntriesRaw db 0 b = .ok b := by
  rw [h.countEntriesRaw hb, Nat.min_eq_left hle]

theorem held_of_count {b : Nat} (hcount : AhlMirror.countEntriesRaw db 0 b = .ok b) :
    b < i64Bound ∧ b ≤ db.entries.length := by
  have hb : b < i64Bound := by
    unfold AhlMirror.countEntriesRaw at hcount
    obtain ⟨_, -, hcount⟩ := bind_eq_ok.1 hcount
    obtain ⟨_, hsize, -⟩ := bind_eq_ok.1 hcount
    exact (toI64_eq_ok.1 hsize).1
  rw [h.countEntriesRaw hb] at hcount
  exact ⟨hb, min_eq_left_iff.1 (Except.ok.inj hcount)⟩

end Canonical

theorem Canonical.entriesPrefix {db : Db} (h : Canonical db) {n : Nat} (hn : n < i64Bound) :
    AhlMirror.getEntriesRangeRaw db 0 n = .ok ((canonicalEntries db).take n) := by
  rw [h.getEntriesRangeRaw (by decide) hn, List.drop_zero]

/-! ### Series order -/

theorem seriesLE.refl (a : Checkpoint) : seriesLE a a := Or.inr ⟨rfl, le_refl _⟩

theorem seriesLE.treeSize_le {a b : Checkpoint} (h : seriesLE a b) : a.treeSize ≤ b.treeSize := by
  rcases h with hlt | ⟨heq, -⟩ <;> omega

theorem seriesLE.trans {a b c : Checkpoint} (h : seriesLE a b) (h' : seriesLE b c) : seriesLE a c := by
  rcases h with hlt | ⟨heq, htime⟩
  · exact Or.inl (hlt.trans_le h'.treeSize_le)
  · rcases h' with hlt' | ⟨heq', htime'⟩
    · exact Or.inl (by omega)
    · exact Or.inr ⟨heq.trans heq', le_trans htime htime'⟩

theorem seriesLE.antisymm {a b : Checkpoint} (h : seriesLE a b) (h' : seriesLE b a) :
    a.treeSize = b.treeSize ∧ a.checkpointTime = b.checkpointTime := by
  have hsize := le_antisymm h.treeSize_le h'.treeSize_le
  rcases h with hlt | ⟨-, htime⟩
  · omega
  · rcases h' with hlt | ⟨-, htime'⟩
    · omega
    · exact ⟨hsize, le_antisymm htime htime'⟩

theorem seriesLE.total (a b : Checkpoint) : seriesLE a b ∨ seriesLE b a := by
  rcases Nat.lt_trichotomy a.treeSize b.treeSize with hlt | heq | hlt
  · exact Or.inl (Or.inl hlt)
  · rcases le_total a.checkpointTime b.checkpointTime with htime | htime
    · exact Or.inl (Or.inr ⟨heq, htime⟩)
    · exact Or.inr (Or.inr ⟨heq.symm, htime⟩)
  · exact Or.inr (Or.inl hlt)

instance : Std.Total seriesLE := ⟨seriesLE.total⟩

instance : IsTrans Checkpoint seriesLE := ⟨fun _ _ _ => seriesLE.trans⟩

theorem mem_rotationRows {db : Db} {index : Nat} {cp : Checkpoint} :
    cp ∈ rotationRows db index ↔ (index, cp) ∈ db.rotationCheckpoints := by
  unfold rotationRows
  rw [List.mem_insertionSort, List.mem_map]
  simp only [List.mem_filter, beq_iff_eq, Prod.exists, exists_eq_right]

theorem head?_rotationRows_le {db : Db} {index : Nat} {held cp : Checkpoint}
    (hheld : (rotationRows db index).head? = some held) (hcp : (index, cp) ∈ db.rotationCheckpoints) :
    seriesLE held cp := by
  have hsorted : (rotationRows db index).Pairwise seriesLE := List.pairwise_insertionSort _ _
  have hmem := mem_rotationRows.2 hcp
  cases hrows : rotationRows db index with
  | nil => simp [hrows] at hmem
  | cons head rest =>
    rw [hrows] at hheld hsorted hmem
    obtain rfl : head = held := Option.some.inj hheld
    rcases List.mem_cons.1 hmem with rfl | hrest
    · exact seriesLE.refl _
    · exact (List.pairwise_cons.1 hsorted).1 cp hrest

/-! ### Tree material -/

variable {H K : Type} (crates : Crates H K)

/-- The log leaf hash of the entry at a position. -/
def leafAt (db : Db) (index : Nat) : H := logLeafHash crates ((canonicalEntries db)[index]?.getD [])

/-- The log leaf hashes of the canonical entries. -/
def leafHashes (db : Db) : List H := (canonicalEntries db).map (logLeafHash crates)

@[simp] theorem length_leafHashes (db : Db) : (leafHashes crates db).length = db.entries.length := by
  simp [leafHashes]

theorem leafHashes_getElem (db : Db) {i : Nat} (h : i < (leafHashes crates db).length) :
    leafAt crates db i = (leafHashes crates db)[i] := by
  have hi : i < (canonicalEntries db).length := by simpa using h
  simp only [leafAt, leafHashes, List.getElem_map, List.getElem?_eq_getElem hi, Option.getD_some]

theorem mth_leafHashes {db : Db} {n : Nat} (hone : 1 ≤ n) (hle : n ≤ db.entries.length) :
    mth crates.hashChildren (crates.digest []) ((leafHashes crates db).take n) =
      spanRoot crates.hashChildren (leafAt crates db) 0 n :=
  mth_take crates.hashChildren _ _ _ hone (by simpa using hle) fun _ hi => leafHashes_getElem crates db hi

variable [HashOctets H]

theorem index_lt_of_le {n level index : Nat} (h : (index + 1) * 2 ^ level ≤ n) : index < n := by
  have hnext : index + 1 ≤ (index + 1) * 2 ^ level := Nat.le_mul_of_pos_right _ (Nat.two_pow_pos level)
  omega

theorem level_lt_of_le {n level index : Nat} (hn : n < u64Bound) (h : (index + 1) * 2 ^ level ≤ n) : level < 64 := by
  have hwidth : 2 ^ level ≤ (index + 1) * 2 ^ level := Nat.le_mul_of_pos_left _ (Nat.succ_pos index)
  apply (Nat.pow_lt_pow_iff_right (show 1 < 2 by decide)).1
  exact (hwidth.trans h).trans_lt hn

/-- A node `(level, index)` above the leaves whose leaves all lie below `n`. -/
def CompleteNode (n level index : Nat) : Prop := 1 ≤ level ∧ (index + 1) * 2 ^ level ≤ n

/-- The row a complete node is stored as. -/
def nodeRow (leaf : Nat → H) (level index : Nat) : SubtreeRow :=
  ⟨level, index, asSlice (nodeRoot crates.hashChildren leaf level index)⟩

/-- The primary key of `subtree_roots`. -/
def SubtreeRow.key (row : SubtreeRow) : Int × Int := (row.level, row.nodeIndex)

@[simp] theorem nodeRow_key (leaf : Nat → H) (level index : Nat) :
    (nodeRow crates leaf level index).key = ((level : Int), (index : Int)) := rfl

/-- Every stored node is a complete one of the first `n` leaves, with its root, stored once. -/
structure CacheSound (leaf : Nat → H) (n : Nat) (rows : List SubtreeRow) : Prop where
  complete : ∀ row ∈ rows, ∃ level index, CompleteNode n level index ∧ row = nodeRow crates leaf level index
  keys : (rows.map SubtreeRow.key).Nodup

/-- The stored nodes are exactly the complete ones. -/
structure CacheExact (leaf : Nat → H) (n : Nat) (rows : List SubtreeRow) : Prop
    extends CacheSound crates leaf n rows where
  covers : ∀ level index, CompleteNode n level index → nodeRow crates leaf level index ∈ rows

/-- The store holds its entries contiguously, and the tree material derived from them. -/
structure Represents (db : Db) : Prop extends Canonical db where
  leafHash : ∀ row ∈ db.entries, row.leafHash = some (asSlice (logLeafHash crates row.envelope))
  cache : CacheExact crates (leafAt crates db) db.entries.length db.subtreeRoots

variable {crates} in
theorem Represents.congr {db other : Db} (h : Represents crates db) (hentries : other.entries = db.entries)
    (hroots : other.subtreeRoots = db.subtreeRoots) : Represents crates other := by
  obtain ⟨⟨hcontiguous, hrepresentable, hdistinct⟩, hleaf, hcache⟩ := h
  have hsame : leafAt crates other = leafAt crates db := by
    funext index
    unfold leafAt canonicalEntries
    rw [hentries]
  rw [← hentries] at hcontiguous hrepresentable hdistinct hleaf hcache
  rw [← hroots, ← hsame] at hcache
  exact ⟨⟨hcontiguous, hrepresentable, hdistinct⟩, hleaf, hcache⟩

section lookup
variable {crates} {db : Db} {leaf : Nat → H} {n : Nat}

theorem subtreeBlob_of_mem {level index : Nat} (h : CacheSound crates leaf n db.subtreeRoots)
    (hmem : nodeRow crates leaf level index ∈ db.subtreeRoots) :
    subtreeBlob db level index = some (asSlice (nodeRoot crates.hashChildren leaf level index)) := by
  unfold subtreeBlob
  cases hfind : db.subtreeRoots.find? fun row => row.level == (level : Int) && row.nodeIndex == (index : Int) with
  | none =>
    have := List.find?_eq_none.1 hfind _ hmem
    simp [nodeRow] at this
  | some row =>
    obtain ⟨level', index', -, rfl⟩ := h.complete row (List.mem_of_find?_eq_some hfind)
    have hkey := List.find?_some hfind
    simp only [nodeRow, Bool.and_eq_true, beq_iff_eq, Int.natCast_inj] at hkey
    obtain ⟨rfl, rfl⟩ := hkey
    rfl

theorem CacheSound.complete_of_mem {rows : List SubtreeRow} {level index : Nat} (h : CacheSound crates leaf n rows)
    (hmem : nodeRow crates leaf level index ∈ rows) : CompleteNode n level index := by
  obtain ⟨level', index', hcomplete, hrow⟩ := h.complete _ hmem
  have hkey := congrArg SubtreeRow.key hrow
  simp only [nodeRow_key, Prod.mk.injEq, Int.natCast_inj] at hkey
  obtain ⟨rfl, rfl⟩ := hkey
  exact hcomplete

theorem subtreeBlob_eq_none {level index : Nat} (h : CacheSound crates leaf n db.subtreeRoots)
    (hnot : nodeRow crates leaf level index ∉ db.subtreeRoots) : subtreeBlob db level index = none := by
  unfold subtreeBlob
  rw [Option.map_eq_none_iff, List.find?_eq_none]
  intro row hrow hkey
  obtain ⟨level', index', -, rfl⟩ := h.complete row hrow
  simp only [nodeRow, Bool.and_eq_true, beq_iff_eq, Int.natCast_inj] at hkey
  obtain ⟨rfl, rfl⟩ := hkey
  exact hnot hrow

theorem treeNodeRaw_of_mem {level index : Nat} (h : CacheSound crates leaf n db.subtreeRoots)
    (hlevel : 1 ≤ level) (hindex : index < i64Bound)
    (hmem : nodeRow crates leaf level index ∈ db.subtreeRoots) :
    treeNodeRaw db level index = .ok (some (nodeRoot crates.hashChildren leaf level index)) := by
  unfold treeNodeRaw
  rw [toI64_of_lt hindex]
  simp only [ok_bind]
  rw [if_neg (by omega), subtreeBlob_of_mem h hmem]
  simp [hashOfBlob, okOr]

theorem treeNodeRaw_zero (hrows : Canonical db)
    (hleaf : ∀ row ∈ db.entries, row.leafHash = some (asSlice (logLeafHash crates row.envelope)))
    {index : Nat} (hindex : index < i64Bound) :
    treeNodeRaw db 0 index = .ok (if index < db.entries.length then some (leafAt crates db index) else none) := by
  unfold treeNodeRaw
  rw [toI64_of_lt hindex]
  simp only [ok_bind, if_pos]
  rw [hrows.entryAt]
  by_cases hlt : index < db.entries.length
  · rw [if_pos hlt, List.getElem?_eq_getElem hlt, Option.bind_some, hleaf _ (List.getElem_mem hlt)]
    simp [hashOfBlob, okOr, leafAt, canonicalEntries, hlt]
  · rw [if_neg hlt, List.getElem?_eq_none (by omega), Option.bind_none]

theorem Represents.treeNodeRaw (h : Represents crates db) {level index : Nat} (hindex : index < i64Bound) :
    treeNodeRaw db level index = .ok (if (index + 1) * 2 ^ level ≤ db.entries.length then
      some (nodeRoot crates.hashChildren (leafAt crates db) level index) else none) := by
  rcases Nat.eq_zero_or_pos level with rfl | hlevel
  · rw [treeNodeRaw_zero h.toCanonical h.leafHash hindex, pow_zero, Nat.mul_one, nodeRoot_zero]
    rfl
  · by_cases hcomplete : (index + 1) * 2 ^ level ≤ db.entries.length
    · rw [if_pos hcomplete]
      exact treeNodeRaw_of_mem h.cache.toCacheSound hlevel hindex (h.cache.covers level index ⟨hlevel, hcomplete⟩)
    · rw [if_neg hcomplete]
      unfold AhlMirror.treeNodeRaw
      rw [toI64_of_lt hindex]
      simp only [ok_bind]
      rw [if_neg (by omega), subtreeBlob_eq_none h.cache.toCacheSound fun hmem => hcomplete (h.cache.complete_of_mem hmem).2]

theorem Represents.index_lt (h : Represents crates db) {level index : Nat}
    (hcomplete : (index + 1) * 2 ^ level ≤ db.entries.length) : index < i64Bound :=
  (index_lt_of_le hcomplete).trans_le h.representable

theorem leafHashesRangeRaw_eq (hrows : Canonical db)
    (hleaf : ∀ row ∈ db.entries, row.leafHash = some (asSlice (logLeafHash crates row.envelope)))
    {a b : Nat} (ha : a < i64Bound) (hb : b < i64Bound) :
    leafHashesRangeRaw db a b = .ok (((leafHashes crates db).take b).drop a) := by
  unfold leafHashesRangeRaw
  rw [toI64_of_lt ha, toI64_of_lt hb]
  simp only [ok_bind]
  rw [hrows.entryRows]
  have hread : ∀ rows : List EntryRow, (∀ row ∈ rows, row.leafHash = some (asSlice (logLeafHash crates row.envelope))) →
      rows.mapM (fun row => do
        let blob ← okOr (.treeMaterialMissing 0 row.entryIndex) row.leafHash
        hashOfBlob 0 row.entryIndex blob) = .ok (rows.map fun row => logLeafHash crates row.envelope) := by
    intro rows hrows
    induction rows with
    | nil => rfl
    | cons row rows ih =>
      rw [List.mapM_cons, ih fun row' hrow' => hrows row' (List.mem_cons_of_mem _ hrow'),
        hrows row List.mem_cons_self]
      simp [okOr, hashOfBlob]
  rw [hread _ fun row hrow => hleaf row (List.mem_of_mem_take (List.mem_of_mem_drop hrow))]
  simp [leafHashes, canonicalEntries, List.map_take, List.map_drop, Function.comp_def]

theorem Represents.leafHashesRangeRaw (h : Represents crates db) {a b : Nat} (ha : a < i64Bound) (hb : b < i64Bound) :
    AhlMirror.leafHashesRangeRaw db a b = .ok (((leafHashes crates db).take b).drop a) :=
  leafHashesRangeRaw_eq h.toCanonical h.leafHash ha hb

end lookup

end AhlMirror
