import AhlMirror.Store.Rows

/-!
# Promotion keeps the representation

`extend_subtree_cache` climbs one level for each factor two of the leaf count. What its loop carries
is `Extending`: the cache is sound for all the leaves, complete for all of them below the current
level and, at every level, for all of them but the last. Where the loop stops, no node above the
current level ends at the last leaf, so the cache is exact.
-/

namespace AhlMirror

open AhlMirror.Core (Indexed)
open Merkle (nodeRoot nodeRoot_succ nodeRoot_congr)

variable {H K : Type} {crates : Crates H K}

theorem leafAt_congr {db after : Db} (h : after.entries = db.entries) : leafAt crates after = leafAt crates db := by
  funext i
  simp only [leafAt, canonicalEntries, h]

theorem leafAt_append (crates : Crates H K) {db after : Db} {rows : List EntryRow}
    (h : after.entries = db.entries ++ rows) {i : Nat}
    (hi : i < db.entries.length) : leafAt crates after i = leafAt crates db i := by
  simp only [leafAt, canonicalEntries, h, List.map_append]
  rw [List.getElem?_append_left (by simpa using hi)]

variable [HashOctets H]

/-! ### One row of the cache -/

theorem mem_putSubtreeRow {db : Db} {level index : Nat} {hash : Bytes} {row : SubtreeRow} :
    row ∈ (putSubtreeRow db level index hash).subtreeRoots ↔
      (row ∈ db.subtreeRoots ∧ row.key ≠ ((level : Int), (index : Int))) ∨ row = ⟨level, index, hash⟩ := by
  simp only [putSubtreeRow, List.mem_append, List.mem_filter, List.mem_singleton, SubtreeRow.key, Bool.not_eq_true',
    Bool.and_eq_false_iff, beq_eq_false_iff_ne, ne_eq, Prod.mk.injEq, not_and_or]

theorem CacheSound.put {leaf : Nat → H} {n : Nat} {db : Db} (h : CacheSound crates leaf n db.subtreeRoots)
    {level index : Nat} (hnode : CompleteNode n level index) :
    CacheSound crates leaf n
      (putSubtreeRow db level index (asSlice (nodeRoot crates.hashChildren leaf level index))).subtreeRoots where
  complete row hrow := by
    rcases mem_putSubtreeRow.1 hrow with ⟨hold, -⟩ | rfl
    · exact h.complete row hold
    · exact ⟨level, index, hnode, rfl⟩
  keys := by
    simp only [putSubtreeRow, List.map_append, List.map_singleton]
    apply List.Nodup.append (h.keys.sublist ((List.filter_sublist).map _)) (List.nodup_singleton _)
    intro key hold hnew
    obtain ⟨row, hrow, rfl⟩ := List.mem_map.1 hold
    have hkey := (List.mem_filter.1 hrow).2
    simp only [List.mem_singleton, SubtreeRow.key, Prod.mk.injEq] at hnew
    simp [hnew.1, hnew.2] at hkey

theorem nodeRow_mem_put {leaf : Nat → H} {db : Db} {level index level' index' : Nat}
    (hmem : nodeRow crates leaf level' index' ∈ db.subtreeRoots) :
    nodeRow crates leaf level' index' ∈
      (putSubtreeRow db level index (asSlice (nodeRoot crates.hashChildren leaf level index))).subtreeRoots := by
  rw [mem_putSubtreeRow]
  by_cases hkey : (nodeRow crates leaf level' index').key = ((level : Int), (index : Int))
  · rw [nodeRow_key, Prod.mk.injEq, Int.natCast_inj, Int.natCast_inj] at hkey
    obtain ⟨rfl, rfl⟩ := hkey
    exact Or.inr rfl
  · exact Or.inl ⟨hmem, hkey⟩

/-! ### The extension loop -/

variable (crates) in
/-- The cache while it is extended to `count` leaves, at the turn for `level`. -/
structure Extending (count level : Nat) (db : Db) : Prop where
  rows : Canonical db
  size : db.entries.length = count
  leafHash : ∀ row ∈ db.entries, row.leafHash = some (asSlice (logLeafHash crates row.envelope))
  sound : CacheSound crates (leafAt crates db) count db.subtreeRoots
  covers : ∀ l j, CompleteNode count l j → l < level ∨ (j + 1) * 2 ^ l < count →
    nodeRow crates (leafAt crates db) l j ∈ db.subtreeRoots

section loop
variable {count level : Nat} {db : Db}

theorem Extending.exact (h : Extending crates count level db)
    (hnone : ∀ l j, level ≤ l → (j + 1) * 2 ^ l ≠ count) :
    CacheExact crates (leafAt crates db) count db.subtreeRoots where
  toCacheSound := h.sound
  covers l j hnode := by
    apply h.covers l j hnode
    by_cases hl : l < level
    · exact Or.inl hl
    · have := hnone l j (by omega)
      have := hnode.2
      omega

theorem Extending.requireNode (h : Extending crates count (level + 1) db) {index : Nat}
    (hnode : (index + 1) * 2 ^ level ≤ count) (hindex : index < i64Bound) :
    requireNode db level index = .ok (nodeRoot crates.hashChildren (leafAt crates db) level index) := by
  unfold AhlMirror.requireNode
  rcases Nat.eq_zero_or_pos level with rfl | hlevel
  · have hheld : index < db.entries.length := by
      rw [h.size]
      simp only [pow_zero, Nat.mul_one] at hnode
      omega
    rw [treeNodeRaw_zero h.rows h.leafHash hindex, if_pos hheld]
    simp [okOr]
  · rw [treeNodeRaw_of_mem h.sound hlevel hindex (h.covers level index ⟨hlevel, hnode⟩ (Or.inl (by omega)))]
    rfl

theorem Extending.put (h : Extending crates count level db) {index : Nat} (hlevel : 1 ≤ level)
    (hlast : (index + 1) * 2 ^ level = count) :
    Extending crates count (level + 1)
      (putSubtreeRow db level index (asSlice (nodeRoot crates.hashChildren (leafAt crates db) level index))) where
  rows := ⟨h.rows.contiguous, h.rows.representable, h.rows.distinct⟩
  size := h.size
  leafHash := h.leafHash
  sound := h.sound.put ⟨hlevel, hlast.le⟩
  covers l j hnode hwhich := by
    show nodeRow crates (leafAt crates db) l j ∈ _
    by_cases hold : l < level ∨ (j + 1) * 2 ^ l < count
    · exact nodeRow_mem_put (h.covers l j hnode hold)
    · obtain rfl : l = level := by omega
      have hj : (j + 1) * 2 ^ l = (index + 1) * 2 ^ l := by
        have := hnode.2
        omega
      obtain rfl : j = index := by
        have := Nat.eq_of_mul_eq_mul_right (Nat.two_pow_pos l) hj
        omega
      exact mem_putSubtreeRow.2 (Or.inr rfl)

theorem Extending.turn {child : Nat} (h : Extending crates count (child + 1) db) {index : Nat} (fuel : Nat)
    (hlevel : child + 1 ≤ MAX_SUBTREE_LEVEL) (hcount : count ≤ i64Bound)
    (hlast : (index + 1) * 2 ^ (child + 1) = count) :
    extendSubtreeCacheLoop crates count (fuel + 1) (child + 1) (2 ^ (child + 1)) db =
      match checkedMul (2 ^ (child + 1)) 2 with
      | none => .ok (putSubtreeRow db (child + 1) index
          (asSlice (nodeRoot crates.hashChildren (leafAt crates db) (child + 1) index)))
      | some width => extendSubtreeCacheLoop crates count fuel (child + 1 + 1) width
          (putSubtreeRow db (child + 1) index
            (asSlice (nodeRoot crates.hashChildren (leafAt crates db) (child + 1) index))) := by
  have hu64 := i64Bound_lt_u64Bound
  have hwidth := Nat.two_pow_pos (child + 1)
  have hdiv : count / 2 ^ (child + 1) = index + 1 := by rw [← hlast, Nat.mul_div_cancel _ hwidth]
  have hhalves : (2 * index + 1 + 1) * 2 ^ child = count := by rw [← hlast, pow_succ]; ring
  have hindex : 2 * index + 1 < i64Bound := (index_lt_of_le hhalves.le).trans_le hcount
  have hle : 2 ^ (child + 1) ≤ count := by
    rw [← hlast]
    exact Nat.le_mul_of_pos_left _ (by omega)
  rw [extendSubtreeCacheLoop, if_neg (not_not.2 ⟨hlevel, hle⟩)]
  dsimp only
  rw [checkedRem_of_pos hwidth, ← hlast, Nat.mul_mod_left, hlast]
  simp only [okOr, ok_bind, ne_eq, not_true_eq_false, if_false]
  rw [checkedDiv_of_pos hwidth, hdiv]
  simp only [Option.bind_some]
  rw [checkedSub_of_le (by omega), Nat.add_sub_cancel]
  simp only [ok_bind]
  rw [checkedMul_of_lt (by omega), Nat.mul_comm index 2]
  simp only [ok_bind]
  rw [checkedAdd_of_lt (by omega)]
  simp only [ok_bind]
  rw [checkedSub_of_le (by omega), Nat.add_sub_cancel]
  simp only [ok_bind]
  rw [h.requireNode (by rw [← hhalves]; exact Nat.mul_le_mul_right _ (by omega)) (by omega)]
  simp only [ok_bind]
  rw [h.requireNode hhalves.le hindex]
  simp only [ok_bind]
  rw [toI64_of_lt (by omega), ← nodeRoot_succ crates.hashChildren]
  rfl

/-- From each level on, the loop writes what is left of the nodes that end at the last leaf. -/
theorem extendSubtreeCacheLoop_spec (crates : Crates H K) (fuel : Nat) :
    ∀ (level : Nat) (db : Db), fuel + level = MAX_SUBTREE_LEVEL + 1 →
    1 ≤ level → 1 ≤ count → count ≤ i64Bound → Extending crates count level db →
      ∃ rows, extendSubtreeCacheLoop crates count fuel level (2 ^ level) db = .ok { db with subtreeRoots := rows } ∧
        CacheExact crates (leafAt crates db) count rows := by
  have hmax : MAX_SUBTREE_LEVEL = 63 := rfl
  induction fuel with
  | zero =>
    intro level db hfuel hlevel hpos hcount h
    refine ⟨db.subtreeRoots, rfl, h.exact fun l j hl hlast => ?_⟩
    have := level_lt_of_le (hcount.trans_lt i64Bound_lt_u64Bound) hlast.le
    omega
  | succ fuel ih =>
    intro level db hfuel hlevel hpos hcount h
    by_cases hdvd : 2 ^ level ∣ count
    · obtain ⟨q, hq⟩ := hdvd
      obtain ⟨index, rfl⟩ : ∃ index, q = index + 1 := Nat.exists_eq_succ_of_ne_zero (by rintro rfl; omega)
      obtain ⟨child, rfl⟩ : ∃ child, level = child + 1 := Nat.exists_eq_succ_of_ne_zero (by omega)
      have hlast : (index + 1) * 2 ^ (child + 1) = count := by rw [hq, Nat.mul_comm]
      have hput := h.put hlevel hlast
      rw [h.turn fuel (by omega) hcount hlast]
      by_cases htop : child + 1 = 63
      · have hnone : checkedMul (2 ^ (child + 1)) 2 = none := by rw [htop]; decide
        rw [hnone]
        refine ⟨_, rfl, hput.exact fun l j hl hlast => ?_⟩
        have := level_lt_of_le (hcount.trans_lt i64Bound_lt_u64Bound) hlast.le
        omega
      · have hnext : checkedMul (2 ^ (child + 1)) 2 = some (2 ^ (child + 1 + 1)) := by
          rw [checkedMul_of_lt, pow_succ 2 (child + 1)]
          have : 2 ^ (child + 1) ≤ 2 ^ 62 := Nat.pow_le_pow_right (by omega) (by omega)
          have : u64Bound = 2 ^ 64 := rfl
          omega
        rw [hnext]
        exact ih (child + 1 + 1) _ (by omega) (by omega) hpos hcount hput
    · -- a node from this level up ends at a multiple of this level's width
      refine ⟨db.subtreeRoots, ?_, h.exact fun l j hl hlast => hdvd (hlast ▸ Dvd.dvd.mul_left (pow_dvd_pow 2 hl) _)⟩
      unfold extendSubtreeCacheLoop
      by_cases hrange : level ≤ MAX_SUBTREE_LEVEL ∧ 2 ^ level ≤ count
      · rw [if_neg (not_not.2 hrange)]
        dsimp only
        rw [checkedRem_of_pos (Nat.two_pow_pos level)]
        simp only [okOr, ok_bind]
        rw [if_pos fun hzero => hdvd (Nat.dvd_of_mod_eq_zero hzero)]
      · rw [if_pos hrange]

end loop

/-! ### A promotion -/

/-- The row a promotion appends. -/
def promotedRow (crates : Crates H K) (db : Db) (entryId : String) (bytes : Bytes) : EntryRow :=
  ⟨db.entries.length, entryId, bytes, some (asSlice (logLeafHash crates bytes))⟩

/-- The store with the next row, its cache still that of the rows before. -/
def withNextRow (crates : Crates H K) (db : Db) (entryId : String) (bytes : Bytes) : Db :=
  { db with entries := db.entries ++ [promotedRow crates db entryId bytes] }

theorem Represents.withNextRow {db : Db} (h : Represents crates db) (entryId : String) (bytes : Bytes)
    (hroom : db.entries.length < i64Bound) (hfresh : entryId ∉ db.entries.map (·.entryId)) :
    Extending crates (db.entries.length + 1) 1 (withNextRow crates db entryId bytes) := by
  have hentries : (AhlMirror.withNextRow crates db entryId bytes).entries =
      db.entries ++ [promotedRow crates db entryId bytes] := rfl
  have hsame : ∀ l j, (j + 1) * 2 ^ l ≤ db.entries.length →
      nodeRow crates (leafAt crates (AhlMirror.withNextRow crates db entryId bytes)) l j =
        nodeRow crates (leafAt crates db) l j := by
    intro l j hle
    unfold nodeRow
    rw [nodeRoot_congr crates.hashChildren hle fun i hi => leafAt_append crates hentries hi]
  refine ⟨⟨Indexed.concat_iff.2 ⟨h.contiguous, rfl⟩, ?_, ?_⟩, by simp [hentries], ?_, ⟨?_, h.cache.keys⟩, ?_⟩
  · simp only [hentries, List.length_append, List.length_singleton]
    omega
  · rw [hentries, List.map_append]
    exact h.distinct.append (List.nodup_singleton _) (by simpa [promotedRow] using hfresh)
  · intro row hrow
    rcases List.mem_append.1 hrow with hold | hnew
    · exact h.leafHash row hold
    · rw [List.mem_singleton.1 hnew]
      rfl
  · intro row hrow
    obtain ⟨l, j, hnode, rfl⟩ := h.cache.complete row hrow
    exact ⟨l, j, ⟨hnode.1, hnode.2.trans (Nat.le_succ _)⟩, (hsame l j hnode.2).symm⟩
  · intro l j hnode hwhich
    have hle : (j + 1) * 2 ^ l ≤ db.entries.length := by
      have := hnode.1
      omega
    rw [hsame l j hle]
    exact h.cache.covers l j ⟨hnode.1, hle⟩

/-- Appending the next row and extending the cache keeps the representation, and never fails. -/
theorem Represents.extend {db : Db} (h : Represents crates db) (entryId : String) (bytes : Bytes)
    (hroom : db.entries.length < i64Bound) (hfresh : entryId ∉ db.entries.map (·.entryId)) :
    ∃ rows, extendSubtreeCache crates { db with entries := db.entries ++ [promotedRow crates db entryId bytes] }
        db.entries.length = .ok { db with
          entries := db.entries ++ [promotedRow crates db entryId bytes], subtreeRoots := rows } ∧
      Represents crates { db with
        entries := db.entries ++ [promotedRow crates db entryId bytes], subtreeRoots := rows } := by
  have hextending := h.withNextRow entryId bytes hroom hfresh
  obtain ⟨rows, hloop, hexact⟩ := extendSubtreeCacheLoop_spec crates MAX_SUBTREE_LEVEL 1
    (AhlMirror.withNextRow crates db entryId bytes) rfl le_rfl (by omega) (by omega) hextending
  have hrows := hextending.rows
  refine ⟨rows, ?_, ⟨⟨hrows.contiguous, hrows.representable, hrows.distinct⟩, hextending.leafHash, ?_⟩⟩
  · unfold extendSubtreeCache
    rw [checkedAdd_of_lt (by have := i64Bound_lt_u64Bound; omega)]
    exact hloop
  · rw [← hextending.size] at hexact
    exact hexact

theorem promoteEntryRaw_cases {db : Db} (h : Represents crates db) {entryIndex : Nat} {entryId : String}
    {outcome : InsertOutcome} {after : Db} (hok : promoteEntryRaw crates db entryIndex entryId = .ok (outcome, after)) :
    (after = db ∧ entryIndex < db.entries.length ∧ ∃ row ∈ db.entries, row.entryIndex = entryIndex ∧ row.entryId = entryId) ∨
      ∃ bytes rows, getStagedRaw db entryId = some bytes ∧ entryIndex = db.entries.length ∧
      entryIndex < i64Bound ∧ after = { db with
        entries := db.entries ++ [promotedRow crates db entryId bytes], subtreeRoots := rows } ∧
      Represents crates after := by
  unfold promoteEntryRaw at hok
  simp only [bind_eq_ok, toI64_eq_ok, okOr_eq_ok] at hok
  obtain ⟨index, ⟨hindex, rfl⟩, bytes, hstaged, hok⟩ := hok
  cases hat : entryAt db index with
  | some existing =>
    simp only [hat] at hok
    split_ifs at hok with hsame
    obtain ⟨rfl, rfl⟩ := Prod.mk.inj (Except.ok.inj hok)
    rw [h.toCanonical.entryAt] at hat
    obtain ⟨hlt, rfl⟩ := List.getElem?_eq_some_iff.1 hat
    exact Or.inl ⟨rfl, hlt, _, List.getElem_mem hlt, h.contiguous.getElem hlt, hsame.1⟩
  | none =>
    simp only [hat] at hok
    cases hid : getEntryById db entryId with
    | some existing =>
      simp only [hid] at hok
      cases hok
    | none =>
      simp only [hid] at hok
      rw [h.toCanonical.nextIndex] at hok
      simp only [ok_bind] at hok
      split_ifs at hok with hnext
      rw [not_not] at hnext
      subst hnext
      have hfresh : entryId ∉ db.entries.map (·.entryId) := by
        intro hmem
        obtain ⟨row, hrow, rfl⟩ := List.mem_map.1 hmem
        unfold getEntryById at hid
        rw [Option.map_eq_none_iff, List.find?_eq_none] at hid
        exact hid row hrow (by simp)
      obtain ⟨rows, hextend, hrep⟩ := h.extend entryId bytes hindex hfresh
      rw [bind_eq_ok] at hok
      obtain ⟨after', hextend', hok⟩ := hok
      have hafter : after' = _ := Except.ok.inj (hextend'.symm.trans hextend)
      obtain ⟨rfl, rfl⟩ := Prod.mk.inj (Except.ok.inj hok)
      exact Or.inr ⟨bytes, rows, hstaged, rfl, hindex, hafter, hafter ▸ hrep⟩

end AhlMirror
