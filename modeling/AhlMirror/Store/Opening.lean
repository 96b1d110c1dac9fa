import AhlMirror.Store.Calls

/-!
# Opening restores the representation

Whatever a crash leaves behind of a migration is `OnDisk`: entries in place, leaf hashes missing or
right, and a cache of which every row is right. Here the schema and the leaf hashes: the backfill ends
with every row filled, whatever it found.
-/

namespace AhlMirror

open AhlMirror.Core (Indexed)
open AhlMirror.Core.Committing (Keeps statement)

variable {H K : Type} [HashOctets H] {crates : Crates H K}

/-! ### What a crash can leave -/

variable (crates) in
/-- Entries in place; leaf hashes missing or right; every cached node right. -/
structure OnDisk (db : Db) : Prop extends Canonical db where
  leafHash : ∀ row ∈ db.entries, row.leafHash = none ∨ row.leafHash = some (asSlice (logLeafHash crates row.envelope))
  cache : CacheSound crates (leafAt crates db) db.entries.length db.subtreeRoots

/-- Every row has its leaf hash. -/
def Filled (db : Db) : Prop := ∀ row ∈ db.entries, row.leafHash.isSome

theorem Represents.onDisk {db : Db} (h : Represents crates db) : OnDisk crates db :=
  ⟨h.toCanonical, fun row hrow => Or.inr (h.leafHash row hrow), h.cache.toCacheSound⟩

theorem OnDisk.represents {db : Db} (h : OnDisk crates db) (hfilled : Filled db)
    (hcovers : ∀ level index, CompleteNode db.entries.length level index →
      nodeRow crates (leafAt crates db) level index ∈ db.subtreeRoots) : Represents crates db where
  toCanonical := h.toCanonical
  leafHash row hrow := by
    rcases h.leafHash row hrow with hnone | hsome
    · exact absurd (hfilled row hrow) (by simp [hnone])
    · exact hsome
  cache := ⟨h.cache, hcovers⟩

theorem OnDisk.fresh : OnDisk crates Db.fresh where
  contiguous := Indexed.nil
  representable := Nat.zero_le _
  distinct := List.nodup_nil
  leafHash := by simp [Db.fresh]
  cache := ⟨by simp [Db.fresh], List.nodup_nil⟩

theorem PreLeafHash.onDisk {db : Db} (h : PreLeafHash db) : OnDisk crates db where
  contiguous := h.contiguous
  representable := h.representable
  distinct := h.distinct
  leafHash row hrow := Or.inl (h.noLeafHash row hrow)
  cache := by
    rw [h.noSubtreeRoots]
    exact ⟨by simp, List.nodup_nil⟩

theorem OnDisk.mapLeafHash {db after : Db} (h : OnDisk crates db) {f : EntryRow → EntryRow}
    (hentries : after.entries = db.entries.map f) (hroots : after.subtreeRoots = db.subtreeRoots)
    (hsame : ∀ row ∈ db.entries, (f row).entryIndex = row.entryIndex ∧ (f row).entryId = row.entryId ∧
      (f row).envelope = row.envelope)
    (hleaf : ∀ row ∈ db.entries, (f row).leafHash = none ∨
      (f row).leafHash = some (asSlice (logLeafHash crates row.envelope))) : OnDisk crates after := by
  have hmap : ∀ {α : Type} (g : EntryRow → α), (∀ row ∈ db.entries, g (f row) = g row) →
      after.entries.map g = db.entries.map g := by
    intro α g hg
    rw [hentries, List.map_map]
    exact List.map_congr_left hg
  have hlength : after.entries.length = db.entries.length := by rw [hentries, List.length_map]
  have hleafAt : leafAt crates after = leafAt crates db := by
    funext i
    rw [leafAt, leafAt, canonicalEntries, hmap _ fun row hrow => (hsame row hrow).2.2]
    rfl
  refine ⟨⟨?_, hlength ▸ h.representable, ?_⟩, ?_, ?_⟩
  · show after.entries.map _ = _
    rw [hmap _ fun row hrow => (hsame row hrow).1, hlength]
    exact h.contiguous
  · rw [hmap _ fun row hrow => (hsame row hrow).2.1]
    exact h.distinct
  · intro row hrow
    rw [hentries] at hrow
    obtain ⟨held, hheld, rfl⟩ := List.mem_map.1 hrow
    rw [(hsame held hheld).2.2]
    exact hleaf held hheld
  · rw [hroots, hlength, hleafAt]
    exact h.cache

/-! ### The schema and the column -/

theorem createEntriesTable_keeps : Keeps (OnDisk crates) (OnDisk crates)
    (statement fun db => .ok (createEntriesTable db) : Migration Unit) fun _ => OnDisk crates := by
  apply Keeps.statement
  intro db after h hafter
  obtain rfl := Except.ok.inj hafter
  have hkeep : OnDisk crates (createEntriesTable db) := by
    unfold createEntriesTable
    split
    · exact ⟨⟨h.contiguous, h.representable, h.distinct⟩, h.leafHash, h.cache⟩
    · exact h
  exact ⟨hkeep, hkeep⟩

theorem addLeafHashColumn_keeps : Keeps (OnDisk crates) (OnDisk crates) addLeafHashColumn fun _ => OnDisk crates := by
  refine (Keeps.query (Q := fun _ => OnDisk crates) fun db schema h _ => h).bind fun schema => ?_
  split_ifs
  · exact Keeps.pure fun db h => h
  · apply Keeps.statement
    intro db after h hafter
    obtain rfl := Except.ok.inj hafter
    have hkeep : OnDisk crates { db with
        entriesSchema := .current, entries := db.entries.map fun row => { row with leafHash := none } } :=
      h.mapLeafHash rfl rfl (fun row _ => ⟨rfl, rfl, rfl⟩) fun row _ => Or.inl rfl
    exact ⟨hkeep, hkeep⟩

/-! ### The leaf hashes -/

/-- How many rows have no leaf hash. -/
def unfilled (db : Db) : Nat := (db.entries.filter fun row => row.leafHash.isNone).length

/-- The table holds a row with this row's index and envelope. -/
def Held (row : EntryRow) (db : Db) : Prop :=
  ∃ held ∈ db.entries, held.entryIndex = row.entryIndex ∧ held.envelope = row.envelope

theorem updateLeafHash_entries (db : Db) (row : EntryRow) : (updateLeafHash crates db row).entries =
    db.entries.map fun held => if held.entryIndex = row.entryIndex then
      { held with leafHash := some (asSlice (logLeafHash crates row.envelope)) } else held := rfl

theorem Canonical.eq_of_entryIndex {db : Db} (h : Canonical db) {a b : EntryRow} (ha : a ∈ db.entries)
    (hb : b ∈ db.entries) (heq : a.entryIndex = b.entryIndex) : a = b := by
  obtain ⟨i, hi, rfl⟩ := List.mem_iff_getElem.1 ha
  obtain ⟨j, hj, rfl⟩ := List.mem_iff_getElem.1 hb
  rw [h.contiguous.getElem hi, h.contiguous.getElem hj] at heq
  simp only [heq]

theorem OnDisk.updateLeafHash {db : Db} (h : OnDisk crates db) {row : EntryRow} (hheld : Held row db) :
    OnDisk crates (updateLeafHash crates db row) := by
  obtain ⟨held, hmem, hindex, henvelope⟩ := hheld
  refine h.mapLeafHash (updateLeafHash_entries db row) rfl (fun other _ => ?_) fun other hother => ?_
  · split_ifs <;> exact ⟨rfl, rfl, rfl⟩
  · split_ifs with hsame
    · obtain rfl := h.toCanonical.eq_of_entryIndex hother hmem (hsame.trans hindex.symm)
      rw [henvelope]
      exact Or.inr rfl
    · exact h.leafHash other hother

theorem Held.updateLeafHash {db : Db} {row other : EntryRow} (h : Held other db) :
    Held other (updateLeafHash crates db row) := by
  obtain ⟨held, hmem, hindex, henvelope⟩ := h
  refine ⟨_, List.mem_map_of_mem hmem, ?_, ?_⟩
  · split_ifs <;> exact hindex
  · split_ifs <;> exact henvelope

theorem unfilled_updateLeafHash_sublist (crates : Crates H K) (db : Db) (row : EntryRow) :
    List.Sublist (((updateLeafHash crates db row).entries.filter fun row => row.leafHash.isNone).map (·.entryIndex))
      ((db.entries.filter fun row => row.leafHash.isNone).map (·.entryIndex)) := by
  rw [updateLeafHash_entries]
  generalize db.entries = entries
  induction entries with
  | nil => simp
  | cons held entries ih =>
    by_cases hsame : held.entryIndex = row.entryIndex
    · cases hleaf : held.leafHash with
      | none => simpa [hsame, hleaf] using ih.cons _
      | some leaf => simpa [hsame, hleaf] using ih
    · cases hleaf : held.leafHash with
      | none => simpa [hsame, hleaf] using ih
      | some leaf => simpa [hsame, hleaf] using ih

theorem unfilled_updateLeafHash_le (db : Db) (row : EntryRow) :
    unfilled (updateLeafHash crates db row) ≤ unfilled db := by
  simpa [unfilled] using (unfilled_updateLeafHash_sublist crates db row).length_le

theorem unfilled_updateLeafHash_lt {db : Db} {row : EntryRow} (hmem : row ∈ db.entries) (hnone : row.leafHash = none) :
    unfilled (updateLeafHash crates db row) < unfilled db := by
  have hsub := unfilled_updateLeafHash_sublist crates db row
  apply lt_of_le_of_ne (unfilled_updateLeafHash_le db row)
  intro hlength
  have heq := hsub.eq_of_length (by simpa [unfilled] using hlength)
  have hrow : row.entryIndex ∈ (db.entries.filter fun row => row.leafHash.isNone).map (·.entryIndex) :=
    List.mem_map_of_mem (List.mem_filter.2 ⟨hmem, by simp [hnone]⟩)
  rw [← heq] at hrow
  obtain ⟨held, hheld, hindex⟩ := List.mem_map.1 hrow
  obtain ⟨hheld, hleaf⟩ := List.mem_filter.1 hheld
  rw [updateLeafHash_entries] at hheld
  obtain ⟨old, -, rfl⟩ := List.mem_map.1 hheld
  by_cases hsame : old.entryIndex = row.entryIndex
  · simp [hsame] at hleaf
  · simp [hsame] at hindex

theorem mem_backfillBatch {db : Db} {row : EntryRow} (h : row ∈ backfillBatch db) :
    row ∈ db.entries ∧ row.leafHash = none := by
  have hmem := List.mem_of_mem_take h
  rw [List.mem_insertionSort, List.mem_filter] at hmem
  exact ⟨hmem.1, by simpa using hmem.2⟩

theorem filled_of_backfillBatch_nil {db : Db} (h : backfillBatch db = []) : Filled db := by
  intro row hrow
  have hbatch : BACKFILL_BATCH ≠ 0 := by decide
  have hsorted : (db.entries.filter fun row => row.leafHash.isNone).insertionSort
      (fun a b => a.entryIndex ≤ b.entryIndex) = [] := by
    rcases List.take_eq_nil_iff.1 h with hzero | hnil
    · exact absurd hzero hbatch
    · exact hnil
  by_contra hnone
  have hmem : row ∈ (db.entries.filter fun row => row.leafHash.isNone).insertionSort
      fun a b => a.entryIndex ≤ b.entryIndex :=
    (List.mem_insertionSort _).2 (List.mem_filter.2 ⟨hrow, by simpa using hnone⟩)
  rw [hsorted] at hmem
  simp at hmem

/-- One turn over a batch leaves fewer rows unfilled: its first row was not filled, and no later one undoes it. -/
theorem unfilled_updateLeafHash {left : Nat} {done rest : List EntryRow} {row : EntryRow} {db : Db}
    (hstart : done = [] → row :: rest = backfillBatch db ∧ unfilled db ≤ left)
    (hprogress : done ≠ [] → unfilled db < left) : unfilled (updateLeafHash crates db row) < left := by
  by_cases hdone : done = []
  · obtain ⟨hbatch, hleft⟩ := hstart hdone
    obtain ⟨hmem, hnone⟩ := mem_backfillBatch (hbatch ▸ List.mem_cons_self : row ∈ backfillBatch db)
    exact (unfilled_updateLeafHash_lt hmem hnone).trans_le hleft
  · exact (unfilled_updateLeafHash_le db row).trans_lt (hprogress hdone)

/-- What the batch loop carries: once a row of the batch is filled, fewer are left. -/
structure Filling (crates : Crates H K) (left : Nat) (done rest : List EntryRow) (db : Db) : Prop where
  onDisk : OnDisk crates db
  held : ∀ row ∈ rest, Held row db
  start : done = [] → rest = backfillBatch db ∧ unfilled db ≤ left
  progress : done ≠ [] → unfilled db < left

theorem backfillBatch_keeps (left : Nat) (done : List EntryRow) (row : EntryRow) (rest : List EntryRow) :
    Keeps (Filling crates left done (row :: rest)) (OnDisk crates)
      (statement fun db => .ok (updateLeafHash crates db row) : Migration Unit)
      fun _ => Filling crates left (done ++ [row]) rest := by
  apply Keeps.statement
  intro db after h hafter
  obtain rfl := Except.ok.inj hafter
  have honDisk := h.onDisk.updateLeafHash (h.held row List.mem_cons_self)
  refine ⟨honDisk, honDisk, fun other hother => (h.held other (List.mem_cons_of_mem _ hother)).updateLeafHash,
    fun hnil => by simp at hnil, fun _ => unfilled_updateLeafHash h.start h.progress⟩

theorem backfillLoop_keeps : ∀ fuel : Nat, Keeps (fun db => OnDisk crates db ∧ unfilled db < fuel) (OnDisk crates)
    (backfillLoop crates fuel) fun _ db => OnDisk crates db ∧ Filled db
  | 0 => Keeps.pure fun db h => absurd h.2 (Nat.not_lt_zero _)
  | fuel + 1 => by
    refine (Keeps.query (Q := fun batch db => (OnDisk crates db ∧ unfilled db < fuel + 1) ∧ batch = backfillBatch db)
      fun db batch h hbatch => ⟨h, (Except.ok.inj hbatch).symm⟩).bind fun batch => ?_
    split_ifs with hempty
    · exact Keeps.pure fun db h => ⟨h.1.1, filled_of_backfillBatch_nil (h.2 ▸ hempty)⟩
    · refine ((Keeps.forEach (Filling crates fuel) (backfillBatch_keeps fuel) batch []).consequence
        (fun db h => ?_) (fun _ db h => h)).bind fun _ =>
          (backfillLoop_keeps fuel).consequence (fun db h => ?_) fun _ db h => h
      · obtain ⟨⟨honDisk, hleft⟩, rfl⟩ := h
        exact ⟨honDisk, fun row hrow => ⟨row, (mem_backfillBatch hrow).1, rfl, rfl⟩,
          fun _ => ⟨rfl, by omega⟩, fun hne => absurd rfl hne⟩
      · exact ⟨h.onDisk, h.progress (by simpa using hempty)⟩

theorem backfillBatch_fills (crates : Crates H K) (left : Nat) (done : List EntryRow) (row : EntryRow)
    (rest : List EntryRow) :
    Keeps (fun db => (done = [] → row :: rest = backfillBatch db ∧ unfilled db ≤ left) ∧ (done ≠ [] → unfilled db < left))
      (fun _ => True) (statement fun db => .ok (updateLeafHash crates db row) : Migration Unit)
      fun _ db => (done ++ [row] = [] → rest = backfillBatch db ∧ unfilled db ≤ left) ∧
        (done ++ [row] ≠ [] → unfilled db < left) := by
  apply Keeps.statement
  intro db after h hafter
  obtain rfl := Except.ok.inj hafter
  exact ⟨trivial, fun hnil => by simp at hnil, fun _ => unfilled_updateLeafHash h.1 h.2⟩

theorem backfillLoop_fills (crates : Crates H K) : ∀ fuel : Nat,
    Keeps (fun db => unfilled db < fuel) (fun _ => True) (backfillLoop crates fuel) fun _ db => Filled db
  | 0 => Keeps.pure fun db h => absurd h (Nat.not_lt_zero _)
  | fuel + 1 => by
    refine (Keeps.query (Q := fun batch db => unfilled db < fuel + 1 ∧ batch = backfillBatch db)
      fun db batch h hbatch => ⟨h, (Except.ok.inj hbatch).symm⟩).bind fun batch => ?_
    split_ifs with hempty
    · exact Keeps.pure fun db h => filled_of_backfillBatch_nil (h.2 ▸ hempty)
    · refine ((Keeps.forEach (fun done rest db => (done = [] → rest = backfillBatch db ∧ unfilled db ≤ fuel) ∧
        (done ≠ [] → unfilled db < fuel)) (backfillBatch_fills crates fuel) batch []).consequence
          (fun db h => ?_) fun _ db h => h).bind fun _ =>
            (backfillLoop_fills crates fuel).consequence (fun db h => ?_) fun _ db h => h
      · obtain ⟨hleft, rfl⟩ := h
        exact ⟨fun _ => ⟨rfl, by omega⟩, fun hne => absurd rfl hne⟩
      · exact h.2 (by simpa using hempty)

theorem backfillLeafHashes_fills (crates : Crates H K) :
    Keeps (fun _ => True) (fun _ => True) (backfillLeafHashes crates) fun _ db => Filled db :=
  (Keeps.query (Q := fun count db => count = unfilled db) fun _ _ _ hcount => (Except.ok.inj hcount).symm).bind
    fun count => (backfillLoop_fills crates (count + 1)).consequence (fun db h => by omega) fun _ _ h => h

theorem backfillLeafHashes_keeps : Keeps (OnDisk crates) (OnDisk crates) (backfillLeafHashes crates)
    fun _ db => OnDisk crates db ∧ Filled db := by
  refine (Keeps.query (Q := fun count db => OnDisk crates db ∧ count = unfilled db)
    fun db count h hcount => ⟨h, (Except.ok.inj hcount).symm⟩).bind fun count => ?_
  exact (backfillLoop_keeps (count + 1)).consequence (fun db h => ⟨h.1, by omega⟩) fun _ db h => h

end AhlMirror
