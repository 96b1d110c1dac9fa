import AhlMirror.Model.Symbolic
import AhlMirror.Series.View

/-!
# Divergence detection

The scan over the two checkpoint tables finds each size at which they hold two roots, once and in order,
however often a checkpoint occurs in them and in whatever order the rows of one size and time come.
-/

namespace AhlMirror

/-! ### The scan -/

/-- What is pushed last is no smaller than what was found before, so the findings ascend strictly. -/
theorem pushDivergence_increasing {divergences : List Nat} {size : Nat} (h : divergences.Pairwise (· < ·))
    (hle : ∀ n ∈ divergences, n ≤ size) : (pushDivergence divergences size).Pairwise (· < ·) := by
  unfold pushDivergence
  split_ifs with hlast
  · exact h
  · refine List.pairwise_append.2 ⟨h, List.pairwise_singleton _ _, ?_⟩
    rintro n hn _ hsize
    rw [List.mem_singleton.1 hsize]
    refine lt_of_le_of_ne (hle n hn) ?_
    rintro rfl
    -- the greatest of an ascending list stands last
    obtain ⟨init, last, rfl⟩ := List.eq_nil_or_concat divergences |>.resolve_left (List.ne_nil_of_mem hn)
    rw [List.concat_eq_append] at h hle hlast hn
    rcases List.mem_append.1 hn with hearlier | hsame
    · have hlt := (List.pairwise_append.1 h).2.2 n hearlier last (List.mem_singleton_self last)
      have := hle last (List.mem_append_right _ (List.mem_singleton_self last))
      omega
    · exact hlast (by simp [List.mem_singleton.1 hsame])

theorem findRootDivergencesFrom_increasing : ∀ {rows : List Checkpoint} {divergences : List Nat},
    (rows.Pairwise fun x y => x.treeSize ≤ y.treeSize) → divergences.Pairwise (· < ·) →
      (∀ n ∈ divergences, ∀ row ∈ rows, n ≤ row.treeSize) →
        (findRootDivergencesFrom divergences rows).Pairwise (· < ·)
  | [], _, _, h, _ => h
  | [_], _, _, h, _ => h
  | a :: b :: rest, divergences, hsorted, h, hle => by
    obtain ⟨hfirst, hrest⟩ := List.pairwise_cons.1 hsorted
    rw [findRootDivergencesFrom]
    refine findRootDivergencesFrom_increasing hrest ?_ ?_
    · split_ifs
      · exact pushDivergence_increasing h fun n hn => hle n hn a List.mem_cons_self
      · exact h
    · intro n hn row hrow
      split_ifs at hn
      · rcases mem_pushDivergence.1 hn with hold | rfl
        · exact hle n hold row (List.mem_cons_of_mem _ hrow)
        · exact hfirst row hrow
      · exact hle n hn row (List.mem_cons_of_mem _ hrow)

theorem findRootDivergences_perm {rows rows' : List Checkpoint} (hperm : rows.Perm rows')
    (hsorted : rows.Pairwise fun x y => x.treeSize ≤ y.treeSize)
    (hsorted' : rows'.Pairwise fun x y => x.treeSize ≤ y.treeSize) :
    findRootDivergences rows = findRootDivergences rows' := by
  have hincreasing : (findRootDivergences rows).Pairwise (· < ·) :=
    findRootDivergencesFrom_increasing hsorted List.Pairwise.nil (by simp)
  have hincreasing' : (findRootDivergences rows').Pairwise (· < ·) :=
    findRootDivergencesFrom_increasing hsorted' List.Pairwise.nil (by simp)
  have hmem : ∀ n, n ∈ findRootDivergences rows ↔ n ∈ findRootDivergences rows' := by
    intro n
    rw [mem_findRootDivergences_of_sorted hsorted, mem_findRootDivergences_of_sorted hsorted']
    simp only [hperm.mem_iff]
  have hfindings : (findRootDivergences rows).Perm (findRootDivergences rows') :=
    (List.perm_ext_iff_of_nodup (hincreasing.imp fun h => h.ne) (hincreasing'.imp fun h => h.ne)).2 hmem
  exact hfindings.eq_of_pairwise (fun a b _ _ hab hba => absurd hab (by omega)) hincreasing hincreasing'

/-! ### The view's divergences -/

variable {H K : Type} [HashOctets H] [DecidableEq H] {crates : Crates H K} {config : Config K}

/-- Everything the two tables hold. -/
def recordedRows (db : Db) : List Checkpoint := db.checkpoints ++ db.rotationCheckpoints.map (·.2)

theorem authenticatedCheckpoints_perm (db : Db) : (authenticatedCheckpoints db).Perm (recordedRows db) := by
  unfold authenticatedCheckpoints allCheckpoints allRotationCheckpoints recordedRows
  refine (List.perm_insertionSort _ _).trans ((List.perm_insertionSort _ _).append ?_)
  exact (List.perm_insertionSort _ _).map _

/-- **Divergence detection is exact on what is stored.** -/
theorem divergences_exact {db : Db} {view : SeriesView} (h : seriesView crates config db = .ok view) :
    view.rootDivergences.Pairwise (· < ·) ∧
      (∀ n, n ∈ view.rootDivergences ↔ ∃ a ∈ recordedRows db, ∃ b ∈ recordedRows db,
        a.treeSize = n ∧ b.treeSize = n ∧ a.rootHash ≠ b.rootHash) ∧
      (∀ floor, view.equivocationFloor = some floor ↔
        floor ∈ view.rootDivergences ∧ ∀ n ∈ view.rootDivergences, floor ≤ n) ∧
      (view.equivocationFloor = none ↔ view.rootDivergences = []) ∧
      ∀ rows : List Checkpoint, rows.Perm (recordedRows db) → rows.Pairwise seriesLE →
        findRootDivergences rows = view.rootDivergences := by
  have hviewed := seriesView_cases h
  have hperm := authenticatedCheckpoints_perm db
  have hsorted : (authenticatedCheckpoints db).Pairwise fun x y => x.treeSize ≤ y.treeSize :=
    (List.pairwise_insertionSort seriesLE _).imp fun h => h.treeSize_le
  rw [hviewed.floor, hviewed.divergences]
  refine ⟨findRootDivergencesFrom_increasing hsorted List.Pairwise.nil (by simp), fun n => ?_,
    fun floor => List.min?_eq_some_iff, List.min?_eq_none_iff, fun rows hrows hseries => ?_⟩
  · rw [mem_findRootDivergences_of_sorted hsorted]
    simp only [hperm.mem_iff]
  · exact findRootDivergences_perm (hrows.trans hperm.symm) (hseries.imp fun h => h.treeSize_le) hsorted

/-- Two roots at size 3 with a third row between them, and at size 2 a row of each table, the anchor's twice. -/
def Symbolic.contradicted : Db :=
  { Db.empty with
    checkpoints := [⟨"", 3, "x", "1", "", ""⟩, ⟨"", 3, "x", "2", "", ""⟩, ⟨"", 3, "y", "3", "", ""⟩, ⟨"", 2, "x", "1", "", ""⟩]
    rotationCheckpoints := [(0, ⟨"", 2, "y", "1", "", ""⟩), (1, ⟨"", 2, "y", "1", "", ""⟩)] }

/-- Its rows as another order of the equal ones would return them. -/
def Symbolic.reordered : List Checkpoint :=
  [⟨"", 2, "y", "1", "", ""⟩, ⟨"", 2, "x", "1", "", ""⟩, ⟨"", 2, "y", "1", "", ""⟩, ⟨"", 3, "x", "1", "", ""⟩,
    ⟨"", 3, "x", "2", "", ""⟩, ⟨"", 3, "y", "3", "", ""⟩]

theorem divergences_exact_contradicted :
    (∃ a ∈ recordedRows Symbolic.contradicted, ∃ b ∈ recordedRows Symbolic.contradicted,
      a.treeSize = 3 ∧ b.treeSize = 3 ∧ a.rootHash ≠ b.rootHash) ∧
    findRootDivergences Symbolic.reordered = [2, 3] := by
  have hview : seriesView (Symbolic.crates Symbolic.documents) Symbolic.config Symbolic.contradicted =
      .ok ⟨(allCheckpoints Symbolic.contradicted).map fun cp => ⟨cp, .authenticated⟩, none, some (.equivocation 2),
        [2, 3], some 2⟩ := by decide +kernel
  obtain ⟨-, hmem, -, -, horder⟩ := divergences_exact hview
  exact ⟨(hmem 3).1 (by decide), horder Symbolic.reordered (by decide +kernel) (by decide +kernel)⟩

end AhlMirror
