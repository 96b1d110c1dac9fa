import AhlMirror.Core.Neighbours
import AhlMirror.Store.Calls

/-!
# The series view

What a view that came out is made of (`Viewed`), the members it judges, in series order, and the roots
it finds in conflict: `findRootDivergences` scans neighbours, which on the sorted list is every pair
(`mem_rootDivergences`).
-/

namespace AhlMirror

open AhlMirror.Core

/-! ### Recorded checkpoints -/

theorem allCheckpoints_sorted (db : Db) : (allCheckpoints db).Pairwise seriesLE := List.pairwise_insertionSort _ _

theorem mem_allCheckpoints {db : Db} {cp : Checkpoint} : cp ∈ allCheckpoints db ↔ cp ∈ db.checkpoints :=
  List.mem_insertionSort _

theorem mem_authenticatedCheckpoints {db : Db} {cp : Checkpoint} :
    cp ∈ authenticatedCheckpoints db ↔ cp ∈ db.checkpoints ∨ ∃ index, (index, cp) ∈ db.rotationCheckpoints := by
  unfold authenticatedCheckpoints allCheckpoints allRotationCheckpoints
  rw [List.mem_insertionSort, List.mem_append, List.mem_insertionSort, List.mem_map]
  simp only [List.mem_insertionSort, Prod.exists, exists_eq_right]

/-! ### Divergences -/

theorem mem_pushDivergence {divergences : List Nat} {size n : Nat} :
    n ∈ pushDivergence divergences size ↔ n ∈ divergences ∨ n = size := by
  unfold pushDivergence
  split_ifs with hlast
  · constructor
    · exact Or.inl
    · rintro (hmem | rfl)
      · exact hmem
      · exact List.mem_of_getLast? hlast
  · simp

theorem mem_findRootDivergencesFrom {n : Nat} : ∀ {list : List Checkpoint} {divergences : List Nat},
    n ∈ findRootDivergencesFrom divergences list ↔ n ∈ divergences ∨
      ∃ before a b after, list = before ++ a :: b :: after ∧ a.treeSize = n ∧ b.treeSize = n ∧ a.rootHash ≠ b.rootHash
  | [], divergences => by simp [findRootDivergencesFrom]
  | [only], divergences => by
    simp only [findRootDivergencesFrom]
    refine ⟨Or.inl, ?_⟩
    rintro (hmem | ⟨before, a, b, after, hlist, -⟩)
    · exact hmem
    · have := congrArg List.length hlist
      simp at this
      omega
  | a :: b :: rest, divergences => by
    rw [findRootDivergencesFrom, mem_findRootDivergencesFrom]
    constructor
    · rintro (hmem | ⟨before, x, y, after, hlist, hx⟩)
      · split_ifs at hmem with hdiverge
        · rcases mem_pushDivergence.1 hmem with hold | rfl
          · exact Or.inl hold
          · exact Or.inr ⟨[], a, b, rest, rfl, rfl, hdiverge.1.symm, hdiverge.2⟩
        · exact Or.inl hmem
      · exact Or.inr ⟨a :: before, x, y, after, by rw [hlist, List.cons_append], hx⟩
    · rintro (hmem | ⟨before, x, y, after, hlist, hx, hy, hroot⟩)
      · left
        split_ifs
        · exact mem_pushDivergence.2 (Or.inl hmem)
        · exact hmem
      · cases before with
        | nil =>
          obtain ⟨rfl, rfl, rfl⟩ : a = x ∧ b = y ∧ rest = after := by simpa using hlist
          rw [if_pos ⟨hx.trans hy.symm, hroot⟩]
          exact Or.inl (mem_pushDivergence.2 (Or.inr hx.symm))
        | cons head before =>
          obtain ⟨-, hrest⟩ : a = head ∧ b :: rest = before ++ x :: y :: after := by simpa using hlist
          exact Or.inr ⟨before, x, y, after, hrest, hx, hy, hroot⟩

/-- On rows in order of size the scan finds exactly the sizes at which two of them disagree on the root. -/
theorem mem_findRootDivergences_of_sorted {rows : List Checkpoint}
    (hsorted : rows.Pairwise fun x y => x.treeSize ≤ y.treeSize) {n : Nat} : n ∈ findRootDivergences rows ↔
      ∃ a ∈ rows, ∃ b ∈ rows, a.treeSize = n ∧ b.treeSize = n ∧ a.rootHash ≠ b.rootHash := by
  unfold findRootDivergences
  rw [mem_findRootDivergencesFrom]
  constructor
  · rintro (hnil | ⟨before, a, b, after, rfl, ha, hb, hroot⟩)
    · simp at hnil
    · exact ⟨a, by simp, b, by simp, ha, hb, hroot⟩
  · rintro ⟨a, ha, b, hb, hasize, hbsize, hroot⟩
    obtain ⟨before, x, y, after, hlist, hx, hy, hxy⟩ := exists_neighbours (g := Checkpoint.rootHash) hsorted a ha b hb
      (hasize.trans hbsize.symm) hroot
    exact Or.inr ⟨before, x, y, after, hlist, hx.trans hasize, hy.trans hasize, hxy⟩

theorem mem_findRootDivergences {rows : List Checkpoint} {n : Nat} :
    n ∈ findRootDivergences (rows.insertionSort seriesLE) ↔
      ∃ a ∈ rows, ∃ b ∈ rows, a.treeSize = n ∧ b.treeSize = n ∧ a.rootHash ≠ b.rootHash := by
  rw [mem_findRootDivergences_of_sorted ((List.pairwise_insertionSort seriesLE rows).imp fun h => h.treeSize_le)]
  simp only [List.mem_insertionSort]

theorem mem_rootDivergences {db : Db} {n : Nat} : n ∈ findRootDivergences (authenticatedCheckpoints db) ↔
    ∃ a ∈ authenticatedCheckpoints db, ∃ b ∈ authenticatedCheckpoints db,
      a.treeSize = n ∧ b.treeSize = n ∧ a.rootHash ≠ b.rootHash := by
  unfold authenticatedCheckpoints
  rw [mem_findRootDivergences]
  simp only [List.mem_insertionSort]

variable {H K : Type} [HashOctets H] [DecidableEq H] {crates : Crates H K} {config : Config K}

/-! ### A view that came out -/

/-- The parts of a series view. -/
structure Viewed (crates : Crates H K) (config : Config K) (db : Db) (view : SeriesView) : Prop where
  members : judgeMembers crates db none (allCheckpoints db) = .ok view.members
  frontier : ∃ stop, computeGapFreeFrontier crates config db (usableCheckpoints view.members) view.equivocationFloor =
    .ok ⟨view.gapFreeFrontier, stop⟩
  divergences : view.rootDivergences = findRootDivergences (authenticatedCheckpoints db)
  floor : view.equivocationFloor = view.rootDivergences.min?

theorem seriesView_cases {db : Db} {view : SeriesView} (h : seriesView crates config db = .ok view) :
    Viewed crates config db view := by
  unfold seriesView at h
  simp only [bind_eq_ok] at h
  obtain ⟨members, hmembers, result, hresult, h⟩ := h
  obtain rfl := Except.ok.inj h
  exact ⟨hmembers, ⟨result.stop, hresult⟩, rfl, rfl⟩

theorem Viewed.mem_divergences_of_floor {db : Db} {view : SeriesView} (h : Viewed crates config db view) {f : Nat}
    (hf : view.equivocationFloor = some f) : f ∈ view.rootDivergences := by
  rw [h.floor] at hf
  exact (List.min?_eq_some_iff.1 hf).1

theorem Viewed.floor_le {db : Db} {view : SeriesView} (h : Viewed crates config db view) {n : Nat}
    (hn : n ∈ view.rootDivergences) : ∃ f, view.equivocationFloor = some f ∧ f ≤ n := by
  rw [h.floor]
  cases hmin : view.rootDivergences.min? with
  | none => simp [List.min?_eq_none_iff.1 hmin] at hn
  | some f => exact ⟨f, rfl, (List.min?_eq_some_iff.1 hmin).2 n hn⟩

omit [HashOctets H] [DecidableEq H] in
theorem refuseAtFloor_eq_ok {view : SeriesView} {treeSize : Nat} :
    refuseAtFloor view treeSize = .ok () ↔ ∀ floor ∈ view.equivocationFloor, treeSize < floor := by
  unfold refuseAtFloor
  cases view.equivocationFloor with
  | none => simp
  | some floor =>
    dsimp only
    rw [ite_error_eq_ok]
    simp

theorem judgeMember_usable {db : Db} {cp : Checkpoint} {pred : Option Checkpoint}
    (h : judgeMember crates db cp pred = .ok true) : seriesUsableStored crates db cp pred = .ok true := by
  unfold judgeMember at h
  split at h
  · rename_i usable hresult
    rw [hresult, Except.ok.inj h]
  · split_ifs at h
    cases h

theorem judgeMembers_eq_ok {db : Db} : ∀ {rows : List Checkpoint} {lastUsable : Option Checkpoint}
    {members : List ReportedCheckpoint}, judgeMembers crates db lastUsable rows = .ok members →
      members.map (·.checkpoint) = rows ∧
        ∀ m ∈ members, m.state = .seriesUsable → ∃ pred, seriesUsableStored crates db m.checkpoint pred = .ok true
  | [], lastUsable, members, h => by
    obtain rfl := Except.ok.inj h
    exact ⟨rfl, by simp⟩
  | cp :: rest, lastUsable, members, h => by
    rw [judgeMembers, bind_eq_ok] at h
    obtain ⟨usable, husable, h⟩ := h
    rw [bind_eq_ok] at h
    obtain ⟨later, hlater, h⟩ := h
    obtain rfl := Except.ok.inj h
    obtain ⟨hmap, hstates⟩ := judgeMembers_eq_ok hlater
    refine ⟨by rw [List.map_cons, hmap], fun m hm hstate => ?_⟩
    rcases List.mem_cons.1 hm with rfl | hm
    · refine ⟨lastUsable, ?_⟩
      have htrue : usable = true := by
        by_contra hfalse
        simp [hfalse] at hstate
      subst htrue
      exact judgeMember_usable husable
    · exact hstates m hm hstate

theorem mem_usableCheckpoints {members : List ReportedCheckpoint} {cp : Checkpoint} :
    cp ∈ usableCheckpoints members ↔ ⟨cp, .seriesUsable⟩ ∈ members := by
  unfold usableCheckpoints
  rw [List.mem_map]
  constructor
  · rintro ⟨⟨_, state⟩, hm, rfl⟩
    obtain ⟨hm, hstate⟩ := List.mem_filter.1 hm
    obtain rfl : state = .seriesUsable := beq_iff_eq.1 hstate
    exact hm
  · exact fun hm => ⟨_, List.mem_filter.2 ⟨hm, beq_self_eq_true _⟩, rfl⟩

theorem usableCheckpoints_sublist (members : List ReportedCheckpoint) :
    List.Sublist (usableCheckpoints members) (members.map (·.checkpoint)) := List.filter_sublist.map _

theorem Viewed.usable_sorted {db : Db} {view : SeriesView} (h : Viewed crates config db view) :
    (usableCheckpoints view.members).Pairwise seriesLE := by
  have hsublist := usableCheckpoints_sublist view.members
  rw [(judgeMembers_eq_ok h.members).1] at hsublist
  exact (allCheckpoints_sorted db).sublist hsublist

theorem Viewed.usable_held {db : Db} {view : SeriesView} (hrep : Represents crates db)
    (h : Viewed crates config db view) {cp : Checkpoint} (hcp : cp ∈ usableCheckpoints view.members) :
    cp ∈ db.checkpoints ∧ cp.treeSize < i64Bound ∧ cp.treeSize ≤ db.entries.length := by
  obtain ⟨hmap, hstates⟩ := judgeMembers_eq_ok h.members
  have hmem := mem_usableCheckpoints.1 hcp
  have hrow : cp ∈ allCheckpoints db := hmap ▸ List.mem_map_of_mem hmem
  obtain ⟨pred, husable⟩ := hstates _ hmem rfl
  unfold seriesUsableStored at husable
  obtain ⟨held, hheld, husable⟩ := bind_eq_ok.1 husable
  cases held with
  | false => cases husable
  | true => exact ⟨mem_allCheckpoints.1 hrow, hrep.toCanonical.held_of_count (holdsPrefix_eq_true.1 hheld).1⟩

end AhlMirror
