import AhlMirror.Series.Frontier
import AhlMirror.Series.Labels
import AhlMirror.Server.Account

/-!
# Bounds over time

The bound a view gives an index is the least usable member past the index, in series order. Usable members stay
usable, so a later bound comes no later in the series; and it is no later in time as long as the gap-free frontier
has not fallen back behind the earlier one. It can fall back: a member that arrives late may break the chain.
-/

namespace AhlMirror

open AhlMirror.Core

variable {H K : Type} [HashOctets H] {crates : Crates H K} {config : Config K}

/-! ### Rows are recorded past a genesis, across interleavings -/

theorem length_extendPrefix_le (target : Nat) : ∀ (fuel next : Nat) (overlay : Overlay) (entries : List Bytes),
    entries.length = next → next ≤ target → (extendPrefix target fuel next overlay entries).length ≤ target
  | 0, next, overlay, entries, hlength, hle => by rwa [extendPrefix, hlength]
  | fuel + 1, next, overlay, entries, hlength, hle => by
    rw [extendPrefix]
    split_ifs with hnext
    · cases overlay.get next with
      | none => rwa [hlength]
      | some bytes =>
        exact length_extendPrefix_le target fuel (next + 1) _ _ (by rw [List.length_append, hlength]; rfl) hnext
    · rwa [hlength]

theorem length_visiblePrefix_le {db : Db} (hrep : Represents crates db) {batch : List PendingPromotion} {target : Nat}
    {root : H} {visible : List Bytes} (hsize : target < i64Bound)
    (h : buildVisiblePrefix crates db batch target root = .ok visible) : visible.length ≤ target := by
  unfold buildVisiblePrefix at h
  rw [hrep.toCanonical.entriesPrefix hsize, ok_bind] at h
  obtain ⟨overlay, -, h⟩ := bind_eq_ok.1 h
  rw [← Except.ok.inj h]
  exact length_extendPrefix_le target _ _ _ _ rfl (List.length_take_le _ _)

variable [DecidableEq H]

theorem Stepped.rowsGoverned {s after : Server H} {event : Event} (hs : s.Sound crates config)
    (h : RowsGoverned crates config s.db) (hstep : Stepped crates config s event after) :
    RowsGoverned crates config after.db := by
  cases hstep with
  | idle => exact h
  | staged hstage =>
    obtain ⟨staged, -, rfl⟩ := stageEntry_staged hstage
    exact h
  | began => exact h
  | read => exact h
  | failed => exact h
  | turned => exact h
  | judged => exact h
  | promoted _ hpromote =>
    have hgrow := (promoteEntryIn_grow hs.represents hpromote).2
    intro row hrow
    exact h.grow hgrow.grows.canonicalEntries (hgrow.checkpoints ▸ hrow)
  | @committed position cp raw batch rotationFor claimedRoot admission db hat hcommit =>
    obtain ⟨judged, hrepJudged, hsince, hjudge⟩ := hs.based _ (List.mem_of_getElem? hat)
    obtain ⟨visible, list, active, hjudged⟩ := judgeCheckpoint_cases hjudge
    obtain ⟨-, mid, recorded, hcommitted⟩ := commitAdmission_cases hcommit
    intro row hrow
    rcases hcommitted.checkpoints hs.represents hrow with hold | ⟨rfl, -⟩
    · exact h.grow (hcommitted.represents hs.represents).2.canonicalEntries hold
    · -- what it saw is canonical by now, and began with a genesis
      have hseen : visible <+: (canonicalEntries db).take row.treeSize := by
        rw [hcommitted.canonicalEntries]
        exact List.prefix_take_iff.2
          ⟨visiblePrefix_committed hrepJudged hs.represents hsince hjudged.size hjudged.visiblePrefix hcommitted.batch,
            length_visiblePrefix_le hrepJudged hjudged.size hjudged.visiblePrefix⟩
      obtain ⟨hne, w', hwalk', hsnapshots'⟩ := versions_eq_ok.1 hjudged.versions
      obtain ⟨more, hmore⟩ := hseen
      intro w hwalk hnone
      rw [← hmore] at hwalk
      obtain ⟨middle, before, new, hmiddle, hbefore, hafter, -, -⟩ := walk_extends hwalk
      obtain rfl := Except.ok.inj (hwalk'.symm.trans hmiddle)
      have hnil : before ++ new = [] := Option.some.inj (hafter.symm.trans hnone)
      obtain rfl := Option.some.inj (hsnapshots'.symm.trans hbefore)
      exact hne (List.append_eq_nil_iff.1 hnil).1
  | restarted => exact h

theorem serverAfter_rowsGoverned (crates : Crates H K) (config : Config K) (schedule : List Event) :
    RowsGoverned crates config (serverAfter crates config schedule).db :=
  server_keeps (I := fun s => RowsGoverned crates config s.db) (by simp [RowsGoverned, Server.init, Db.empty])
    (fun _ _ _ hs h hstep => hstep.rowsGoverned hs h) schedule

/-! ### Bounds -/

theorem Viewed.itub_least {db : Db} {view : SeriesView} (h : Viewed crates config db view) {index : Nat}
    {cp other : Checkpoint} (hbound : itub view index = some cp) (hother : other ∈ usableCheckpoints view.members)
    (hindex : index < other.treeSize) : seriesLE cp other := by
  unfold itub at hbound
  cases hfrontier : view.gapFreeFrontier with
  | none =>
    rw [hfrontier] at hbound
    cases hbound
  | some frontier =>
    rw [hfrontier] at hbound
    dsimp only at hbound
    obtain ⟨hcp, before, after, hsplit, hnone⟩ := List.find?_eq_some_iff_append.1 hbound
    simp only [Bool.and_eq_true, decide_eq_true_eq] at hcp
    by_cases hwithin : other.treeSize ≤ frontier
    · have hsorted := h.usable_sorted
      rw [hsplit] at hother hsorted
      rcases List.mem_append.1 hother with hearlier | hlater
      · have hpassed := hnone other hearlier
        simp [hindex, hwithin] at hpassed
      · rcases List.mem_cons.1 hlater with rfl | hlater
        · exact seriesLE.refl _
        · exact (List.pairwise_cons.1 (List.pairwise_append.1 hsorted).2.1).1 other hlater
    · exact Or.inl (by omega)

theorem itub_isSome {view : SeriesView} {index frontier : Nat} {cp : Checkpoint}
    (hcp : cp ∈ usableCheckpoints view.members) (hindex : index < cp.treeSize)
    (hfrontier : view.gapFreeFrontier = some frontier) (hwithin : cp.treeSize ≤ frontier) :
    ∃ bound, itub view index = some bound := by
  unfold itub
  rw [hfrontier]
  exact Option.isSome_iff_exists.1 (List.find?_isSome.2 ⟨cp, hcp, by simp [hindex, hwithin]⟩)

variable (crates) in
/-- The time of the first is no later than that of the second. -/
def NoLater (a b : Checkpoint) : Prop :=
  ∃ time time', parseCheckpointTime crates a.checkpointTime = .ok time ∧
    parseCheckpointTime crates b.checkpointTime = .ok time' ∧ time ≤ time'

omit [HashOctets H] [DecidableEq H] in
theorem NoLater.trans {a b c : Checkpoint} (h : NoLater crates a b) (h' : NoLater crates b c) : NoLater crates a c := by
  obtain ⟨ta, tb, ha, hb, hle⟩ := h
  obtain ⟨tb', tc, hb', hc, hle'⟩ := h'
  obtain rfl := Except.ok.inj (hb.symm.trans hb')
  exact ⟨ta, tc, ha, hc, hle.trans hle'⟩

omit [DecidableEq H] in
theorem gapFree_noLater {db : Db} {floor : Option Nat} {chain : List Checkpoint}
    (h : GapFree crates config db floor chain) : chain.Pairwise (NoLater crates) := by
  have hchain : chain.IsChain (NoLater crates) := by
    refine h.link.imp ?_
    rintro a b ⟨time, time', -, ha, hb, -, hle, -⟩
    exact ⟨time, time', ha, hb, hle⟩
  have : Trans (NoLater crates) (NoLater crates) (NoLater crates) := ⟨NoLater.trans⟩
  exact hchain.pairwise

theorem mem_chain {members chain : List Checkpoint} {last cp : Checkpoint} (hsorted : members.Pairwise seriesLE)
    (hinitial : chain <+: members) (hlast : chain.getLast? = some last) (hcp : cp ∈ members)
    (hsize : cp.treeSize < last.treeSize) : cp ∈ chain := by
  obtain ⟨rest, rfl⟩ := hinitial
  rcases List.mem_append.1 hcp with hin | hout
  · exact hin
  · have hle := (List.pairwise_append.1 hsorted).2.2 last (List.mem_of_getLast? hlast) cp hout
    exact absurd hle.treeSize_le (by omega)

omit [HashOctets H] [DecidableEq H] in
theorem noLater_of_chain {chain : List Checkpoint} {last a b : Checkpoint} (htimes : chain.Pairwise (NoLater crates))
    (hsorted : chain.Pairwise seriesLE) (hlast : chain.getLast? = some last) (ha : a ∈ chain) (hb : b ∈ chain)
    (hle : seriesLE a b) (hsize : b.treeSize < last.treeSize) : NoLater crates a b := by
  have hself : NoLater crates b b := by
    obtain ⟨init, rfl⟩ := List.getLast?_eq_some_iff.1 hlast
    rcases List.mem_append.1 hb with hin | hend
    · obtain ⟨time, -, htime, -, -⟩ := (List.pairwise_append.1 htimes).2.2 b hin last (List.mem_singleton_self last)
      exact ⟨time, time, htime, htime, le_rfl⟩
    · obtain rfl := List.mem_singleton.1 hend
      omega
  obtain ⟨i, hi, rfl⟩ := List.mem_iff_getElem.1 ha
  obtain ⟨j, hj, rfl⟩ := List.mem_iff_getElem.1 hb
  rcases Nat.lt_trichotomy i j with hlt | rfl | hgt
  · exact List.pairwise_iff_getElem.1 htimes i j hi hj hlt
  · exact hself
  · -- members in either order have one size and time
    obtain ⟨-, htime⟩ := hle.antisymm (List.pairwise_iff_getElem.1 hsorted j i hj hi hgt)
    obtain ⟨time, -, hparse, -, -⟩ := hself
    exact ⟨time, time, htime ▸ hparse, hparse, le_rfl⟩

/-- **Bounds only tighten.** Once a view bounds an index, the bounding checkpoint stays usable, and whatever the
schedule goes on to, a later bound of the index comes no later in the series. While the gap-free frontier reaches
it there is a bound, and once the frontier is past it that bound is no later in time. -/
theorem bounds_tighten (hprover : ViewLaws crates) (hconsistency : ConsistencyLaws crates)
    (before later : List Event) {view view' : SeriesView} {index : Nat} {cp : Checkpoint}
    (hview : seriesView crates config (serverAfter crates config before).db = .ok view)
    (hview' : seriesView crates config (serverAfter crates config (before ++ later)).db = .ok view')
    (hbound : itub view index = some cp) :
    cp ∈ usableCheckpoints view'.members ∧ (∀ cp', itub view' index = some cp' → seriesLE cp' cp) ∧
      ∀ frontier, view'.gapFreeFrontier = some frontier → cp.treeSize ≤ frontier →
        ∃ cp', itub view' index = some cp' ∧ (cp.treeSize < frontier → NoLater crates cp' cp) := by
  have hviewed := seriesView_cases hview
  have hviewed' := seriesView_cases hview'
  have hsound := (serverAfter_written crates config before).sound
  have hsound' := (serverAfter_written crates config (before ++ later)).sound
  have hgrow := serverAfter_grows crates config before later
  obtain ⟨stop, hfrontier⟩ := hviewed.frontier
  obtain ⟨hcp, hindex, -⟩ := itub_cases hfrontier hbound
  have hcp' : cp ∈ usableCheckpoints view'.members := by
    obtain ⟨hrow, hsize, husable⟩ := (hviewed.mem_usable_iff hprover hconsistency hsound.represents hsound.positive).1 hcp
    exact (hviewed'.mem_usable_iff hprover hconsistency hsound'.represents hsound'.positive).2
      ⟨hgrow.checkpoints.subset hrow, hsize, husable.grow hgrow⟩
  have hleast : ∀ cp', itub view' index = some cp' → seriesLE cp' cp :=
    fun cp' hbound' => hviewed'.itub_least hbound' hcp' hindex
  refine ⟨hcp', hleast, fun frontier hreach hwithin => ?_⟩
  obtain ⟨cp', hbound'⟩ := itub_isSome hcp' hindex hreach hwithin
  refine ⟨cp', hbound', fun hpast => ?_⟩
  obtain ⟨chain, hchain, hend⟩ := hviewed'.governed_gapFree hsound'.represents (serverAfter_rowsGoverned crates config _)
  obtain ⟨last, hlast, rfl⟩ := Option.map_eq_some_iff.1 (hend.symm.trans hreach)
  have hsorted := hviewed'.usable_sorted
  have hle := hleast cp' hbound'
  obtain ⟨stop', hfrontier'⟩ := hviewed'.frontier
  have hmember := (itub_cases hfrontier' hbound').1
  exact noLater_of_chain (gapFree_noLater hchain.holds) (hsorted.sublist hchain.isPrefix.sublist) hlast
    (mem_chain hsorted hchain.isPrefix hlast hmember (hle.treeSize_le.trans_lt hpast))
    (mem_chain hsorted hchain.isPrefix hlast hcp' hpast) hle hpast

namespace Symbolic

/-- The checkpoint of the four-entry log over its first entries. -/
def quarter (size nanos : Nat) : Checkpoint := checkpoint "A" size (rootOf ([[1], [5], [6], [7]].take size)) nanos

/-- The first and third member, and no second. -/
def sparse : List Event :=
  oneAtATime [stage 1, stage 5, stage 6, stage 7, ingest (quarter 1 5) [pending [[1]] 0],
    ingest (quarter 3 9) [pending [[1], [5], [6]] 1, pending [[1], [5], [6]] 2]]

/-- The second arrives, and the fourth. -/
def filled (nanos : Nat) : List Event :=
  oneAtATime [ingest (quarter 2 nanos) [], ingest (quarter 4 15) [pending [[1], [5], [6], [7]] 3]]

def usableView (members : List Checkpoint) (frontier : Nat) : SeriesView :=
  ⟨members.map fun cp => ⟨cp, .seriesUsable⟩, some frontier, none, [], none⟩

end Symbolic

theorem bounds_tighten_filled : ∃ cp,
    itub (Symbolic.usableView [Symbolic.quarter 1 5, Symbolic.quarter 2 7, Symbolic.quarter 3 9, Symbolic.quarter 4 15] 4) 1 =
        some cp ∧ NoLater (Symbolic.crates Symbolic.documents) cp (Symbolic.quarter 3 9) := by
  obtain ⟨hview, hview', hbound⟩ :
      seriesView (Symbolic.crates Symbolic.documents) Symbolic.config
          (serverAfter (Symbolic.crates Symbolic.documents) Symbolic.config Symbolic.sparse).db =
        .ok (Symbolic.usableView [Symbolic.quarter 1 5, Symbolic.quarter 3 9] 3) ∧
      seriesView (Symbolic.crates Symbolic.documents) Symbolic.config (serverAfter (Symbolic.crates Symbolic.documents)
          Symbolic.config (Symbolic.sparse ++ Symbolic.filled 7)).db =
        .ok (Symbolic.usableView [Symbolic.quarter 1 5, Symbolic.quarter 2 7, Symbolic.quarter 3 9, Symbolic.quarter 4 15] 4) ∧
      itub (Symbolic.usableView [Symbolic.quarter 1 5, Symbolic.quarter 3 9] 3) 1 = some (Symbolic.quarter 3 9) := by
    decide +kernel
  obtain ⟨-, -, hlater⟩ := bounds_tighten (Symbolic.viewLaws Symbolic.documents)
    (Symbolic.consistencyLaws Symbolic.documents) Symbolic.sparse (Symbolic.filled 7) hview hview' hbound
  obtain ⟨cp, hcp, htime⟩ := hlater 4 rfl (by decide)
  exact ⟨cp, hcp, htime (by decide)⟩

/-- A second member dated after the third breaks the chain, and its own later time is the bound. -/
example : ((seriesView (Symbolic.crates Symbolic.documents) Symbolic.config (serverAfter (Symbolic.crates Symbolic.documents)
    Symbolic.config (Symbolic.sparse ++ Symbolic.filled 12)).db).toOption.bind (itub · 1)) = some (Symbolic.quarter 2 12) := by
  decide +kernel

end AhlMirror
