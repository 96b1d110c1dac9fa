import AhlMirror.Series.Admission
import AhlMirror.Series.View

/-!
# The gap-free frontier

`compute_gap_free_frontier` finds the longest gap-free prefix of the usable members, and `itub` the
first member of that prefix past an index (`extendFrontier_spec`). Of the reasons its loop stops for, two
cannot arise on a reachable store: a recorded row's prefix holds the genesis (`RowsGoverned`), so
governance resolves wherever it is asked for.
-/

namespace AhlMirror

open AhlMirror.Core

variable {H K : Type} [HashOctets H]

/-! ### Gap-free prefixes -/

section chain
variable (crates : Crates H K) (config : Config K) (db : Db)

/-- The canonical prefix `[0, treeSize)` is held and resolves to `state`. -/
def Governs (treeSize : Nat) (state : GovernanceState K) : Prop :=
  treeSize ≤ db.entries.length ∧ resolve crates config ((canonicalEntries db).take treeSize) = .ok state

/-- The genesis manifest version of the log. -/
def GenesisVersion (genesis : GovernanceState K) : Prop :=
  ∃ n list, n ≤ db.entries.length ∧ versions crates config ((canonicalEntries db).take n) = .ok list ∧
    list.head? = some genesis

/-- A time within the genesis version's cadence of its cadence epoch. -/
def StartsInTime (cp : Checkpoint) : Prop :=
  ∃ time genesis, parseCheckpointTime crates cp.checkpointTime = .ok time ∧ GenesisVersion crates config db genesis ∧
    genesis.cadenceEpochNanos ≤ time ∧ time ≤ genesis.cadenceEpochNanos + genesis.cadenceNanos

/-- `q` comes after `p`, within the cadence of the version that governs `p`'s own size. -/
def FollowsInTime (p q : Checkpoint) : Prop :=
  ∃ pTime qTime state, parseCheckpointTime crates p.checkpointTime = .ok pTime ∧
    parseCheckpointTime crates q.checkpointTime = .ok qTime ∧ Governs crates config db p.treeSize state ∧
    pTime ≤ qTime ∧ qTime - pTime ≤ state.cadenceNanos

def BelowFloor (floor : Option Nat) (cp : Checkpoint) : Prop := ∀ f ∈ floor, cp.treeSize < f

/-- Members below the floor, the first in time for the genesis version, each next one in time for the
version that governs the one before it. -/
abbrev GapFree (floor : Option Nat) : List Checkpoint → Prop :=
  Linked (BelowFloor floor) (StartsInTime crates config db) (FollowsInTime crates config db)

/-- The canonical prefix of every recorded row reaches past a genesis, or does not resolve. -/
def RowsGoverned : Prop :=
  ∀ row ∈ db.checkpoints, ∀ w, walk crates config ((canonicalEntries db).take row.treeSize) (some []) = .ok w →
    w.snapshots ≠ some []

end chain

variable {crates : Crates H K} {config : Config K}

/-! ### Rows are recorded past a genesis -/

theorem RowsGoverned.grow {db after : Db} (h : RowsGoverned crates config db)
    (hgrow : canonicalEntries db <+: canonicalEntries after) {row : Checkpoint} (hrow : row ∈ db.checkpoints) :
    ∀ w, walk crates config ((canonicalEntries after).take row.treeSize) (some []) = .ok w → w.snapshots ≠ some [] := by
  intro w hwalk hnone
  rw [← List.take_append_drop (min (canonicalEntries db).length row.treeSize)
    ((canonicalEntries after).take row.treeSize), take_of_prefix hgrow] at hwalk
  obtain ⟨middle, before, new, hmiddle, hbefore, hafter, -, -⟩ := walk_extends hwalk
  have hnil : before ++ new = [] := Option.some.inj (hafter.symm.trans hnone)
  rw [(List.append_eq_nil_iff.1 hnil).1] at hbefore
  exact h row hrow middle hmiddle hbefore

section
variable [DecidableEq H]

theorem CallEffect.rowsGoverned {db after : Db} {call : Call} (hrep : Represents crates db)
    (hdb : RowsGoverned crates config db) (h : CallEffect crates config db call after) :
    RowsGoverned crates config after := by
  cases h with
  | unchanged => exact hdb
  | staged _ => exact hdb
  | admitted hjudge hcommit =>
    obtain ⟨-, mid, recorded, hcommitted⟩ := commitAdmission_cases hcommit
    have hgrow := (promoteBatch_grow hrep hcommitted.batch).2.grows.canonicalEntries
    intro row hrow
    rw [hcommitted.canonicalEntries]
    rcases hcommitted.checkpoints hrep hrow with hold | ⟨rfl, -⟩
    · exact hdb.grow hgrow hold
    · obtain ⟨visible, list, active, hjudged⟩ := judgeCheckpoint_cases hjudge
      obtain ⟨hne, w', hwalk', hsnapshots'⟩ := versions_eq_ok.1 hjudged.versions
      intro w hwalk hnone
      rw [← visiblePrefix_eq_promoted hrep hjudged.size hjudged.visiblePrefix hcommitted.batch] at hwalk
      obtain rfl := Except.ok.inj (hwalk'.symm.trans hwalk)
      exact hne (Option.some.inj (hsnapshots'.symm.trans hnone))
  | promoted _ hpromote =>
    obtain ⟨-, hgrow⟩ := promoteEntryIn_grow hrep hpromote
    intro row hrow
    rw [hgrow.checkpoints] at hrow
    exact hdb.grow hgrow.grows.canonicalEntries hrow

theorem Reachable.rowsGoverned {db : Db} (h : Reachable crates config db) : RowsGoverned crates config db :=
  h.keeps (by simp [RowsGoverned, Db.empty]) fun _ _ _ hrep hdb heffect => heffect.rowsGoverned hrep hdb

end

/-! ### Governance where it is asked for -/

theorem resolveGovernanceFor_some {db : Db} (hrep : Represents crates db) {n : Nat} {state : GovernanceState K}
    (hbound : n < i64Bound) (h : resolveGovernanceFor crates config db n = .ok (some state)) :
    Governs crates config db n state := by
  unfold resolveGovernanceFor at h
  rw [hrep.toCanonical.entriesPrefix hbound] at h
  simp only [ok_bind] at h
  split_ifs at h with hlength
  · cases h
  · rw [not_not, List.length_take, length_canonicalEntries] at hlength
    refine ⟨by omega, ?_⟩
    cases hresolve : resolve crates config ((canonicalEntries db).take n) with
    | ok found =>
      rw [hresolve] at h
      rw [Option.some.inj (Except.ok.inj h)]
    | error e =>
      rw [hresolve] at h
      cases e <;> cases h

theorem resolveGovernanceFor_none {db : Db} (hrep : Represents crates db) {n : Nat} (hbound : n < i64Bound)
    (hle : n ≤ db.entries.length) (h : resolveGovernanceFor crates config db n = .ok none) :
    ∃ w, walk crates config ((canonicalEntries db).take n) (some []) = .ok w ∧ w.snapshots = some [] := by
  unfold resolveGovernanceFor at h
  rw [hrep.toCanonical.entriesPrefix hbound] at h
  simp only [ok_bind] at h
  rw [if_neg (by rw [not_not, List.length_take, length_canonicalEntries]; omega)] at h
  cases hresolve : resolve crates config ((canonicalEntries db).take n) with
  | ok found =>
    rw [hresolve] at h
    cases h
  | error e =>
    cases e with
    | governanceChainUnresolvable size => exact resolve_unresolvable hresolve
    | _ =>
      rw [hresolve] at h
      cases h

theorem Governs.unique {db : Db} {n : Nat} {state other : GovernanceState K} (h : Governs crates config db n state)
    (h' : Governs crates config db n other) : state = other := Except.ok.inj (h.2.symm.trans h'.2)

theorem GenesisVersion.unique {db : Db} {genesis other : GovernanceState K}
    (h : GenesisVersion crates config db genesis) (h' : GenesisVersion crates config db other) : genesis = other := by
  have hle : ∀ {n m : Nat} {list list' : List (GovernanceState K)}, n ≤ m → m ≤ db.entries.length →
      versions crates config ((canonicalEntries db).take n) = .ok list →
      versions crates config ((canonicalEntries db).take m) = .ok list' → list.head? = list'.head? := by
    intro n m list list' hnm hm hlist hlist'
    refine versions_take_genesis (n := n) hlist' (by rw [List.length_take, length_canonicalEntries]; omega) ?_
    rw [List.take_take, Nat.min_eq_left hnm]
    exact hlist
  obtain ⟨n, list, hn, hlist, hhead⟩ := h
  obtain ⟨m, list', hm, hlist', hhead'⟩ := h'
  refine Option.some.inj (hhead.symm.trans (Eq.trans ?_ hhead'))
  rcases Nat.le_total n m with hnm | hmn
  · exact hle hnm hm hlist hlist'
  · exact (hle hmn hn hlist' hlist).symm

theorem Governs.genesis {db : Db} {n : Nat} {state : GovernanceState K} (h : Governs crates config db n state) :
    ∃ genesis, GenesisVersion crates config db genesis ∧ state.genesisEntryIndex + 1 ≤ n ∧
      ∃ found, resolve crates config ((canonicalEntries db).take (state.genesisEntryIndex + 1)) = .ok found ∧
        found.cadenceNanos = genesis.cadenceNanos ∧ found.cadenceEpochNanos = genesis.cadenceEpochNanos := by
  obtain ⟨hle, hresolve⟩ := h
  obtain ⟨list, last, hlist, hlast, rfl⟩ := resolve_eq_ok.1 hresolve
  obtain ⟨genesis, rest, rfl, hindex, -⟩ := versions_genesis hlist
  have hlastIndex : last.genesisEntryIndex = genesis.governingManifestEntryIndex :=
    hindex last (List.mem_of_getLast? hlast)
  obtain ⟨hlt, hone⟩ := versions_take_through_genesis hlist
  rw [List.length_take] at hlt
  rw [List.take_take, Nat.min_eq_left (by omega)] at hone
  refine ⟨genesis, ⟨n, genesis :: rest, hle, hlist, rfl⟩, ?_, ?_⟩
  · show last.genesisEntryIndex + 1 ≤ n
    omega
  · show ∃ found, resolve crates config ((canonicalEntries db).take (last.genesisEntryIndex + 1)) = .ok found ∧ _
    rw [hlastIndex]
    exact ⟨_, resolve_eq_ok.2 ⟨[genesis], genesis, hone, rfl, rfl⟩, rfl, rfl⟩

theorem Governs.resolved_genesis {db : Db} (hrep : Represents crates db) {n : Nat} {state : GovernanceState K}
    (h : Governs crates config db n state) (hbound : n < i64Bound) {resolved : Option (GovernanceState K)}
    (hresolved : resolveGovernanceFor crates config db (state.genesisEntryIndex + 1) = .ok resolved) :
    ∃ found genesis, resolved = some found ∧ GenesisVersion crates config db genesis ∧
      found.cadenceNanos = genesis.cadenceNanos ∧ found.cadenceEpochNanos = genesis.cadenceEpochNanos := by
  obtain ⟨genesis, hgenesis, hle, found, hfound, hcadence, hepoch⟩ := h.genesis
  have hheld := h.1
  cases resolved with
  | none =>
    -- the prefix through the genesis resolves
    obtain ⟨w, hwalk, hnone⟩ := resolveGovernanceFor_none hrep (by omega) (hle.trans hheld) hresolved
    obtain ⟨list, last, hlist, -, -⟩ := resolve_eq_ok.1 hfound
    obtain ⟨hne, w', hwalk', hsnapshots⟩ := versions_eq_ok.1 hlist
    obtain rfl := Except.ok.inj (hwalk'.symm.trans hwalk)
    exact absurd (Option.some.inj (hsnapshots.symm.trans hnone)) hne
  | some other =>
    obtain rfl : found = other :=
      Except.ok.inj (hfound.symm.trans (resolveGovernanceFor_some hrep (by omega) hresolved).2)
    exact ⟨found, genesis, rfl, hgenesis, hcadence, hepoch⟩

/-! ### Times -/

theorem startsInTime_iff {db : Db} {cp : Checkpoint} {time : Nat} {genesis : GovernanceState K}
    (htime : parseCheckpointTime crates cp.checkpointTime = .ok time)
    (hgenesis : GenesisVersion crates config db genesis) :
    StartsInTime crates config db cp ↔ ((checkedSub time genesis.cadenceEpochNanos).any
      fun since => decide (since ≤ genesis.cadenceNanos)) = true := by
  constructor
  · rintro ⟨time', genesis', htime', hgenesis', hfrom, hto⟩
    obtain rfl := Except.ok.inj (htime.symm.trans htime')
    obtain rfl := hgenesis.unique hgenesis'
    rw [checkedSub_of_le hfrom]
    exact decide_eq_true (by omega)
  · intro hany
    obtain ⟨since, hsince, hwithin⟩ := (Option.any_eq_true _ _).1 hany
    obtain ⟨hfrom, rfl⟩ := checkedSub_eq_some.1 hsince
    have hwithin := of_decide_eq_true hwithin
    exact ⟨time, genesis, htime, hgenesis, hfrom, by omega⟩

theorem followsInTime_iff {db : Db} {p q : Checkpoint} {pTime qTime : Nat} {state : GovernanceState K}
    (hp : parseCheckpointTime crates p.checkpointTime = .ok pTime)
    (hq : parseCheckpointTime crates q.checkpointTime = .ok qTime)
    (hgoverns : Governs crates config db p.treeSize state) :
    FollowsInTime crates config db p q ↔ pTime ≤ qTime ∧ qTime - pTime ≤ state.cadenceNanos := by
  constructor
  · rintro ⟨pTime', qTime', state', hp', hq', hgoverns', hle, hwithin⟩
    obtain rfl := Except.ok.inj (hp.symm.trans hp')
    obtain rfl := Except.ok.inj (hq.symm.trans hq')
    obtain rfl := hgoverns.unique hgoverns'
    exact ⟨hle, hwithin⟩
  · rintro ⟨hle, hwithin⟩
    exact ⟨pTime, qTime, state, hp, hq, hgoverns, hle, hwithin⟩

/-! ### The loop -/

section loop
variable {db : Db} {floor : Option Nat}

theorem longest_of_stop {chain rest : List Checkpoint} {last next : Checkpoint} (hlast : chain.getLast? = some last)
    (hchain : GapFree crates config db floor chain)
    (hstop : ¬ (BelowFloor floor next ∧ FollowsInTime crates config db last next)) :
    LongestPrefix (GapFree crates config db floor) (chain ++ next :: rest) chain := by
  refine LongestPrefix.of_stop Linked.of_append (List.prefix_append _ _) hchain fun x hx hlinked => hstop ?_
  have hsame : x = next := by
    have := (List.prefix_append_right_inj chain).1 hx
    simpa using this
  subst hsame
  exact ((Linked.concat_iff hlast).1 hlinked).2

theorem belowFloor_iff {cp : Checkpoint} :
    BelowFloor floor cp ↔ ¬ (floor.any fun f => decide (f ≤ cp.treeSize)) = true := by
  cases floor <;> simp [BelowFloor]

/-- From a gap-free chain on, the loop ends at the last member of the longest one. -/
theorem extendFrontier_spec (hrep : Represents crates db) : ∀ {rest chain : List Checkpoint} {prev : Checkpoint}
    {prevTime : Nat} {result : GapFreeResult},
    (∀ cp ∈ chain ++ rest, cp.treeSize < i64Bound ∧ resolveGovernanceFor crates config db cp.treeSize ≠ .ok none) →
    chain.getLast? = some prev → GapFree crates config db floor chain →
    parseCheckpointTime crates prev.checkpointTime = .ok prevTime →
    extendFrontier crates config db floor prev.treeSize prev prevTime rest = .ok result →
      ∃ longest, LongestPrefix (GapFree crates config db floor) (chain ++ rest) longest ∧
        result.frontier = longest.getLast?.map (·.treeSize)
  | [], chain, prev, prevTime, result, _, hlast, hchain, _, h => by
    obtain rfl := Except.ok.inj h
    refine ⟨chain, LongestPrefix.of_stop Linked.of_append (by simp) hchain fun x hx => ?_, by rw [hlast]; rfl⟩
    have := hx.length_le
    simp at this
  | cp :: rest, chain, prev, prevTime, result, hchecked, hlast, hchain, htime, h => by
    have hstopped : ∀ stop, result = ⟨some prev.treeSize, stop⟩ →
        ¬ (BelowFloor floor cp ∧ FollowsInTime crates config db prev cp) →
        ∃ longest, LongestPrefix (GapFree crates config db floor) (chain ++ cp :: rest) longest ∧
          result.frontier = longest.getLast?.map (·.treeSize) := by
      rintro stop rfl hstop
      exact ⟨chain, longest_of_stop hlast hchain hstop, by rw [hlast]; rfl⟩
    rw [extendFrontier] at h
    by_cases hfloor : BelowFloor floor cp
    · rw [if_neg (belowFloor_iff.1 hfloor), bind_eq_ok] at h
      obtain ⟨cpTime, hcpTime, h⟩ := h
      obtain ⟨hbound, hresolves⟩ := hchecked prev (List.mem_append_left _ (List.mem_of_getLast? hlast))
      cases hdelta : checkedSub cpTime prevTime with
      | none =>
        rw [hdelta] at h
        apply hstopped _ (Except.ok.inj h).symm
        intro hboth
        obtain ⟨-, pTime, qTime, state, hp, hq, -, hle, -⟩ := hboth
        obtain rfl := Except.ok.inj (htime.symm.trans hp)
        obtain rfl := Except.ok.inj (hcpTime.symm.trans hq)
        rw [checkedSub_of_le hle] at hdelta
        cases hdelta
      | some delta =>
        rw [hdelta] at h
        obtain ⟨hle, rfl⟩ := checkedSub_eq_some.1 hdelta
        obtain ⟨found, hfound, h⟩ := bind_eq_ok.1 h
        cases found with
        | none => exact absurd hfound hresolves
        | some state =>
          have hfollows := followsInTime_iff htime hcpTime (resolveGovernanceFor_some hrep hbound hfound)
          dsimp only at h
          by_cases hcadence : cpTime - prevTime > state.cadenceNanos
          · rw [if_pos hcadence] at h
            apply hstopped _ (Except.ok.inj h).symm
            intro hboth
            have hwithin := (hfollows.1 hboth.2).2
            omega
          · rw [if_neg hcadence] at h
            have hchain := (Linked.concat_iff hlast).2 ⟨hchain, hfloor, hfollows.2 ⟨hle, by omega⟩⟩
            have hsame : chain ++ cp :: rest = chain ++ [cp] ++ rest := by simp
            rw [hsame] at hchecked ⊢
            exact extendFrontier_spec hrep hchecked List.getLast?_concat hchain hcpTime h
    · rw [if_pos (by simpa using mt belowFloor_iff.2 hfloor)] at h
      exact hstopped _ (Except.ok.inj h).symm fun hboth => hfloor hboth.1

theorem computeGapFreeFrontier_spec (hrep : Represents crates db) {usable : List Checkpoint} {result : GapFreeResult}
    (hchecked : ∀ cp ∈ usable, cp.treeSize < i64Bound ∧ resolveGovernanceFor crates config db cp.treeSize ≠ .ok none)
    (h : computeGapFreeFrontier crates config db usable floor = .ok result) :
    ∃ longest, LongestPrefix (GapFree crates config db floor) usable longest ∧
      result.frontier = longest.getLast?.map (·.treeSize) := by
  cases usable with
  | nil =>
    obtain rfl := Except.ok.inj h
    exact ⟨[], LongestPrefix.of_stop Linked.of_append List.prefix_rfl Linked.nil fun x hx => by simp at hx, rfl⟩
  | cons first rest =>
    have hstopped : ∀ stop, result = ⟨none, stop⟩ → ¬ (BelowFloor floor first ∧ StartsInTime crates config db first) →
        ∃ longest, LongestPrefix (GapFree crates config db floor) (first :: rest) longest ∧
          result.frontier = longest.getLast?.map (·.treeSize) := by
      rintro stop rfl hstop
      refine ⟨[], LongestPrefix.of_stop Linked.of_append List.nil_prefix Linked.nil fun x hx hlinked => hstop ?_, rfl⟩
      obtain rfl : x = first := by simpa using hx
      exact ⟨hlinked.good x (by simp), hlinked.start x rfl⟩
    unfold computeGapFreeFrontier at h
    dsimp only at h
    by_cases hfloor : BelowFloor floor first
    · rw [if_neg (belowFloor_iff.1 hfloor)] at h
      obtain ⟨found, hfound, h⟩ := bind_eq_ok.1 h
      obtain ⟨hbound, hresolves⟩ := hchecked first List.mem_cons_self
      cases found with
      | none => exact absurd hfound hresolves
      | some state =>
        have hgoverns := resolveGovernanceFor_some hrep hbound hfound
        have hheld := hgoverns.1
        obtain ⟨-, -, hle, -⟩ := hgoverns.genesis
        dsimp only at h
        obtain ⟨genesisTreeSize, hsize, h⟩ := bind_eq_ok.1 h
        obtain rfl : state.genesisEntryIndex + 1 = genesisTreeSize := by
          have hlt := i64Bound_lt_u64Bound
          rw [checkedAdd_of_lt (by omega)] at hsize
          exact Except.ok.inj hsize
        obtain ⟨resolved, hresolved, h⟩ := bind_eq_ok.1 h
        obtain ⟨found, genesis, rfl, hgenesis, hcadence, hepoch⟩ := hgoverns.resolved_genesis hrep hbound hresolved
        dsimp only at h
        obtain ⟨firstTime, htime, h⟩ := bind_eq_ok.1 h
        rw [hcadence, hepoch] at h
        have hstarts := startsInTime_iff htime hgenesis
        by_cases hstart : StartsInTime crates config db first
        · rw [if_pos (hstarts.1 hstart)] at h
          have hchecked : ∀ cp ∈ [first] ++ rest,
              cp.treeSize < i64Bound ∧ resolveGovernanceFor crates config db cp.treeSize ≠ .ok none := hchecked
          exact extendFrontier_spec hrep hchecked rfl (Linked.singleton hfloor hstart) htime h
        · rw [if_neg (mt hstarts.2 hstart)] at h
          exact hstopped _ (Except.ok.inj h).symm fun hboth => hstart hboth.2
    · rw [if_pos (by simpa using mt belowFloor_iff.2 hfloor)] at h
      exact hstopped _ (Except.ok.inj h).symm fun hboth => hfloor hboth.1

theorem extendFrontier_below : ∀ {rest : List Checkpoint} {frontier : Nat} {prev : Checkpoint} {prevTime : Nat}
    {result : GapFreeResult}, (∀ f ∈ floor, frontier < f) →
      extendFrontier crates config db floor frontier prev prevTime rest = .ok result →
        ∀ n ∈ result.frontier, ∀ f ∈ floor, n < f
  | [], frontier, _, _, result, hbelow, h => by
    obtain rfl := Except.ok.inj h
    rintro n ⟨⟩
    exact hbelow
  | cp :: rest, frontier, prev, prevTime, result, hbelow, h => by
    have hstopped : ∀ stop, result = ⟨some frontier, stop⟩ → ∀ n ∈ result.frontier, ∀ f ∈ floor, n < f := by
      rintro stop rfl n ⟨⟩
      exact hbelow
    rw [extendFrontier] at h
    by_cases hfloor : BelowFloor floor cp
    · rw [if_neg (belowFloor_iff.1 hfloor), bind_eq_ok] at h
      obtain ⟨cpTime, -, h⟩ := h
      cases hdelta : checkedSub cpTime prevTime with
      | none =>
        rw [hdelta] at h
        exact hstopped _ (Except.ok.inj h).symm
      | some delta =>
        rw [hdelta] at h
        obtain ⟨found, -, h⟩ := bind_eq_ok.1 h
        cases found with
        | none => exact hstopped _ (Except.ok.inj h).symm
        | some state =>
          dsimp only at h
          split_ifs at h
          · exact hstopped _ (Except.ok.inj h).symm
          · exact extendFrontier_below hfloor h
    · rw [if_pos (by simpa using mt belowFloor_iff.2 hfloor)] at h
      exact hstopped _ (Except.ok.inj h).symm

theorem computeGapFreeFrontier_below {usable : List Checkpoint} {result : GapFreeResult}
    (h : computeGapFreeFrontier crates config db usable floor = .ok result) :
    ∀ n ∈ result.frontier, ∀ f ∈ floor, n < f := by
  have hstopped : ∀ stop, result = ⟨none, stop⟩ → ∀ n ∈ result.frontier, ∀ f ∈ floor, n < f := by
    rintro stop rfl n ⟨⟩
  unfold computeGapFreeFrontier at h
  cases usable with
  | nil => exact hstopped _ (Except.ok.inj h).symm
  | cons first rest =>
    dsimp only at h
    by_cases hfloor : BelowFloor floor first
    · rw [if_neg (belowFloor_iff.1 hfloor)] at h
      obtain ⟨found, -, h⟩ := bind_eq_ok.1 h
      cases found with
      | none => exact hstopped _ (Except.ok.inj h).symm
      | some state =>
        obtain ⟨genesisTreeSize, -, h⟩ := bind_eq_ok.1 h
        obtain ⟨resolved, -, h⟩ := bind_eq_ok.1 h
        cases resolved with
        | none => exact hstopped _ (Except.ok.inj h).symm
        | some genesis =>
          obtain ⟨firstTime, -, h⟩ := bind_eq_ok.1 h
          split_ifs at h
          · exact extendFrontier_below hfloor h
          · exact hstopped _ (Except.ok.inj h).symm
    · rw [if_pos (by simpa using mt belowFloor_iff.2 hfloor)] at h
      exact hstopped _ (Except.ok.inj h).symm

end loop

/-! ### The view -/

theorem itub_cases {db : Db} {view : SeriesView} {index : Nat} {cp : Checkpoint} {stop : Option FrontierStop}
    (hfrontier : computeGapFreeFrontier crates config db (usableCheckpoints view.members) view.equivocationFloor =
      .ok ⟨view.gapFreeFrontier, stop⟩) (h : itub view index = some cp) :
    cp ∈ usableCheckpoints view.members ∧ index < cp.treeSize ∧ ∀ floor ∈ view.equivocationFloor, cp.treeSize < floor := by
  have hbelow := computeGapFreeFrontier_below hfrontier
  unfold itub at h
  cases hend : view.gapFreeFrontier with
  | none =>
    rw [hend] at h
    cases h
  | some frontier =>
    rw [hend] at h hbelow
    have hsize := List.find?_some h
    simp only [Bool.and_eq_true, decide_eq_true_eq] at hsize
    exact ⟨List.mem_of_find?_eq_some h, hsize.1, fun floor hfloor => hsize.2.trans_lt (hbelow frontier rfl floor hfloor)⟩

variable [DecidableEq H]

theorem Viewed.governed_gapFree {db : Db} (hrep : Represents crates db) (hgoverned : RowsGoverned crates config db)
    {view : SeriesView} (h : Viewed crates config db view) :
    ∃ longest,
      LongestPrefix (GapFree crates config db view.equivocationFloor) (usableCheckpoints view.members) longest ∧
      view.gapFreeFrontier = longest.getLast?.map (·.treeSize) := by
  have hchecked : ∀ cp ∈ usableCheckpoints view.members,
      cp.treeSize < i64Bound ∧ resolveGovernanceFor crates config db cp.treeSize ≠ .ok none := by
    intro cp hcp
    obtain ⟨hrow, hbound, hheld⟩ := h.usable_held hrep hcp
    refine ⟨hbound, fun hnone => ?_⟩
    obtain ⟨w, hwalk, hempty⟩ := resolveGovernanceFor_none hrep hbound hheld hnone
    exact hgoverned cp hrow w hwalk hempty
  obtain ⟨stop, hfrontier⟩ := h.frontier
  exact computeGapFreeFrontier_spec hrep hchecked hfrontier

theorem Viewed.longest_gapFree {db : Db} (hreach : Reachable crates config db) {view : SeriesView}
    (h : Viewed crates config db view) :
    ∃ longest,
      LongestPrefix (GapFree crates config db view.equivocationFloor) (usableCheckpoints view.members) longest ∧
      view.gapFreeFrontier = longest.getLast?.map (·.treeSize) :=
  h.governed_gapFree hreach.represents hreach.rowsGoverned

/-- **The frontier is the last of the longest gap-free prefix.** Of the usable members, in series order,
a view's frontier is the size of the last one of their longest gap-free prefix below the floor, and the
bound on an index is the first member of that prefix with a greater size. -/
theorem frontier_longest {db : Db} (hreach : Reachable crates config db) {view : SeriesView}
    (hview : seriesView crates config db = .ok view) :
    (usableCheckpoints view.members).Pairwise seriesLE ∧ ∃ longest,
      LongestPrefix (GapFree crates config db view.equivocationFloor) (usableCheckpoints view.members) longest ∧
      view.gapFreeFrontier = longest.getLast?.map (·.treeSize) ∧
      ∀ index, itub view index = longest.find? fun cp => decide (index < cp.treeSize) := by
  have hviewed := seriesView_cases hview
  have hsorted := hviewed.usable_sorted
  obtain ⟨longest, hlongest, hlast⟩ := hviewed.longest_gapFree hreach
  refine ⟨hsorted, longest, hlongest, hlast, fun index => ?_⟩
  unfold itub
  cases hend : longest.getLast? with
  | none =>
    rw [hlast, hend, List.getLast?_eq_none_iff.1 hend]
    rfl
  | some last =>
    rw [hlast, hend]
    exact find?_of_prefix (f := Checkpoint.treeSize) (hsorted.imp fun h => h.treeSize_le) hlongest.isPrefix hend index

/-- Two checkpoints in time, over one and two entries. -/
def Symbolic.twoMembers : List Call :=
  [stage 1, stage 5, ingest (checkpoint "A" 1 (rootOf [[1]]) 5) [pending [[1]] 0],
    ingest (checkpoint "A" 2 (rootOf [[1], [5]]) 9) [pending [[1], [5]] 1]]

/-- The view of them. -/
def Symbolic.twoMembersView : SeriesView :=
  ⟨[⟨checkpoint "A" 1 (rootOf [[1]]) 5, .seriesUsable⟩, ⟨checkpoint "A" 2 (rootOf [[1], [5]]) 9, .seriesUsable⟩], some 2,
    none, [], none⟩

theorem frontier_longest_twoMembers : ∃ longest,
    LongestPrefix (GapFree (Symbolic.crates Symbolic.documents) Symbolic.config (Symbolic.after Symbolic.twoMembers) none)
      (usableCheckpoints Symbolic.twoMembersView.members) longest ∧ some 2 = longest.getLast?.map (·.treeSize) := by
  obtain ⟨-, longest, hlongest, hlast, -⟩ := frontier_longest (Symbolic.reachable_after Symbolic.twoMembers)
    (show seriesView _ _ _ = .ok Symbolic.twoMembersView by decide +kernel)
  exact ⟨longest, hlongest, hlast⟩

end AhlMirror
