import AhlMirror.Governance.Chain

/-!
# The two views of the chain walk

Admission takes its keys from the last of `versions`, the frontier its cadence from `resolve`. Both are
views of one walk: they succeed together, on success they agree on all but the producer keys
(`SameGovernance`), and a shorter prefix shows the versions below its length and no later one.
-/

namespace AhlMirror

variable {H K : Type}

/-- The same governance, but for the producer keys, which `key` statements change between versions. -/
structure SameGovernance (state version : GovernanceState K) : Prop where
  logKeys : state.logKeys = version.logKeys
  witnessKeys : state.witnessKeys = version.witnessKeys
  cadence : state.cadenceNanos = version.cadenceNanos
  cadenceEpoch : state.cadenceEpochNanos = version.cadenceEpochNanos
  governing : state.governingManifestEntryIndex = version.governingManifestEntryIndex
  genesis : state.genesisEntryIndex = version.genesisEntryIndex

theorem SameGovernance.resolveLogKey {state version : GovernanceState K} (h : SameGovernance state version)
    (keyId : String) (treeSize : Nat) : state.resolveLogKey keyId treeSize = version.resolveLogKey keyId treeSize := by
  unfold GovernanceState.resolveLogKey
  rw [h.logKeys]

variable [HashOctets H] {crates : Crates H K} {config : Config K}

theorem sameGovernance_inForce (entries : List Bytes) (version : GovernanceState K) (index : Nat) :
    SameGovernance (inForce crates entries version index) version := ⟨rfl, rfl, rfl, rfl, rfl, rfl⟩

theorem versions_error_iff (entries : List Bytes) (e : MirrorError) :
    versions crates config entries = .error e ↔ resolve crates config entries = .error e := by
  rw [resolve_eq_versions]
  cases hlist : versions crates config entries with
  | error e' => simp
  | ok list =>
    rw [ok_bind, List.getLast?_eq_some_getLast (versions_eq_ok.1 hlist).1]
    simp [okOr]

theorem versions_last_governs {entries : List Bytes} {list : List (GovernanceState K)}
    (h : versions crates config entries = .ok list) : ∃ last state, list.getLast? = some last ∧
      resolve crates config entries = .ok state ∧ SameGovernance state last := by
  have hlast := List.getLast?_eq_some_getLast (versions_eq_ok.1 h).1
  exact ⟨_, _, hlast, resolve_eq_ok.2 ⟨list, _, h, hlast, rfl⟩, sameGovernance_inForce entries _ _⟩

theorem versions_take_eq {entries : List Bytes} {list : List (GovernanceState K)} {n : Nat}
    (h : versions crates config entries = .ok list) (hn : n ≤ entries.length) :
    versions crates config (entries.take n) =
      if (list.filter fun version => decide (version.governingManifestEntryIndex < n)) = [] then
        .error (.governanceChainUnresolvable n)
      else .ok (list.filter fun version => decide (version.governingManifestEntryIndex < n)) := by
  obtain ⟨w, hwalk, hsnapshots⟩ := versions_take h hn
  unfold versions
  rw [hwalk, ok_bind, hsnapshots, List.length_take, Nat.min_eq_left hn]
  cases list.filter fun version => decide (version.governingManifestEntryIndex < n) with
  | nil => rfl
  | cons first rest => rfl

theorem resolve_take_greatest {entries : List Bytes} {list : List (GovernanceState K)} {n : Nat}
    (h : versions crates config entries = .ok list) (hn : n ≤ entries.length) {state : GovernanceState K}
    (hstate : resolve crates config (entries.take n) = .ok state) : ∃ version ∈ list,
      version.governingManifestEntryIndex < n ∧
      (∀ other ∈ list, other.governingManifestEntryIndex < n →
        other.governingManifestEntryIndex ≤ version.governingManifestEntryIndex) ∧
      (∃ before, versions crates config (entries.take n) = .ok before ∧ before.getLast? = some version) ∧
      SameGovernance state version := by
  obtain ⟨before, last, hbefore, hlast, rfl⟩ := resolve_eq_ok.1 hstate
  have hfilter := versions_take_eq h hn
  rw [hbefore] at hfilter
  split_ifs at hfilter
  obtain rfl := Except.ok.inj hfilter
  obtain ⟨hmem, hlt⟩ := List.mem_filter.1 (List.mem_of_getLast? hlast)
  refine ⟨last, hmem, by simpa using hlt, fun other hother hbelow => ?_, ⟨_, hbefore, hlast⟩,
    sameGovernance_inForce _ _ _⟩
  -- the versions come in the order of their indices, so none comes after the last
  have hsorted := ((versions_chain hbefore).2).increasing
  obtain ⟨init, hinit⟩ := List.getLast?_eq_some_iff.1 hlast
  have hother : other ∈ init ++ [last] := hinit ▸ List.mem_filter.2 ⟨hother, by simpa using hbelow⟩
  rw [hinit] at hsorted
  rcases List.mem_append.1 hother with hearlier | hsame
  · exact ((List.pairwise_append.1 hsorted).2.2 other hearlier last (List.mem_singleton_self last)).le
  · exact (List.mem_singleton.1 hsame) ▸ le_rfl

/-- **The two views agree, and are causal.** -/
theorem views_agree (crates : Crates H K) (config : Config K) (entries : List Bytes) :
    (∀ e, versions crates config entries = .error e ↔ resolve crates config entries = .error e) ∧
    ∀ list, versions crates config entries = .ok list →
      (∃ last state, list.getLast? = some last ∧ resolve crates config entries = .ok state ∧
        SameGovernance state last ∧
        ∀ keyId treeSize, state.resolveLogKey keyId treeSize = last.resolveLogKey keyId treeSize) ∧
      ∀ n ≤ entries.length,
        (versions crates config (entries.take n) =
          if (list.filter fun version => decide (version.governingManifestEntryIndex < n)) = [] then
            .error (.governanceChainUnresolvable n)
          else .ok (list.filter fun version => decide (version.governingManifestEntryIndex < n))) ∧
        ∀ state, resolve crates config (entries.take n) = .ok state → ∃ version ∈ list,
          version.governingManifestEntryIndex < n ∧
          (∀ other ∈ list, other.governingManifestEntryIndex < n →
            other.governingManifestEntryIndex ≤ version.governingManifestEntryIndex) ∧
          (∃ before, versions crates config (entries.take n) = .ok before ∧ before.getLast? = some version) ∧
          SameGovernance state version := by
  refine ⟨versions_error_iff entries, fun list hlist => ⟨?_, fun n hn => ⟨versions_take_eq hlist hn, fun state hstate =>
    resolve_take_greatest hlist hn hstate⟩⟩⟩
  obtain ⟨last, state, hlast, hstate, hsame⟩ := versions_last_governs hlist
  exact ⟨last, state, hlast, hstate, hsame, hsame.resolveLogKey⟩

theorem views_agree_rotation : versions (Symbolic.crates Symbolic.documents) Symbolic.config
      ([[1], [5], [2]].take 2) = .ok (Symbolic.rotation.filter fun version =>
        decide (version.governingManifestEntryIndex < 2)) ∧
    versions (Symbolic.crates Symbolic.documents) Symbolic.config ([[1], [5], [2]].take 0) =
      .error (.governanceChainUnresolvable 0) := by
  have hlist : versions (Symbolic.crates Symbolic.documents) Symbolic.config [[1], [5], [2]] = .ok Symbolic.rotation := by
    decide +kernel
  have hagree := ((views_agree (Symbolic.crates Symbolic.documents) Symbolic.config [[1], [5], [2]]).2 _ hlist).2
  constructor
  · rw [(hagree 2 (by decide)).1, if_neg (by decide +kernel)]
  · rw [(hagree 0 (by decide)).1, if_pos (by decide +kernel)]

end AhlMirror
