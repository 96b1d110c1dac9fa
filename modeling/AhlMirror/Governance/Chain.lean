import AhlMirror.Governance.Walk
import AhlMirror.Model.Symbolic

/-!
# The version list is the authorised chain

What the manifest versions of an entry prefix are, said without the walk: the greedy chain from the
configured genesis, each next version the first later entry that verifies under the producer keys then
in force and names its predecessor. The walk finds exactly this chain (`versions_chain`); `versions_take`
and `resolve_eq_ok` are what the rest of the development reads off it.
-/

namespace AhlMirror

open AhlMirror.Core

variable {H K : Type} [HashOctets H]

section chain
variable (crates : Crates H K) (config : Config K)

/-! ### The authorised chain -/

/-- The producer keys after a run of entries from `index` on. -/
def keysFrom (keys : KeyMap K) : Nat → List Bytes → KeyMap K
  | _, [] => keys
  | index, bytes :: rest => keysFrom (keysAfterEntry crates keys index bytes) (index + 1) rest

/-- A version with the producer keys in force at `index`: its own, as the entries since then changed them. -/
def inForce (entries : List Bytes) (version : GovernanceState K) (index : Nat) : GovernanceState K :=
  { version with
    producerKeys := keysFrom crates version.producerKeys (version.governingManifestEntryIndex + 1)
      ((entries.take index).drop (version.governingManifestEntryIndex + 1)) }

/-- The entry at `index` installs the genesis version. -/
def GenesisAt (entries : List Bytes) (index : Nat) (state : GovernanceState K) : Prop :=
  ∃ bytes, entries[index]? = some bytes ∧ InstallsGenesis crates config index bytes state

/-- The entry at `index` installs a successor of `version`, under the keys in force there. -/
def SuccessorAt (entries : List Bytes) (version : GovernanceState K) (index : Nat) (next : GovernanceState K) : Prop :=
  ∃ bytes, entries[index]? = some bytes ∧ InstallsSuccessor crates config (inForce crates entries version index) index
    bytes next

/-- The versions of a prefix: the first genesis, then each first later successor, none skipped; at
increasing entry indices, under one genesis index and one cadence epoch. -/
structure AuthorisedChain (entries : List Bytes) (versions : List (GovernanceState K)) : Prop where
  genesis : ∃ first, versions.head? = some first ∧ FirstAdmitted (·.governingManifestEntryIndex)
    (GenesisAt crates config entries) 0 entries.length first
  successors : versions.IsChain fun version next => FirstAdmitted (·.governingManifestEntryIndex)
    (SuccessorAt crates config entries version) (version.governingManifestEntryIndex + 1) entries.length next
  complete : ∀ last ∈ versions.getLast?, ∀ index next, last.governingManifestEntryIndex < index →
    index < entries.length → ¬ SuccessorAt crates config entries last index next
  increasing : versions.Pairwise fun earlier later =>
    earlier.governingManifestEntryIndex < later.governingManifestEntryIndex
  constant : ∀ first ∈ versions.head?, ∀ version ∈ versions,
    version.genesisEntryIndex = first.genesisEntryIndex ∧ version.cadenceEpochNanos = first.cadenceEpochNanos

/-- The greedy chain of an entry prefix. -/
abbrev VersionChain (entries : List Bytes) (versions : List (GovernanceState K)) : Prop :=
  GreedyChain (·.governingManifestEntryIndex) (GenesisAt crates config entries) (SuccessorAt crates config entries)
    entries.length versions

/-- What the walk carries: the chain so far, and its last version with the keys now in force. -/
def Walked (entries : List Bytes) (w : WalkState K) : Prop :=
  ∃ versions, w.snapshots = some versions ∧ VersionChain crates config entries versions ∧
    w.state = versions.getLast?.map fun version => inForce crates entries version entries.length

end chain

variable {crates : Crates H K} {config : Config K}

/-! ### One more entry -/

theorem keysFrom_concat (keys : KeyMap K) (bytes : Bytes) : ∀ (index : Nat) (entries : List Bytes),
    keysFrom crates keys index (entries ++ [bytes]) =
      keysAfterEntry crates (keysFrom crates keys index entries) (index + entries.length) bytes := by
  intro index entries
  induction entries generalizing index keys with
  | nil => rfl
  | cons other entries ih =>
    rw [List.cons_append, keysFrom, keysFrom, ih, List.length_cons, Nat.add_assoc, Nat.add_comm 1]

theorem inForce_append {entries : List Bytes} (more : List Bytes) (version : GovernanceState K) {index : Nat}
    (h : index ≤ entries.length) : inForce crates (entries ++ more) version index = inForce crates entries version index := by
  unfold inForce
  rw [List.take_append_of_le_length h]

theorem inForce_concat {entries : List Bytes} {bytes : Bytes} {version : GovernanceState K}
    (h : version.governingManifestEntryIndex < entries.length) :
    inForce crates (entries ++ [bytes]) version (entries.length + 1) =
      keepVersion crates (inForce crates entries version entries.length) entries.length bytes := by
  have htake : (entries ++ [bytes]).take (entries.length + 1) = entries ++ [bytes] := List.take_of_length_le (by simp)
  unfold keepVersion inForce
  rw [htake, List.take_length, List.drop_append_of_le_length h, keysFrom_concat, List.length_drop,
    Nat.add_sub_cancel' h]

theorem inForce_self {entries : List Bytes} {version : GovernanceState K} {index : Nat}
    (h : index ≤ version.governingManifestEntryIndex + 1) : inForce crates entries version index = version := by
  unfold inForce
  rw [List.drop_eq_nil_of_le ((List.length_take_le _ _).trans h)]
  rfl

theorem genesisAt_append {entries : List Bytes} (more : List Bytes) {index : Nat} {state : GovernanceState K}
    (h : index < entries.length) :
    GenesisAt crates config (entries ++ more) index state ↔ GenesisAt crates config entries index state := by
  unfold GenesisAt
  rw [List.getElem?_append_left h]

theorem successorAt_append {entries : List Bytes} (more : List Bytes) {version next : GovernanceState K} {index : Nat}
    (h : index < entries.length) : SuccessorAt crates config (entries ++ more) version index next ↔
      SuccessorAt crates config entries version index next := by
  unfold SuccessorAt
  rw [List.getElem?_append_left h, inForce_append more version h.le]

theorem genesisAt_concat {entries : List Bytes} {bytes : Bytes} {state : GovernanceState K} :
    GenesisAt crates config (entries ++ [bytes]) entries.length state ↔
      InstallsGenesis crates config entries.length bytes state := by
  unfold GenesisAt
  simp

theorem successorAt_concat {entries : List Bytes} {bytes : Bytes} {version next : GovernanceState K} :
    SuccessorAt crates config (entries ++ [bytes]) version entries.length next ↔
      InstallsSuccessor crates config (inForce crates entries version entries.length) entries.length bytes next := by
  unfold SuccessorAt
  rw [inForce_append [bytes] version le_rfl]
  simp

theorem Walked.walkEntry {entries : List Bytes} {w after : WalkState K} (hw : Walked crates config entries w)
    {bytes : Bytes} (h : walkEntry crates config w entries.length bytes = .ok after) :
    Walked crates config (entries ++ [bytes]) after := by
  obtain ⟨versions, hsnapshots, hchain, hstate⟩ := hw
  have hlength : (entries ++ [bytes]).length = entries.length + 1 := by simp
  have hinitial : ∀ i t, i < entries.length → (GenesisAt crates config (entries ++ [bytes]) i t ↔
      GenesisAt crates config entries i t) := fun i t hi => genesisAt_append [bytes] hi
  have hsuccessor : ∀ s i t, i < entries.length → (SuccessorAt crates config (entries ++ [bytes]) s i t ↔
      SuccessorAt crates config entries s i t) := fun s i t hi => successorAt_append [bytes] hi
  -- an installed version is the last one, with the keys it declares
  have hinstall : ∀ next : GovernanceState K, next.governingManifestEntryIndex = entries.length →
      VersionChain crates config (entries ++ [bytes]) (versions ++ [next]) → after = w.install next →
      Walked crates config (entries ++ [bytes]) after := by
    rintro next hindex hnext rfl
    refine ⟨versions ++ [next], by rw [WalkState.install, hsnapshots]; rfl, hnext, ?_⟩
    rw [List.getLast?_concat, Option.map_some, inForce_self (by omega)]
    rfl
  unfold VersionChain at hinstall
  rw [hlength] at hinstall
  cases hlast : versions.getLast? with
  | none =>
    rw [hlast] at hstate
    have hnil : versions = [] := List.getLast?_eq_none_iff.1 hlast
    rcases walkEntry_none hstate h with ⟨state, hgenesis, hafter⟩ | ⟨hnone, rfl⟩
    · exact hinstall state hgenesis.fields.1 (hchain.concat hgenesis.fields.1 hinitial hsuccessor
        (fun _ => genesisAt_concat.2 hgenesis) (by simp [hlast])) hafter
    · refine ⟨versions, hsnapshots, ?_, by rw [hlast]; exact hstate⟩
      unfold VersionChain
      rw [hlength]
      exact hchain.skip hinitial hsuccessor (fun _ state hgenesis => hnone state (genesisAt_concat.1 hgenesis))
        (by simp [hlast])
  | some version =>
    rw [hlast] at hstate
    have hlt : version.governingManifestEntryIndex < entries.length :=
      hchain.lt_stop version (List.mem_of_getLast? hlast)
    rcases walkEntry_some hstate hlt h with ⟨next, hnext, hafter⟩ | ⟨hnone, rfl⟩
    · refine hinstall next hnext.fields.1 (hchain.concat hnext.fields.1 hinitial hsuccessor
        (fun hnil => by simp [hnil] at hlast) fun s hs => ?_) hafter
      obtain rfl : version = s := Option.some.inj (hlast.symm.trans hs)
      exact successorAt_concat.2 hnext
    · refine ⟨versions, hsnapshots, ?_, ?_⟩
      · unfold VersionChain
        rw [hlength]
        refine hchain.skip hinitial hsuccessor (fun hnil => by simp [hnil] at hlast) fun s hs next hnext => ?_
        obtain rfl : version = s := Option.some.inj (hlast.symm.trans hs)
        exact hnone next (successorAt_concat.1 hnext)
      · rw [hlast, hlength, Option.map_some, inForce_concat hlt]

theorem walk_walked {entries : List Bytes} : ∀ {w : WalkState K},
    walk crates config entries (some []) = .ok w → Walked crates config entries w := by
  induction entries using List.reverseRecOn with
  | nil =>
    intro w h
    obtain rfl := Except.ok.inj h
    exact ⟨[], rfl, GreedyChain.nil, rfl⟩
  | append_singleton entries bytes ih =>
    intro w h
    rw [walk_concat] at h
    obtain ⟨before, hbefore, h⟩ := bind_eq_ok.1 h
    exact (ih hbefore).walkEntry h

/-! ### The two views -/

theorem versions_eq_ok {entries : List Bytes} {list : List (GovernanceState K)} :
    versions crates config entries = .ok list ↔
      list ≠ [] ∧ ∃ w, walk crates config entries (some []) = .ok w ∧ w.snapshots = some list := by
  unfold versions
  rw [bind_eq_ok]
  constructor
  · rintro ⟨w, hwalk, h⟩
    obtain ⟨state, snapshots⟩ := w
    rcases snapshots with _ | _ | ⟨first, rest⟩
    · cases h
    · cases h
    · obtain rfl := Except.ok.inj h
      exact ⟨by simp, _, hwalk, rfl⟩
  · rintro ⟨hne, w, hwalk, hsnapshots⟩
    refine ⟨w, hwalk, ?_⟩
    cases list with
    | nil => exact absurd rfl hne
    | cons first rest => rw [hsnapshots]

theorem versions_chain {entries : List Bytes} {list : List (GovernanceState K)}
    (h : versions crates config entries = .ok list) : list ≠ [] ∧ VersionChain crates config entries list := by
  obtain ⟨hne, w, hwalk, hsnapshots⟩ := versions_eq_ok.1 h
  obtain ⟨_, hsame, hchain, -⟩ := walk_walked hwalk
  obtain rfl := Option.some.inj (hsnapshots.symm.trans hsame)
  exact ⟨hne, hchain⟩

theorem versionChain_constant {entries : List Bytes} {list : List (GovernanceState K)}
    (h : VersionChain crates config entries list) : ∀ first ∈ list.head?, ∀ version ∈ list,
      version.genesisEntryIndex = first.genesisEntryIndex ∧ version.cadenceEpochNanos = first.cadenceEpochNanos := by
  have hkeep : ∀ (s : GovernanceState K) i t, SuccessorAt crates config entries s i t →
      (t.genesisEntryIndex, t.cadenceEpochNanos) = (s.genesisEntryIndex, s.cadenceEpochNanos) := by
    rintro s i t ⟨bytes, -, hinstalls⟩
    exact Prod.ext hinstalls.fields.2.1 hinstalls.fields.2.2
  exact fun first hfirst version hversion => Prod.mk.inj (h.constant hkeep first hfirst version hversion)

theorem versions_genesis {entries : List Bytes} {list : List (GovernanceState K)}
    (h : versions crates config entries = .ok list) : ∃ genesis rest, list = genesis :: rest ∧
      (∀ version ∈ list, version.genesisEntryIndex = genesis.governingManifestEntryIndex) ∧
      ∀ version ∈ rest, genesis.governingManifestEntryIndex < version.governingManifestEntryIndex := by
  obtain ⟨hne, hchain⟩ := versions_chain h
  cases list with
  | nil => exact absurd rfl hne
  | cons genesis rest =>
    obtain ⟨bytes, -, hinstalls⟩ := (hchain.head genesis rfl).admitted
    refine ⟨genesis, rest, rfl, fun version hversion => ?_, (List.pairwise_cons.1 hchain.increasing).1⟩
    rw [(versionChain_constant hchain genesis rfl version hversion).1, hinstalls.fields.2]

theorem walkEntry_snapshots {w after : WalkState K} {index : Nat} {bytes : Bytes}
    (hbelow : ∀ state, w.state = some state → state.governingManifestEntryIndex < index)
    (h : walkEntry crates config w index bytes = .ok after) :
    (∀ state, after.state = some state → state.governingManifestEntryIndex < index + 1) ∧
      ∃ new : List (GovernanceState K), after.snapshots = w.snapshots.map (fun list => list ++ new) ∧
        ∀ version ∈ new, index ≤ version.governingManifestEntryIndex := by
  have hsame : w.snapshots = w.snapshots.map fun list => list ++ [] := by simp
  have hinstalled : ∀ state : GovernanceState K, state.governingManifestEntryIndex = index → after = w.install state →
      (∀ state, after.state = some state → state.governingManifestEntryIndex < index + 1) ∧
      ∃ new : List (GovernanceState K), after.snapshots = w.snapshots.map (fun list => list ++ new) ∧
        ∀ version ∈ new, index ≤ version.governingManifestEntryIndex := by
    rintro state hstate rfl
    refine ⟨fun current hcurrent => ?_, [state], rfl, fun version hversion => ?_⟩
    · obtain rfl := Option.some.inj hcurrent
      omega
    · obtain rfl := List.mem_singleton.1 hversion
      exact hstate.ge
  cases hw : w.state with
  | none =>
    rcases walkEntry_none hw h with ⟨state, hgenesis, hafter⟩ | ⟨-, rfl⟩
    · exact hinstalled state hgenesis.fields.1 hafter
    · exact ⟨fun state hstate => (hbelow state hstate).trans (Nat.lt_succ_self _), [], hsame, by simp⟩
  | some current =>
    have hlt := hbelow current hw
    rcases walkEntry_some hw hlt h with ⟨next, hnext, hafter⟩ | ⟨-, rfl⟩
    · exact hinstalled next hnext.fields.1 hafter
    · refine ⟨fun state hstate => ?_, [], hsame, by simp⟩
      obtain rfl := Option.some.inj hstate
      exact hlt.trans (Nat.lt_succ_self _)

theorem walkFrom_snapshots : ∀ {entries : List Bytes} {w after : WalkState K} {index : Nat},
    (∀ state, w.state = some state → state.governingManifestEntryIndex < index) →
    walkFrom crates config index w entries = .ok after →
      ∃ new : List (GovernanceState K), after.snapshots = w.snapshots.map (fun list => list ++ new) ∧
        ∀ version ∈ new, index ≤ version.governingManifestEntryIndex
  | [], w, after, index, _, h => by
    obtain rfl := Except.ok.inj h
    exact ⟨[], by simp, by simp⟩
  | bytes :: rest, w, after, index, hbelow, h => by
    rw [walkFrom, bind_eq_ok] at h
    obtain ⟨next, hentry, hrest⟩ := h
    obtain ⟨hbelow', new, hnew, hfrom⟩ := walkEntry_snapshots hbelow hentry
    obtain ⟨more, hmore, hfrom'⟩ := walkFrom_snapshots hbelow' hrest
    refine ⟨new ++ more, ?_, fun version hversion => ?_⟩
    · rw [hmore, hnew, Option.map_map]
      simp [Function.comp_def]
    · rcases List.mem_append.1 hversion with hold | hlater
      · exact hfrom version hold
      · exact (Nat.le_succ index).trans (hfrom' version hlater)

/-- A walk goes on from where the walk of a prefix ended, and adds versions past it only. -/
theorem walk_extends {p q : List Bytes} {w : WalkState K} (h : walk crates config (p ++ q) (some []) = .ok w) :
    ∃ middle before new, walk crates config p (some []) = .ok middle ∧ middle.snapshots = some before ∧
      w.snapshots = some (before ++ new) ∧ (∀ version ∈ before, version.governingManifestEntryIndex < p.length) ∧
      ∀ version ∈ new, p.length ≤ version.governingManifestEntryIndex := by
  rw [walk_append, bind_eq_ok] at h
  obtain ⟨middle, hmiddle, hrest⟩ := h
  obtain ⟨before, hbefore, hchain, hstate⟩ := walk_walked hmiddle
  have hcurrent : ∀ state, middle.state = some state → state.governingManifestEntryIndex < p.length := by
    intro state hsome
    rw [hstate, Option.map_eq_some_iff] at hsome
    obtain ⟨last, hlast, rfl⟩ := hsome
    exact hchain.lt_stop last (List.mem_of_getLast? hlast)
  obtain ⟨new, hnew, hfrom⟩ := walkFrom_snapshots hcurrent hrest
  exact ⟨middle, before, new, hmiddle, hbefore, by rw [hnew, hbefore]; rfl, hchain.lt_stop, hfrom⟩

theorem versions_take {entries : List Bytes} {list : List (GovernanceState K)} {n : Nat}
    (h : versions crates config entries = .ok list) (hn : n ≤ entries.length) :
    ∃ w, walk crates config (entries.take n) (some []) = .ok w ∧
      w.snapshots = some (list.filter fun version => decide (version.governingManifestEntryIndex < n)) := by
  obtain ⟨-, w, hwalk, hsnapshots⟩ := versions_eq_ok.1 h
  have hlength : (entries.take n).length = n := List.length_take_of_le hn
  rw [← List.take_append_drop n entries] at hwalk
  obtain ⟨middle, before, new, hmiddle, hbefore, hafter, hbelow, hfrom⟩ := walk_extends hwalk
  rw [hlength] at hbelow hfrom
  obtain rfl := Option.some.inj (hsnapshots.symm.trans hafter)
  refine ⟨middle, hmiddle, ?_⟩
  rw [hbefore, List.filter_append, List.filter_eq_self.2 (by simpa using hbelow),
    List.filter_eq_nil_iff.2 (by simpa using hfrom), List.append_nil]

theorem versions_take_genesis {entries : List Bytes} {list before : List (GovernanceState K)} {n : Nat}
    (h : versions crates config entries = .ok list) (hn : n ≤ entries.length)
    (hbefore : versions crates config (entries.take n) = .ok before) : before.head? = list.head? := by
  obtain ⟨w, hwalk, hsnapshots⟩ := versions_take h hn
  obtain ⟨hne, w', hwalk', hsnapshots'⟩ := versions_eq_ok.1 hbefore
  obtain rfl := Except.ok.inj (hwalk'.symm.trans hwalk)
  obtain rfl := Option.some.inj (hsnapshots'.symm.trans hsnapshots)
  obtain ⟨genesis, rest, rfl, -, hrest⟩ := versions_genesis h
  by_cases hgenesis : genesis.governingManifestEntryIndex < n
  · simp [hgenesis]
  · -- without the genesis there is no version at all
    refine absurd (List.filter_eq_nil_iff.2 fun version hversion => ?_) hne
    rcases List.mem_cons.1 hversion with rfl | hversion
    · simpa using hgenesis
    · have := hrest version hversion
      simp
      omega

theorem versions_take_through_genesis {entries : List Bytes} {genesis : GovernanceState K}
    {rest : List (GovernanceState K)} (h : versions crates config entries = .ok (genesis :: rest)) :
    genesis.governingManifestEntryIndex < entries.length ∧
      versions crates config (entries.take (genesis.governingManifestEntryIndex + 1)) = .ok [genesis] := by
  obtain ⟨-, hchain⟩ := versions_chain h
  have hlt := hchain.lt_stop genesis List.mem_cons_self
  obtain ⟨w, hwalk, hsnapshots⟩ := versions_take h (Nat.succ_le_of_lt hlt)
  have hrest := (List.pairwise_cons.1 hchain.increasing).1
  have hnone : (rest.filter fun version =>
      decide (version.governingManifestEntryIndex < genesis.governingManifestEntryIndex + 1)) = [] := by
    apply List.filter_eq_nil_iff.2
    intro version hversion
    have := hrest version hversion
    simp
    omega
  rw [List.filter_cons, if_pos (by simp), hnone] at hsnapshots
  exact ⟨hlt, versions_eq_ok.2 ⟨by simp, w, hwalk, hsnapshots⟩⟩

theorem versions_take_of_last {entries : List Bytes} {list : List (GovernanceState K)} {last : GovernanceState K}
    {n : Nat}
    (h : versions crates config entries = .ok list) (hlast : list.getLast? = some last)
    (hn : last.governingManifestEntryIndex < n) (hle : n ≤ entries.length) :
    versions crates config (entries.take n) = .ok list := by
  obtain ⟨hne, hchain⟩ := versions_chain h
  obtain ⟨w, hwalk, hsnapshots⟩ := versions_take h hle
  have hbelow : ∀ version ∈ list, version.governingManifestEntryIndex < n := by
    obtain ⟨init, rfl⟩ := List.getLast?_eq_some_iff.1 hlast
    intro version hversion
    rcases List.mem_append.1 hversion with hold | hnew
    · exact ((List.pairwise_append.1 hchain.increasing).2.2 version hold last (List.mem_singleton_self last)).trans hn
    · exact List.mem_singleton.1 hnew ▸ hn
  rw [List.filter_eq_self.2 (by simpa using hbelow)] at hsnapshots
  exact versions_eq_ok.2 ⟨hne, w, hwalk, hsnapshots⟩

theorem walkEntry_collects (state : Option (GovernanceState K)) (list : List (GovernanceState K)) (index : Nat)
    (bytes : Bytes) : walkEntry crates config ⟨state, none⟩ index bytes =
      (walkEntry crates config ⟨state, some list⟩ index bytes).map fun w => ⟨w.state, none⟩ := by
  unfold walkEntry
  cases readStatement crates bytes with
  | none => rfl
  | some statement =>
    obtain ⟨envelope, payload, kind⟩ := statement
    dsimp only
    split_ifs
    · cases tryApplyManifest crates config state envelope payload index with
      | error e => rfl
      | ok after =>
        simp only [ok_bind]
        split_ifs <;> cases after <;> rfl
    · cases state with
      | none => rfl
      | some current =>
        dsimp only
        cases tryApplyKey crates current envelope payload index <;> rfl
    · rfl

theorem walk_collects (entries : List Bytes) : walk crates config entries none =
    (walk crates config entries (some [])).map fun w => ⟨w.state, none⟩ := by
  induction entries using List.reverseRecOn with
  | nil => rfl
  | append_singleton entries bytes ih =>
    rw [walk_concat, walk_concat, ih]
    cases hwalk : walk crates config entries (some []) with
    | error e => rfl
    | ok w =>
      obtain ⟨versions, hsnapshots, -⟩ := walk_walked hwalk
      obtain ⟨state, snapshots⟩ := w
      obtain rfl : snapshots = some versions := hsnapshots
      exact walkEntry_collects state versions entries.length bytes

/-- `resolve` is the last of `versions`, with the producer keys in force at the end. -/
theorem resolve_eq_versions (entries : List Bytes) : resolve crates config entries =
    versions crates config entries >>= fun list => okOr (.governanceChainUnresolvable entries.length)
      (list.getLast?.map fun version => inForce crates entries version entries.length) := by
  unfold resolve versions
  rw [walk_collects]
  cases hwalk : walk crates config entries (some []) with
  | error e => rfl
  | ok w =>
    obtain ⟨list, hsnapshots, -, hstate⟩ := walk_walked hwalk
    obtain ⟨state, snapshots⟩ := w
    obtain rfl : snapshots = some list := hsnapshots
    obtain rfl : state = _ := hstate
    cases list <;> rfl

theorem resolve_eq_ok {entries : List Bytes} {state : GovernanceState K} :
    resolve crates config entries = .ok state ↔ ∃ list last, versions crates config entries = .ok list ∧
      list.getLast? = some last ∧ state = inForce crates entries last entries.length := by
  rw [resolve_eq_versions, bind_eq_ok]
  constructor
  · rintro ⟨list, hlist, h⟩
    obtain ⟨last, hlast, rfl⟩ := Option.map_eq_some_iff.1 (okOr_eq_ok.1 h)
    exact ⟨list, last, hlist, hlast, rfl⟩
  · rintro ⟨list, last, hlist, hlast, rfl⟩
    exact ⟨list, hlist, by rw [hlast]; rfl⟩

/-- Governance is unresolvable only where the walk went through and met no genesis. -/
theorem resolve_unresolvable {entries : List Bytes} {n : Nat}
    (h : resolve crates config entries = .error (.governanceChainUnresolvable n)) :
    ∃ w, walk crates config entries (some []) = .ok w ∧ w.snapshots = some [] := by
  unfold resolve at h
  rw [walk_collects] at h
  cases hwalk : walk crates config entries (some []) with
  | error e =>
    rw [hwalk] at h
    obtain rfl : e = _ := Except.error.inj h
    exact absurd (walk_failure hwalk) WalkFailure.ne_unresolvable
  | ok w =>
    obtain ⟨list, hsnapshots, -, hstate⟩ := walk_walked hwalk
    rw [hwalk] at h
    refine ⟨w, rfl, ?_⟩
    cases hlast : list.getLast? with
    | none => rw [hsnapshots, List.getLast?_eq_none_iff.1 hlast]
    | some last =>
      rw [hlast] at hstate
      have hok : (okOr (.governanceChainUnresolvable entries.length) w.state : MirrorResult (GovernanceState K)) =
          .error (.governanceChainUnresolvable n) := h
      rw [hstate] at hok
      cases hok

/-- **The version list is the authorised chain.** Where the versions of an entry prefix resolve, they are
the first entry that meets the genesis conditions and then, for each version, the first later entry that
succeeds it under the producer keys in force. -/
theorem versions_authorised {entries : List Bytes} {list : List (GovernanceState K)}
    (h : versions crates config entries = .ok list) : AuthorisedChain crates config entries list := by
  obtain ⟨hne, hchain⟩ := versions_chain h
  refine ⟨?_, hchain.next, hchain.last, hchain.increasing, versionChain_constant hchain⟩
  cases list with
  | nil => exact absurd rfl hne
  | cons first rest => exact ⟨first, rfl, hchain.head first rfl⟩

/-- The versions of the small log's genesis and its successor. -/
def Symbolic.rotation : List (GovernanceState String) :=
  (versions (Symbolic.crates Symbolic.documents) Symbolic.config [[1], [5], [2]]).toOption.getD []

theorem versions_authorised_rotation :
    Symbolic.rotation.map (·.governingManifestEntryIndex) = [0, 2] ∧
      AuthorisedChain (Symbolic.crates Symbolic.documents) Symbolic.config [[1], [5], [2]] Symbolic.rotation :=
  ⟨by decide +kernel, versions_authorised (by decide +kernel)⟩

end AhlMirror
