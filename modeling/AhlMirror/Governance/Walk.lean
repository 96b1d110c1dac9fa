import AhlMirror.Core.GreedyChain
import AhlMirror.Model.Manifest

/-!
# One entry of the walk

What an entry can do to the running governance state: install a genesis version, install a successor
of the version in force, change the producer keys, or nothing. `walkEntry_none` and `walkEntry_some`
say which, from conditions on the entry and the state before it, so that no later proof opens the walk.
-/

namespace AhlMirror

variable {H K : Type} [HashOctets H]

/-! ### What an entry may do -/

section conditions
variable (crates : Crates H K) (config : Config K)

/-- The entry installs `state` as the genesis version. -/
def InstallsGenesis (index : Nat) (bytes : Bytes) (state : GovernanceState K) : Prop :=
  ∃ envelope payload, readStatement crates bytes = some (envelope, payload, "manifest") ∧
    crates.entryId envelope = config.genesisManifestEntryId ∧
    crates.verifyEnvelope envelope (resolverFromSlice config.genesisProducerKeys index) = .ok true ∧
    (payload.get "ahl_version").bind Value.asStr = some crates.ahlVersion ∧
    payload.get "predecessor" = none ∧
    parseGovernance crates payload index (crates.entryId envelope) config.logId index none = some state

/-- The entry installs `next` as the successor of the version whose keys and identity `current` carries. -/
def InstallsSuccessor (current : GovernanceState K) (index : Nat) (bytes : Bytes) (next : GovernanceState K) : Prop :=
  ∃ envelope payload, readStatement crates bytes = some (envelope, payload, "manifest") ∧
    crates.verifyEnvelope envelope (resolverFromMap current.producerKeys index) = .ok true ∧
    (payload.get "predecessor").bind Value.asStr = some current.governingManifestEntryId ∧
    parseGovernance crates payload index (crates.entryId envelope) config.logId current.genesisEntryIndex
      (some current.cadenceEpochNanos) = some next

/-- The producer keys after an entry: an authenticated `key` statement changes them, nothing else does. -/
def keysAfterEntry (keys : KeyMap K) (index : Nat) (bytes : Bytes) : KeyMap K :=
  match readStatement crates bytes with
  | none => keys
  | some (envelope, payload, kind) =>
    if kind = "key" then
      match crates.verifyEnvelope envelope (resolverFromMap keys index) with
      | .ok true => applyKeyAction crates keys payload
      | _ => keys
    else keys

end conditions

variable {crates : Crates H K} {config : Config K}

/-! ### Parsing a manifest -/

theorem parseGovernance_some {payload : Value} {index genesis : Nat} {entryId logId : String} {epoch : Option Nat}
    {state : GovernanceState K} (h : parseGovernance crates payload index entryId logId genesis epoch = some state) :
    ∃ (producerKeys : KeyMap K) (specs : List KeyObjectSpec) (logKeys : List (ResolvedKeyObject K))
      (witnessKeys : List (String × ResolvedKeyObject K)) (cadence nanos : Nat),
      specs.mapM (fun spec => (ResolvedKeyObject.resolve crates spec).toOption) = some logKeys ∧
        ¬ (epoch ≠ none ∧ epoch ≠ some nanos) ∧
        state = ⟨producerKeys, logKeys, witnessKeys, cadence, nanos, index, entryId, genesis⟩ := by
  unfold parseGovernance at h
  simp only [Option.bind_eq_bind, Option.bind_eq_some_iff] at h
  obtain ⟨keys, -, specs, -, resolved, -, log, -, block, -, h⟩ := h
  split_ifs at h
  simp only [Option.bind_eq_some_iff] at h
  obtain ⟨cadence, -, grace, -, nanos, -, h⟩ := h
  split_ifs at h with hepoch
  simp only [Option.bind_eq_some_iff] at h
  obtain ⟨logKeys, hlogKeys, h⟩ := h
  refine ⟨resolved.foldl (fun keys key => keys.insert key.keyId key) [], block.keys, logKeys, ?_⟩
  cases hwitnesses : payload.get "witnesses" with
  | none =>
    rw [hwitnesses] at h
    exact ⟨[], cadence, nanos, hlogKeys, hepoch, (Option.some.inj h).symm⟩
  | some value =>
    rw [hwitnesses] at h
    obtain ⟨witnessKeys, -, h⟩ := Option.bind_eq_some_iff.1 h
    exact ⟨witnessKeys, cadence, nanos, hlogKeys, hepoch, (Option.some.inj h).symm⟩

theorem parseGovernance_fields {payload : Value} {index genesis : Nat} {entryId logId : String} {epoch : Option Nat}
    {state : GovernanceState K} (h : parseGovernance crates payload index entryId logId genesis epoch = some state) :
    state.governingManifestEntryIndex = index ∧ state.governingManifestEntryId = entryId ∧
      state.genesisEntryIndex = genesis ∧ ∀ nanos, epoch = some nanos → state.cadenceEpochNanos = nanos := by
  obtain ⟨producerKeys, specs, logKeys, witnessKeys, cadence, nanos, -, hepoch, rfl⟩ := parseGovernance_some h
  refine ⟨rfl, rfl, rfl, ?_⟩
  rintro required rfl
  by_contra hne
  exact hepoch ⟨by simp, fun heq => hne (Option.some.inj heq).symm⟩

theorem InstallsGenesis.fields {index : Nat} {bytes : Bytes} {state : GovernanceState K}
    (h : InstallsGenesis crates config index bytes state) :
    state.governingManifestEntryIndex = index ∧ state.genesisEntryIndex = index := by
  obtain ⟨envelope, payload, -, -, -, -, -, hparse⟩ := h
  obtain ⟨hindex, -, hgenesis, -⟩ := parseGovernance_fields hparse
  exact ⟨hindex, hgenesis⟩

theorem InstallsSuccessor.fields {current next : GovernanceState K} {index : Nat} {bytes : Bytes}
    (h : InstallsSuccessor crates config current index bytes next) :
    next.governingManifestEntryIndex = index ∧ next.genesisEntryIndex = current.genesisEntryIndex ∧
      next.cadenceEpochNanos = current.cadenceEpochNanos := by
  obtain ⟨envelope, payload, -, -, -, hparse⟩ := h
  obtain ⟨hindex, -, hgenesis, hepoch⟩ := parseGovernance_fields hparse
  exact ⟨hindex, hgenesis, hepoch _ rfl⟩

/-! ### The two apply functions -/

theorem installsGenesis_iff (config : Config K) (index : Nat) {bytes : Bytes} {envelope payload : Value}
    (hread : readStatement crates bytes = some (envelope, payload, "manifest")) (state : GovernanceState K) :
    InstallsGenesis crates config index bytes state ↔
      crates.entryId envelope = config.genesisManifestEntryId ∧
      crates.verifyEnvelope envelope (resolverFromSlice config.genesisProducerKeys index) = .ok true ∧
      (payload.get "ahl_version").bind Value.asStr = some crates.ahlVersion ∧ payload.get "predecessor" = none ∧
      parseGovernance crates payload index (crates.entryId envelope) config.logId index none = some state := by
  simp only [InstallsGenesis, hread, Option.some.injEq, Prod.mk.injEq, and_true]
  exact ⟨fun ⟨_, _, ⟨rfl, rfl⟩, hrest⟩ => hrest, fun hrest => ⟨_, _, ⟨rfl, rfl⟩, hrest⟩⟩

theorem installsSuccessor_iff (config : Config K) (current : GovernanceState K) (index : Nat) {bytes : Bytes}
    {envelope payload : Value} (hread : readStatement crates bytes = some (envelope, payload, "manifest"))
    (next : GovernanceState K) :
    InstallsSuccessor crates config current index bytes next ↔
      crates.verifyEnvelope envelope (resolverFromMap current.producerKeys index) = .ok true ∧
      (payload.get "predecessor").bind Value.asStr = some current.governingManifestEntryId ∧
      parseGovernance crates payload index (crates.entryId envelope) config.logId current.genesisEntryIndex
        (some current.cadenceEpochNanos) = some next := by
  simp only [InstallsSuccessor, hread, Option.some.injEq, Prod.mk.injEq, and_true]
  exact ⟨fun ⟨_, _, ⟨rfl, rfl⟩, hrest⟩ => hrest, fun hrest => ⟨_, _, ⟨rfl, rfl⟩, hrest⟩⟩

omit [HashOctets H] in
theorem checkStatementVersion_eq_ok {payload : Value} {index : Nat} :
    checkStatementVersion crates payload index = .ok () ↔
      (payload.get "ahl_version").bind Value.asStr = some crates.ahlVersion := by
  unfold checkStatementVersion
  dsimp only
  split_ifs with h <;> simp [h]

theorem tryApplyManifest_none {bytes : Bytes} {envelope payload : Value} {index : Nat}
    {after : Option (GovernanceState K)}
    (hread : readStatement crates bytes = some (envelope, payload, "manifest"))
    (h : tryApplyManifest crates config none envelope payload index = .ok after) :
    (∃ state, InstallsGenesis crates config index bytes state ∧ after = some state) ∨
      (∀ state, ¬ InstallsGenesis crates config index bytes state) ∧ after = none := by
  have hinstalls := installsGenesis_iff config index hread
  unfold tryApplyManifest at h
  dsimp only at h
  by_cases hid : crates.entryId envelope = config.genesisManifestEntryId
  · rw [if_neg (not_not.2 hid)] at h
    obtain ⟨verified, hverified, h⟩ := bind_eq_ok.1 h
    rw [mapErr_eq_ok] at hverified
    cases verified with
    | false =>
      refine Or.inr ⟨fun state hstate => ?_, (Except.ok.inj h).symm⟩
      have htrue := ((hinstalls state).1 hstate).2.1
      rw [hverified] at htrue
      cases htrue
    | true =>
      obtain ⟨_, hversion, h⟩ := bind_eq_ok.1 h
      rw [checkStatementVersion_eq_ok] at hversion
      cases hpredecessor : payload.get "predecessor" with
      | some predecessor =>
        rw [hpredecessor] at h
        refine Or.inr ⟨fun state hstate => ?_, (Except.ok.inj h).symm⟩
        have hnone := ((hinstalls state).1 hstate).2.2.2.1
        rw [hpredecessor] at hnone
        cases hnone
      | none =>
        rw [hpredecessor] at h
        obtain rfl := Except.ok.inj h
        cases hparse : parseGovernance crates payload index (crates.entryId envelope) config.logId index none with
        | none =>
          refine Or.inr ⟨fun state hstate => ?_, rfl⟩
          have hsome := ((hinstalls state).1 hstate).2.2.2.2
          rw [hparse] at hsome
          cases hsome
        | some state => exact Or.inl ⟨state, (hinstalls state).2 ⟨hid, hverified, hversion, hpredecessor, hparse⟩, rfl⟩
  · rw [if_pos hid] at h
    exact Or.inr ⟨fun state hstate => hid ((hinstalls state).1 hstate).1, (Except.ok.inj h).symm⟩

theorem tryApplyManifest_some {bytes : Bytes} {envelope payload : Value} {index : Nat} {current : GovernanceState K}
    {after : Option (GovernanceState K)} (hread : readStatement crates bytes = some (envelope, payload, "manifest"))
    (h : tryApplyManifest crates config (some current) envelope payload index = .ok after) :
    (∃ next, InstallsSuccessor crates config current index bytes next ∧ after = some next) ∨
      (∀ next, ¬ InstallsSuccessor crates config current index bytes next) ∧ after = some current := by
  have hinstalls := installsSuccessor_iff config current index hread
  unfold tryApplyManifest at h
  dsimp only at h
  obtain ⟨verified, hverified, h⟩ := bind_eq_ok.1 h
  rw [mapErr_eq_ok] at hverified
  cases verified with
  | false =>
    refine Or.inr ⟨fun next hnext => ?_, (Except.ok.inj h).symm⟩
    have htrue := ((hinstalls next).1 hnext).1
    rw [hverified] at htrue
    cases htrue
  | true =>
    obtain ⟨_, -, h⟩ := bind_eq_ok.1 h
    cases hpredecessor : (payload.get "predecessor").bind Value.asStr with
    | none =>
      rw [hpredecessor] at h
      refine Or.inr ⟨fun next hnext => ?_, (Except.ok.inj h).symm⟩
      have hsome := ((hinstalls next).1 hnext).2.1
      rw [hpredecessor] at hsome
      cases hsome
    | some predecessor =>
      rw [hpredecessor] at h
      dsimp only at h
      split_ifs at h with hother
      · refine Or.inr ⟨fun next hnext => ?_, (Except.ok.inj h).symm⟩
        have hsome := ((hinstalls next).1 hnext).2.1
        rw [hpredecessor] at hsome
        exact hother (Option.some.inj hsome)
      · rw [not_not] at hother
        subst hother
        cases hparse : parseGovernance crates payload index (crates.entryId envelope) config.logId
            current.genesisEntryIndex (some current.cadenceEpochNanos) with
        | none =>
          rw [hparse] at h
          refine Or.inr ⟨fun next hnext => ?_, (Except.ok.inj h).symm⟩
          have hsome := ((hinstalls next).1 hnext).2.2
          rw [hparse] at hsome
          cases hsome
        | some next =>
          rw [hparse] at h
          exact Or.inl ⟨next, (hinstalls next).2 ⟨hverified, hpredecessor, hparse⟩, (Except.ok.inj h).symm⟩

theorem tryApplyKey_eq_ok {bytes : Bytes} {envelope payload : Value} {index : Nat} {current next : GovernanceState K}
    (hread : readStatement crates bytes = some (envelope, payload, "key"))
    (h : tryApplyKey crates current envelope payload index = .ok next) :
    next = { current with producerKeys := keysAfterEntry crates current.producerKeys index bytes } := by
  unfold tryApplyKey at h
  obtain ⟨verified, hverified, h⟩ := bind_eq_ok.1 h
  rw [mapErr_eq_ok] at hverified
  rw [keysAfterEntry, hread]
  simp only [if_true, hverified]
  cases verified with
  | false => exact (Except.ok.inj h).symm
  | true =>
    obtain ⟨_, -, h⟩ := bind_eq_ok.1 h
    exact (Except.ok.inj h).symm

/-! ### One turn, and the whole walk -/

theorem not_installs {bytes : Bytes}
    (h : ∀ envelope payload, readStatement crates bytes ≠ some (envelope, payload, "manifest")) (config : Config K)
    (index : Nat) :
    (∀ state, ¬ InstallsGenesis crates config index bytes state) ∧
      ∀ current next, ¬ InstallsSuccessor crates config current index bytes next := by
  constructor
  · rintro state ⟨envelope, payload, hread, -⟩
    exact h envelope payload hread
  · rintro current next ⟨envelope, payload, hread, -⟩
    exact h envelope payload hread

/-- The snapshots once a version is installed, where they are collected. -/
def WalkState.install (w : WalkState K) (state : GovernanceState K) : WalkState K :=
  ⟨some state, w.snapshots.map fun list => list ++ [state]⟩

theorem walkEntry_none {w after : WalkState K} (hw : w.state = none) {index : Nat} {bytes : Bytes}
    (h : walkEntry crates config w index bytes = .ok after) :
    (∃ state, InstallsGenesis crates config index bytes state ∧ after = w.install state) ∨
      (∀ state, ¬ InstallsGenesis crates config index bytes state) ∧ after = w := by
  obtain ⟨state, snapshots⟩ := w
  obtain rfl : state = none := hw
  unfold walkEntry at h
  cases hread : readStatement crates bytes with
  | none =>
    rw [hread] at h
    exact Or.inr ⟨(not_installs (by simp [hread]) config index).1, (Except.ok.inj h).symm⟩
  | some statement =>
    obtain ⟨envelope, payload, kind⟩ := statement
    rw [hread] at h
    dsimp only at h
    by_cases hmanifest : kind = "manifest"
    · subst hmanifest
      rw [if_pos rfl] at h
      obtain ⟨next, happly, h⟩ := bind_eq_ok.1 h
      rcases tryApplyManifest_none hread happly with ⟨state, hstate, rfl⟩ | ⟨hnone, rfl⟩
      · refine Or.inl ⟨state, hstate, ?_⟩
        cases snapshots <;> exact (Except.ok.inj h).symm
      · exact Or.inr ⟨hnone, (Except.ok.inj h).symm⟩
    · rw [if_neg hmanifest] at h
      have hnone : ∀ state, ¬ InstallsGenesis crates config index bytes state :=
        (not_installs (by simp [hread, hmanifest]) config index).1
      split_ifs at h <;> exact Or.inr ⟨hnone, (Except.ok.inj h).symm⟩

/-- The running state after an entry that installs nothing. -/
def keepVersion (crates : Crates H K) (current : GovernanceState K) (index : Nat) (bytes : Bytes) : GovernanceState K :=
  { current with producerKeys := keysAfterEntry crates current.producerKeys index bytes }

theorem keepVersion_of_not_key {current : GovernanceState K} {index : Nat} {bytes : Bytes}
    (h : ∀ envelope payload, readStatement crates bytes ≠ some (envelope, payload, "key")) :
    keepVersion crates current index bytes = current := by
  unfold keepVersion keysAfterEntry
  cases hread : readStatement crates bytes with
  | none => rfl
  | some statement =>
    obtain ⟨envelope, payload, kind⟩ := statement
    dsimp only
    rw [if_neg]
    rintro rfl
    exact h envelope payload hread

theorem walkEntry_some {w after : WalkState K} {current : GovernanceState K} (hw : w.state = some current) {index : Nat}
    (hindex : current.governingManifestEntryIndex < index) {bytes : Bytes}
    (h : walkEntry crates config w index bytes = .ok after) :
    (∃ next, InstallsSuccessor crates config current index bytes next ∧ after = w.install next) ∨
      (∀ next, ¬ InstallsSuccessor crates config current index bytes next) ∧
        after = ⟨some (keepVersion crates current index bytes), w.snapshots⟩ := by
  obtain ⟨state, snapshots⟩ := w
  obtain rfl : state = some current := hw
  unfold walkEntry at h
  cases hread : readStatement crates bytes with
  | none =>
    rw [hread] at h
    rw [keepVersion_of_not_key (by simp [hread])]
    exact Or.inr ⟨(not_installs (by simp [hread]) config index).2 current, (Except.ok.inj h).symm⟩
  | some statement =>
    obtain ⟨envelope, payload, kind⟩ := statement
    rw [hread] at h
    dsimp only at h
    by_cases hmanifest : kind = "manifest"
    · subst hmanifest
      rw [if_pos rfl] at h
      obtain ⟨next, happly, h⟩ := bind_eq_ok.1 h
      rcases tryApplyManifest_some hread happly with ⟨state, hstate, rfl⟩ | ⟨hnone, rfl⟩
      · -- an installed version stands at the entry's index, so the governing index moves
        refine Or.inl ⟨state, hstate, ?_⟩
        have hmoved : current.governingManifestEntryIndex ≠ state.governingManifestEntryIndex := by
          rw [hstate.fields.1]
          exact hindex.ne
        rw [if_pos (by simpa using hmoved)] at h
        cases snapshots <;> exact (Except.ok.inj h).symm
      · rw [if_neg (by simp)] at h
        rw [keepVersion_of_not_key (by simp [hread])]
        exact Or.inr ⟨hnone, (Except.ok.inj h).symm⟩
    · rw [if_neg hmanifest] at h
      have hnone : ∀ next, ¬ InstallsSuccessor crates config current index bytes next :=
        (not_installs (by simp [hread, hmanifest]) config index).2 current
      by_cases hkey : kind = "key"
      · subst hkey
        rw [if_pos rfl] at h
        obtain ⟨next, happly, h⟩ := bind_eq_ok.1 h
        obtain rfl := tryApplyKey_eq_ok hread happly
        exact Or.inr ⟨hnone, (Except.ok.inj h).symm⟩
      · rw [if_neg hkey] at h
        rw [keepVersion_of_not_key (by simp [hread, hkey])]
        exact Or.inr ⟨hnone, (Except.ok.inj h).symm⟩

theorem walkFrom_append (p q : List Bytes) : ∀ (index : Nat) (w : WalkState K),
    walkFrom crates config index w (p ++ q) =
      walkFrom crates config index w p >>= fun middle => walkFrom crates config (index + p.length) middle q := by
  induction p with
  | nil =>
    intro index w
    rfl
  | cons bytes p ih =>
    intro index w
    rw [List.cons_append, walkFrom, walkFrom, List.length_cons, bind_assoc]
    apply bind_congr
    intro next
    rw [ih (index + 1) next, Nat.add_assoc, Nat.add_comm 1]

theorem walk_append (p q : List Bytes) (snapshots : Option (List (GovernanceState K))) :
    walk crates config (p ++ q) snapshots =
      walk crates config p snapshots >>= fun middle => walkFrom crates config p.length middle q := by
  unfold walk
  rw [walkFrom_append, Nat.zero_add]

theorem walk_concat (p : List Bytes) (bytes : Bytes) (snapshots : Option (List (GovernanceState K))) :
    walk crates config (p ++ [bytes]) snapshots =
      walk crates config p snapshots >>= fun middle => walkEntry crates config middle p.length bytes := by
  rw [walk_append]
  apply bind_congr
  intro middle
  rw [walkFrom]
  cases walkEntry crates config middle p.length bytes <;> rfl

/-! ### Why a walk ends -/

variable (crates) in
/-- A statement ends the walk where its verification answers an error, or where it is authentic and declares another
version. -/
inductive StatementFailure (envelope payload : Value) (index : Nat) : MirrorError → Prop
  | verification {resolver : String → Option String} {e : AhlError} :
    crates.verifyEnvelope envelope resolver = .error e → StatementFailure envelope payload index (.ahl e)
  | version {resolver : String → Option String} : crates.verifyEnvelope envelope resolver = .ok true →
    (payload.get "ahl_version").bind Value.asStr ≠ some crates.ahlVersion →
      StatementFailure envelope payload index
        (.unsupportedStatementVersion index ((payload.get "ahl_version").bind Value.asStr) crates.ahlVersion)

variable (crates) in
/-- One of the entries ends the walk. -/
def WalkFailure (entries : List Bytes) (e : MirrorError) : Prop :=
  ∃ index bytes envelope payload kind, entries[index]? = some bytes ∧
    readStatement crates bytes = some (envelope, payload, kind) ∧ StatementFailure crates envelope payload index e

omit [HashOctets H] in
theorem verified_failure {α : Type} {envelope payload : Value} {index : Nat} {resolver : String → Option String}
    {unchanged : α} {rest : MirrorResult α} (hrest : ∀ e, rest ≠ .error e) {e : MirrorError}
    (h : (do
      let verified ← mapErr .ahl (crates.verifyEnvelope envelope resolver)
      if verified = false then .ok unchanged
      else do
        checkStatementVersion crates payload index
        rest) = .error e) : StatementFailure crates envelope payload index e := by
  cases hverify : crates.verifyEnvelope envelope resolver with
  | error failure =>
    rw [hverify] at h
    obtain rfl := Except.error.inj h
    exact .verification hverify
  | ok verified =>
    rw [hverify] at h
    simp only [mapErr, ok_bind] at h
    cases verified with
    | false => cases h
    | true =>
      rw [if_neg (by simp)] at h
      rcases bind_eq_error.1 h with hrefused | ⟨_, -, h⟩
      · unfold checkStatementVersion at hrefused
        dsimp only at hrefused
        split_ifs at hrefused with hversion
        obtain rfl := Except.error.inj hrefused
        exact .version hverify hversion
      · exact absurd h (hrest e)

theorem tryApplyManifest_failure {state : Option (GovernanceState K)} {envelope payload : Value} {index : Nat}
    {e : MirrorError} (h : tryApplyManifest crates config state envelope payload index = .error e) :
    StatementFailure crates envelope payload index e := by
  unfold tryApplyManifest at h
  cases state with
  | none =>
    dsimp only at h
    by_cases hid : crates.entryId envelope = config.genesisManifestEntryId
    · rw [if_neg (not_not.2 hid)] at h
      refine verified_failure ?_ h
      intro e
      split_ifs <;> simp
    · rw [if_pos hid] at h
      cases h
  | some current =>
    refine verified_failure ?_ h
    intro e
    split
    · simp
    · split_ifs
      · simp
      · split <;> simp

theorem tryApplyKey_failure {current : GovernanceState K} {envelope payload : Value} {index : Nat} {e : MirrorError}
    (h : tryApplyKey crates current envelope payload index = .error e) :
    StatementFailure crates envelope payload index e :=
  verified_failure (by simp) h

theorem walkEntry_failure {w : WalkState K} {index : Nat} {bytes : Bytes} {e : MirrorError}
    (h : walkEntry crates config w index bytes = .error e) : ∃ envelope payload kind,
      readStatement crates bytes = some (envelope, payload, kind) ∧ StatementFailure crates envelope payload index e := by
  unfold walkEntry at h
  split at h
  · cases h
  · rename_i envelope payload kind hread
    refine ⟨envelope, payload, kind, hread, ?_⟩
    split_ifs at h
    · rcases bind_eq_error.1 h with hfailed | ⟨after, -, h⟩
      · exact tryApplyManifest_failure hfailed
      · split_ifs at h
        split at h <;> cases h
    · split at h
      · cases h
      · rcases bind_eq_error.1 h with hfailed | ⟨next, -, h⟩
        · exact tryApplyKey_failure hfailed
        · cases h

theorem walk_failure {collected : Option (List (GovernanceState K))} {entries : List Bytes} {e : MirrorError}
    (h : walk crates config entries collected = .error e) : WalkFailure crates entries e := by
  induction entries using List.reverseRecOn with
  | nil => cases h
  | append_singleton entries bytes ih =>
    rw [walk_concat] at h
    rcases bind_eq_error.1 h with hearlier | ⟨w, -, h⟩
    · obtain ⟨index, found, envelope, payload, kind, hat, hfailed⟩ := ih hearlier
      have hlt := (List.getElem?_eq_some_iff.1 hat).1
      exact ⟨index, found, envelope, payload, kind, (List.getElem?_append_left hlt).trans hat, hfailed⟩
    · obtain ⟨envelope, payload, kind, hfailed⟩ := walkEntry_failure h
      exact ⟨entries.length, bytes, envelope, payload, kind, List.getElem?_concat_length, hfailed⟩

omit [HashOctets H] in
theorem WalkFailure.ne_unresolvable {entries : List Bytes} {n : Nat} :
    ¬ WalkFailure crates entries (.governanceChainUnresolvable n) := by
  rintro ⟨index, bytes, envelope, payload, kind, -, -, ⟨⟩⟩

theorem resolve_failure {entries : List Bytes} {e : MirrorError} (h : resolve crates config entries = .error e) :
    e = .governanceChainUnresolvable entries.length ∨ WalkFailure crates entries e := by
  rcases bind_eq_error.1 h with hwalk | ⟨w, -, h⟩
  · exact Or.inr (walk_failure hwalk)
  · cases hstate : w.state with
    | none =>
      rw [hstate] at h
      exact Or.inl (Except.error.inj h).symm
    | some state =>
      rw [hstate] at h
      cases h

end AhlMirror
