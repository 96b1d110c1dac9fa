import AhlMirror.Governance.Chain

/-!
# Key sets and what they resolve

`rotates` compares the key objects a version lists as sets; `resolve_log_key` takes the first object
listed under an id and tests its activation bound. The two part company where an id is listed under two
bounds: versions that declare one set then resolve alike exactly if they list the same bound first
(`sameVerdict_iff`).
-/

namespace AhlMirror

variable {H K : Type} [HashOctets H] {crates : Crates H K}

/-! ### Key objects -/

variable (crates) in
/-- What `resolve` has checked of a key object: the key is decoded and its id recomputed. -/
structure ResolvedKeyObject.SelfChecked (key : ResolvedKeyObject K) : Prop where
  decoded : crates.decodePubkey key.pubkey = .ok key.verifyingKey
  recomputed : key.keyId = "sha256:" ++ hexEncode (asSlice (crates.computeKeyId (crates.keyBytes key.verifyingKey)))

theorem ResolvedKeyObject.resolve_selfChecked {spec : KeyObjectSpec} {key : ResolvedKeyObject K}
    (h : ResolvedKeyObject.resolve crates spec = .ok key) : key.SelfChecked crates := by
  obtain ⟨verifyingKey, hdecode, h⟩ := bind_eq_ok.1 h
  dsimp only at h
  split_ifs at h with hid
  obtain rfl := Except.ok.inj h
  refine ⟨?_, (not_not.1 hid).symm⟩
  cases hpubkey : crates.decodePubkey spec.pubkey with
  | error e => simp [hpubkey, mapErr] at hdecode
  | ok value =>
    rw [hpubkey] at hdecode
    exact congrArg Except.ok (Except.ok.inj hdecode)

theorem ResolvedKeyObject.SelfChecked.verifyingKey_eq {key key' : ResolvedKeyObject K} (h : key.SelfChecked crates)
    (h' : key'.SelfChecked crates) (hlaws : KeyIdLaws crates) (hid : key.keyId = key'.keyId) :
    key.verifyingKey = key'.verifyingKey := by
  rw [h.recomputed, h'.recomputed] at hid
  have hoctets := congrArg (tryFrom (H := H)) (hexEncode_injective ((String.append_right_inj _).1 hid))
  rw [tryFrom_asSlice, tryFrom_asSlice] at hoctets
  exact hlaws.computeKeyId _ _ (Option.some.inj hoctets)

theorem mem_of_mapM_some {α β : Type} {f : α → Option β} {b : β} : ∀ {l : List α} {values : List β},
    l.mapM f = some values → b ∈ values → ∃ a ∈ l, f a = some b
  | [], values, h, hb => by
    obtain rfl := Option.some.inj h
    simp at hb
  | a :: l, values, h, hb => by
    rw [List.mapM_cons] at h
    obtain ⟨first, hfirst, h⟩ := Option.bind_eq_some_iff.1 h
    obtain ⟨rest, hrest, h⟩ := Option.bind_eq_some_iff.1 h
    obtain rfl := Option.some.inj h
    rcases List.mem_cons.1 hb with rfl | hb
    · exact ⟨a, List.mem_cons_self, hfirst⟩
    · obtain ⟨item, hitem, hvalue⟩ := mem_of_mapM_some hrest hb
      exact ⟨item, List.mem_cons_of_mem _ hitem, hvalue⟩

variable (crates) in
/-- A governance state as some manifest declares it. -/
def Parsed (state : GovernanceState K) : Prop :=
  ∃ payload index entryId logId genesis epoch,
    parseGovernance crates payload index entryId logId genesis epoch = some state

theorem Parsed.selfChecked {state : GovernanceState K} (h : Parsed crates state) :
    ∀ key ∈ state.logKeys, key.SelfChecked crates := by
  obtain ⟨payload, index, entryId, logId, genesis, epoch, h⟩ := h
  obtain ⟨producerKeys, specs, logKeys, witnessKeys, cadence, nanos, hkeys, -, rfl⟩ := parseGovernance_some h
  intro key hkey
  obtain ⟨spec, -, hspec⟩ := mem_of_mapM_some hkeys hkey
  cases hresolve : ResolvedKeyObject.resolve crates spec with
  | error e => simp [hresolve, Except.toOption] at hspec
  | ok resolved =>
    rw [hresolve] at hspec
    obtain rfl := Option.some.inj hspec
    exact ResolvedKeyObject.resolve_selfChecked hresolve

theorem versions_parsed {config : Config K} {entries : List Bytes} {list : List (GovernanceState K)}
    (hlist : versions crates config entries = .ok list) : ∀ version ∈ list, Parsed crates version := by
  intro version hversion
  rcases (versions_chain hlist).2.admitted version hversion with hgenesis | ⟨_, -, hsuccessor⟩
  · obtain ⟨_, -, _, payload, -, -, -, -, -, hparse⟩ := hgenesis.admitted
    exact ⟨payload, _, _, _, _, _, hparse⟩
  · obtain ⟨_, -, _, payload, -, -, -, hparse⟩ := hsuccessor.admitted
    exact ⟨payload, _, _, _, _, _, hparse⟩

/-! ### Resolution -/

namespace GovernanceState

/-- The bound of the first object listed under an id. -/
def boundUnder (state : GovernanceState K) (keyId : String) : Option Nat :=
  (state.logKeys.find? fun key => key.keyId == keyId).map (·.validFromIndex)

omit [HashOctets H] in
theorem resolveLogKey_eq_ok {state : GovernanceState K} {keyId : String} {treeSize : Nat} {verifyingKey : K} :
    state.resolveLogKey keyId treeSize = .ok verifyingKey ↔
      ∃ key, state.logKeys.find? (fun key => key.keyId == keyId) = some key ∧ key.validFromIndex ≤ treeSize ∧
        key.verifyingKey = verifyingKey := by
  unfold resolveLogKey
  cases hfind : state.logKeys.find? fun key => key.keyId == keyId with
  | none => simp
  | some key =>
    dsimp only
    split_ifs with hbound
    · simp only [Option.some.injEq, exists_eq_left', false_iff, not_and]
      omega
    · simp only [Except.ok.injEq, Option.some.injEq, exists_eq_left']
      exact ⟨fun h => ⟨by omega, h⟩, fun h => h.2⟩

omit [HashOctets H] in
theorem resolveLogKey_isOk_iff {state : GovernanceState K} {keyId : String} {treeSize : Nat} :
    (∃ verifyingKey, state.resolveLogKey keyId treeSize = .ok verifyingKey) ↔
      ∃ bound ∈ state.boundUnder keyId, bound ≤ treeSize := by
  simp only [resolveLogKey_eq_ok, boundUnder, Option.mem_def, Option.map_eq_some_iff]
  constructor
  · rintro ⟨verifyingKey, key, hfind, hle, -⟩
    exact ⟨_, ⟨key, hfind, rfl⟩, hle⟩
  · rintro ⟨_, ⟨key, hfind, rfl⟩, hle⟩
    exact ⟨_, key, hfind, hle, rfl⟩

omit [HashOctets H] in
theorem resolves_alike_iff {a b : GovernanceState K} {keyId : String} :
    (∀ treeSize, (∃ verifyingKey, a.resolveLogKey keyId treeSize = .ok verifyingKey) ↔
      ∃ verifyingKey, b.resolveLogKey keyId treeSize = .ok verifyingKey) ↔
      a.boundUnder keyId = b.boundUnder keyId := by
  simp only [resolveLogKey_isOk_iff]
  constructor
  · intro h
    cases ha : a.boundUnder keyId with
    | none =>
      cases hb : b.boundUnder keyId with
      | none => rfl
      | some bound => simpa [ha, hb] using h bound
    | some bound =>
      cases hb : b.boundUnder keyId with
      | none => simpa [ha, hb] using h bound
      | some bound' =>
        -- each bound is reached at the other
        have hle : bound' ≤ bound := by simpa [ha, hb] using h bound
        have hge : bound ≤ bound' := by simpa [ha, hb] using h bound'
        rw [Nat.le_antisymm hge hle]
  · rintro h treeSize
    rw [h]

end GovernanceState

/-! ### One declared set, one verdict -/

section verdict
variable (crates) in
/-- Under every id and at every size the two resolve or fail together, and what they resolve accepts the
same checkpoints. -/
structure SameVerdict (a b : GovernanceState K) : Prop where
  resolves : ∀ keyId treeSize, (∃ key, a.resolveLogKey keyId treeSize = .ok key) ↔
    ∃ key, b.resolveLogKey keyId treeSize = .ok key
  accepts : ∀ keyId treeSize key key', a.resolveLogKey keyId treeSize = .ok key →
    b.resolveLogKey keyId treeSize = .ok key' → ∀ cp raw logId,
      verifyCheckpointSignature crates cp raw logId key = .ok () ↔
        verifyCheckpointSignature crates cp raw logId key' = .ok ()

theorem resolveLogKey_unique (hlaws : KeyIdLaws crates) {a b : GovernanceState K} (ha : Parsed crates a)
    (hb : Parsed crates b) {keyId : String} {treeSize treeSize' : Nat} {key key' : K}
    (hkey : a.resolveLogKey keyId treeSize = .ok key) (hkey' : b.resolveLogKey keyId treeSize' = .ok key') :
    key = key' := by
  obtain ⟨object, hfind, -, rfl⟩ := GovernanceState.resolveLogKey_eq_ok.1 hkey
  obtain ⟨object', hfind', -, rfl⟩ := GovernanceState.resolveLogKey_eq_ok.1 hkey'
  refine (ha.selfChecked object (List.mem_of_find?_eq_some hfind)).verifyingKey_eq
    (hb.selfChecked object' (List.mem_of_find?_eq_some hfind')) hlaws ?_
  have hid := List.find?_some hfind
  have hid' := List.find?_some hfind'
  rw [beq_iff_eq] at hid hid'
  rw [hid, hid']

omit [HashOctets H] in
theorem listed_of_not_rotates {a b : GovernanceState K} (h : b.rotates a = false) {key : ResolvedKeyObject K}
    (hkey : key ∈ a.logKeys) : ∃ key' ∈ b.logKeys, key'.keyId = key.keyId ∧ key'.validFromIndex = key.validFromIndex := by
  have hsets : b.logKeySet = a.logKeySet := by
    by_contra hne
    simp [GovernanceState.rotates, hne] at h
  have hmem : (key.keyId, key.pubkey, key.validFromIndex) ∈ b.logKeySet := by
    rw [hsets]
    exact List.mem_toFinset.2 (List.mem_map_of_mem hkey)
  obtain ⟨key', hkey', heq⟩ := List.mem_map.1 (List.mem_toFinset.1 hmem)
  simp only [Prod.mk.injEq] at heq
  exact ⟨key', hkey', heq.1, heq.2.2⟩

omit [HashOctets H] in
theorem rotates_comm (a b : GovernanceState K) : a.rotates b = b.rotates a := by
  simp only [GovernanceState.rotates, ne_comm]

omit [HashOctets H] in
theorem boundUnder_eq_of_not_rotates {a b : GovernanceState K} (h : b.rotates a = false)
    (hone : ∀ key ∈ a.logKeys, ∀ key' ∈ a.logKeys, key.keyId = key'.keyId → key.validFromIndex = key'.validFromIndex)
    (keyId : String) : a.boundUnder keyId = b.boundUnder keyId := by
  unfold GovernanceState.boundUnder
  cases hfind : a.logKeys.find? fun key => key.keyId == keyId with
  | none =>
    have hnone : b.logKeys.find? (fun key => key.keyId == keyId) = none := by
      refine List.find?_eq_none.2 fun key hkey hid => ?_
      obtain ⟨key', hkey', hsame, -⟩ := listed_of_not_rotates (rotates_comm b a ▸ h) hkey
      exact List.find?_eq_none.1 hfind key' hkey' (by simpa [hsame] using hid)
    rw [hnone]
  | some key =>
    have hid : key.keyId = keyId := by simpa using List.find?_some hfind
    obtain ⟨listed, hlisted, hlistedId, -⟩ := listed_of_not_rotates h (List.mem_of_find?_eq_some hfind)
    cases hfind' : b.logKeys.find? fun key => key.keyId == keyId with
    | none => exact absurd (by simp [hlistedId, hid]) (List.find?_eq_none.1 hfind' listed hlisted)
    | some key' =>
      -- the first of `b` is listed by `a` too, under the bound `a` gives this id throughout
      have hid' : key'.keyId = keyId := by simpa using List.find?_some hfind'
      obtain ⟨key'', hkey'', hsame, hbound⟩ :=
        listed_of_not_rotates (rotates_comm b a ▸ h) (List.mem_of_find?_eq_some hfind')
      have heq := hone key (List.mem_of_find?_eq_some hfind) key'' hkey'' (by rw [hid, hsame, hid'])
      rw [Option.map_some, Option.map_some, heq, hbound]

/-- **Versions of one declared key set verify the same checkpoints exactly if they list the same bound
first under every id.** -/
theorem sameVerdict_iff (hlaws : KeyIdLaws crates) {a b : GovernanceState K} (ha : Parsed crates a)
    (hb : Parsed crates b) (hset : b.rotates a = false) :
    (SameVerdict crates a b ↔ ∀ keyId, a.boundUnder keyId = b.boundUnder keyId) ∧
      ((∀ key ∈ a.logKeys, ∀ key' ∈ a.logKeys, key.keyId = key'.keyId → key.validFromIndex = key'.validFromIndex) →
        SameVerdict crates a b) := by
  have hexact : SameVerdict crates a b ↔ ∀ keyId, a.boundUnder keyId = b.boundUnder keyId := by
    constructor
    · exact fun h keyId => GovernanceState.resolves_alike_iff.1 (h.resolves keyId)
    · intro h
      refine ⟨fun keyId => GovernanceState.resolves_alike_iff.2 (h keyId), ?_⟩
      intro keyId treeSize key key' hkey hkey' cp raw logId
      rw [resolveLogKey_unique hlaws ha hb hkey hkey']
  exact ⟨hexact, fun hone => hexact.2 (boundUnder_eq_of_not_rotates hset hone)⟩

end verdict

/-- What `manifestListing` declares. -/
def Symbolic.listing (logKeys : List (String × Nat)) : GovernanceState String :=
  ⟨[(Symbolic.keyIdOf "P", ⟨Symbolic.keyIdOf "P", "P", "P", 0⟩)],
    logKeys.map fun (key, bound) => ⟨Symbolic.keyIdOf key, key, key, bound⟩, [], 1000000000, 0, 0, "", 0⟩

theorem sameVerdict_iff_reordered :
    SameVerdict (Symbolic.namedCrates []) (Symbolic.listing [("A", 0), ("B", 2)]) (Symbolic.listing [("B", 2), ("A", 0)]) :=
  (sameVerdict_iff (Symbolic.keyIdLaws [])
    ⟨Symbolic.manifestListing [] [("A", 0), ("B", 2)], 0, "", Symbolic.logId, 0, none, by decide +kernel⟩
    ⟨Symbolic.manifestListing [] [("B", 2), ("A", 0)], 0, "", Symbolic.logId, 0, none, by decide +kernel⟩
    (by decide)).2 (by decide)

/-- One key listed under two bounds: the version that lists the later bound first refuses size 3, the one
that lists the same two objects in the other order does not. -/
theorem relisted_key_refused : ¬ ∀ a b : GovernanceState String, Parsed (Symbolic.namedCrates []) a →
    Parsed (Symbolic.namedCrates []) b → b.rotates a = false → SameVerdict (Symbolic.namedCrates []) a b := by
  intro h
  have hverdict := h (Symbolic.listing [("A", 0), ("A", 9)]) (Symbolic.listing [("A", 9), ("A", 0)])
    ⟨Symbolic.manifestListing [] [("A", 0), ("A", 9)], 0, "", Symbolic.logId, 0, none, by decide +kernel⟩
    ⟨Symbolic.manifestListing [] [("A", 9), ("A", 0)], 0, "", Symbolic.logId, 0, none, by decide +kernel⟩ (by decide)
  have hresolves : (Symbolic.listing [("A", 0), ("A", 9)]).resolveLogKey (Symbolic.keyIdOf "A") 3 = .ok "A" := by decide
  obtain ⟨key, hkey⟩ := (hverdict.resolves (Symbolic.keyIdOf "A") 3).1 ⟨"A", hresolves⟩
  have hrefused : (Symbolic.listing [("A", 9), ("A", 0)]).resolveLogKey (Symbolic.keyIdOf "A") 3 =
      .error (.keyNotYetActive (Symbolic.keyIdOf "A") 9 3) := by decide
  rw [hrefused] at hkey
  cases hkey

end AhlMirror
