import AhlMirror.Governance.Chain

/-!
# Entries that are not authenticated

An entry that does not verify under the producer keys in force is ignored by the walk, so long as its
verification has an answer. Where `verify_envelope` fails instead of answering, `?` ends the walk: no
prefix that contains the entry resolves any more.
-/

namespace AhlMirror

variable {H K : Type} [HashOctets H]

section conditions
variable (crates : Crates H K) (config : Config K)

/-- The resolver of the producer keys in force: the configured ones before genesis, then the state's. -/
def resolverInForce (state : Option (GovernanceState K)) (index : Nat) : String → Option String :=
  match state with
  | none => resolverFromSlice config.genesisProducerKeys index
  | some current => resolverFromMap current.producerKeys index

/-- The entry is an envelope that verifies under the producer keys in force. -/
def Authenticated (state : Option (GovernanceState K)) (index : Nat) (bytes : Bytes) : Prop :=
  ∃ envelope, crates.fromSlice bytes = .ok envelope ∧
    crates.verifyEnvelope envelope (resolverInForce config state index) = .ok true

/-- The entry declares neither a manifest nor a key statement. -/
def NonGovernance (bytes : Bytes) : Prop :=
  ∀ envelope payload kind, readStatement crates bytes = some (envelope, payload, kind) →
    kind ≠ "manifest" ∧ kind ≠ "key"

/-- The verification the walk makes of an entry, where it makes one: of the manifest that carries the
configured id before genesis, of every manifest and key statement after. -/
def verificationOf (state : Option (GovernanceState K)) (index : Nat) (bytes : Bytes) : Option (Except AhlError Bool) :=
  match readStatement crates bytes with
  | none => none
  | some (envelope, _, kind) =>
    let verification := crates.verifyEnvelope envelope (resolverInForce config state index)
    match state with
    | none =>
      if kind = "manifest" ∧ crates.entryId envelope = config.genesisManifestEntryId then some verification else none
    | some _ => if kind = "manifest" ∨ kind = "key" then some verification else none

/-- Once the walk of `before` is done, the entry `x` is not authenticated. -/
def UnauthenticatedAt (before : List Bytes) (x : Bytes) : Prop :=
  ∀ w, walk crates config before none = .ok w → ¬ Authenticated crates config w.state before.length x

/-- Once the walk of `before` is done, the verification made of `x`, if any, answers. -/
def AnsweredAt (before : List Bytes) (x : Bytes) : Prop :=
  ∀ w, walk crates config before none = .ok w → ∀ e, verificationOf crates config w.state before.length x ≠ some (.error e)

/-- Two prefixes resolve to the same state and the same versions, or fail with the same error. -/
def SameViews (p q : List Bytes) : Prop :=
  resolve crates config p = resolve crates config q ∧ versions crates config p = versions crates config q

end conditions

instance (crates : Crates H K) (config : Config K) (state : Option (GovernanceState K)) (index : Nat) (bytes : Bytes) :
    Decidable (Authenticated crates config state index bytes) :=
  match hparse : crates.fromSlice bytes with
  | .error e => isFalse fun ⟨envelope, hok, _⟩ => by rw [hparse] at hok; cases hok
  | .ok envelope => decidable_of_iff (crates.verifyEnvelope envelope (resolverInForce config state index) = .ok true)
      ⟨fun h => ⟨envelope, hparse, h⟩, fun ⟨_, hok, h⟩ => Except.ok.inj (hparse.symm.trans hok) ▸ h⟩

instance (crates : Crates H K) (config : Config K) (before : List Bytes) (x : Bytes) :
    Decidable (UnauthenticatedAt crates config before x) :=
  inferInstanceAs (Decidable (∀ w, walk crates config before none = .ok w → _))

instance (verification : Option (Except AhlError Bool)) : Decidable (∀ e, verification ≠ some (.error e)) :=
  match verification with
  | some (.error e) => isFalse fun h => h e rfl
  | some (.ok _) => isTrue fun _ h => by cases h
  | none => isTrue fun _ h => by cases h

instance (crates : Crates H K) (config : Config K) (before : List Bytes) (x : Bytes) :
    Decidable (AnsweredAt crates config before x) :=
  inferInstanceAs (Decidable (∀ w, walk crates config before none = .ok w → _))

instance (crates : Crates H K) (bytes : Bytes) : Decidable (NonGovernance crates bytes) :=
  match hread : readStatement crates bytes with
  | none => isTrue fun _ _ _ hsome => by rw [hread] at hsome; cases hsome
  | some (envelope, payload, kind) => decidable_of_iff (kind ≠ "manifest" ∧ kind ≠ "key")
      ⟨fun h _ _ _ hsome => by
        rw [hread] at hsome
        cases hsome
        exact h, fun h => h envelope payload kind hread⟩

variable {crates : Crates H K} {config : Config K}

/-! ### One entry -/

theorem walkEntry_nonGovernance {bytes : Bytes} (h : NonGovernance crates bytes) (w : WalkState K) (index : Nat) :
    walkEntry crates config w index bytes = .ok w := by
  unfold walkEntry
  cases hread : readStatement crates bytes with
  | none => rfl
  | some statement =>
    obtain ⟨envelope, payload, kind⟩ := statement
    obtain ⟨hmanifest, hkey⟩ := h envelope payload kind hread
    dsimp only
    rw [if_neg hmanifest, if_neg hkey]

omit [HashOctets H] in
theorem readStatement_envelope {bytes : Bytes} {envelope payload : Value} {kind : String}
    (h : readStatement crates bytes = some (envelope, payload, kind)) : crates.fromSlice bytes = .ok envelope := by
  unfold readStatement at h
  cases hparse : crates.fromSlice bytes with
  | error e => simp [hparse, Except.toOption] at h
  | ok parsed =>
    simp only [hparse, Except.toOption, Option.bind_eq_bind, Option.bind_some, Option.bind_eq_some_iff] at h
    obtain ⟨_, -, _, -, h⟩ := h
    rw [(Prod.mk.inj (Option.some.inj h)).1]

theorem unverified_bind {α : Type} {verification : Except AhlError Bool} (h : verification ≠ .ok true) (unchanged : α)
    (applied : MirrorResult α) :
    (mapErr .ahl verification >>= fun verified => if verified = false then .ok unchanged else applied) =
      mapErr .ahl verification >>= fun _ => .ok unchanged := by
  cases verification with
  | error e => rfl
  | ok verified =>
    cases verified with
    | false => rfl
    | true => exact absurd rfl h

/-- An entry that is not authenticated changes nothing, or its failing verification ends the walk. -/
theorem walkEntry_unauthenticated {w : WalkState K} {index : Nat} {bytes : Bytes}
    (h : ¬ Authenticated crates config w.state index bytes) :
    walkEntry crates config w index bytes =
      match verificationOf crates config w.state index bytes with
      | some (.error e) => .error (.ahl e)
      | _ => .ok w := by
  obtain ⟨state, snapshots⟩ := w
  unfold walkEntry verificationOf
  cases hread : readStatement crates bytes with
  | none => rfl
  | some statement =>
    obtain ⟨envelope, payload, kind⟩ := statement
    have hanswer : crates.verifyEnvelope envelope (resolverInForce config state index) ≠ .ok true :=
      fun htrue => h ⟨envelope, readStatement_envelope hread, htrue⟩
    dsimp only
    by_cases hmanifest : kind = "manifest"
    · subst hmanifest
      rw [if_pos rfl]
      cases state with
      | none =>
        by_cases hid : crates.entryId envelope = config.genesisManifestEntryId
        · rw [if_pos ⟨rfl, hid⟩]
          unfold tryApplyManifest
          dsimp only
          rw [if_neg (not_not.2 hid)]
          erw [unverified_bind hanswer]
          cases crates.verifyEnvelope envelope (resolverInForce config none index) <;> rfl
        · rw [if_neg fun hboth => hid hboth.2]
          unfold tryApplyManifest
          dsimp only
          rw [if_pos hid]
          rfl
      | some current =>
        rw [if_pos (Or.inl rfl)]
        unfold tryApplyManifest
        dsimp only
        erw [unverified_bind hanswer]
        cases crates.verifyEnvelope envelope (resolverInForce config (some current) index) with
        | error e => rfl
        | ok verified => simp [mapErr]
    · rw [if_neg hmanifest]
      by_cases hkey : kind = "key"
      · subst hkey
        rw [if_pos rfl]
        cases state with
        | none => simp [hmanifest]
        | some current =>
          rw [if_pos (Or.inr rfl)]
          unfold tryApplyKey
          dsimp only
          erw [unverified_bind hanswer]
          cases crates.verifyEnvelope envelope (resolverInForce config (some current) index) <;> rfl
      · rw [if_neg hkey]
        cases state with
        | none => simp [hmanifest]
        | some current => simp [hmanifest, hkey]

/-! ### The rest of the walk -/

section replaced
variable {before : List Bytes} {x y : Bytes}

theorem walk_nonGovernance (hy : NonGovernance crates y) (after : List Bytes)
    (collected : Option (List (GovernanceState K))) : walk crates config (before ++ y :: after) collected =
      walk crates config before collected >>= fun w => walkFrom crates config (before.length + 1) w after := by
  rw [walk_append]
  apply bind_congr
  intro w
  rw [walkFrom, walkEntry_nonGovernance hy, ok_bind]

theorem walk_collected {w : WalkState K} (h : walk crates config before (some []) = .ok w) :
    walk crates config before none = .ok ⟨w.state, none⟩ := by
  rw [walk_collects, h]
  rfl

theorem walk_ignored (hx : UnauthenticatedAt crates config before x) (hanswered : AnsweredAt crates config before x)
    (hy : NonGovernance crates y) (after : List Bytes) :
    walk crates config (before ++ x :: after) (some []) = walk crates config (before ++ y :: after) (some []) := by
  rw [walk_nonGovernance hy, walk_append]
  cases hwalk : walk crates config before (some []) with
  | error e => rfl
  | ok w =>
    have hunchanged : walkEntry crates config w before.length x = .ok w := by
      have hunauthenticated := hx _ (walk_collected hwalk)
      have hentry : walkEntry crates config w before.length x = _ := walkEntry_unauthenticated hunauthenticated
      rw [hentry]
      split
      · rename_i e he
        exact absurd he (hanswered _ (walk_collected hwalk) e)
      · rfl
    rw [ok_bind, ok_bind, walkFrom, hunchanged, ok_bind]

theorem walk_aborted (hx : UnauthenticatedAt crates config before x) {w : WalkState K}
    (hw : walk crates config before none = .ok w) {e : AhlError}
    (he : verificationOf crates config w.state before.length x = some (.error e)) (after : List Bytes) :
    walk crates config (before ++ x :: after) (some []) = .error (.ahl e) := by
  rw [walk_append]
  cases hwalk : walk crates config before (some []) with
  | error other =>
    rw [walk_collects, hwalk] at hw
    cases hw
  | ok collected =>
    obtain rfl := Except.ok.inj (hw.symm.trans (walk_collected hwalk))
    have hunauthenticated := hx _ hw
    have hentry : walkEntry crates config collected before.length x = _ := walkEntry_unauthenticated hunauthenticated
    rw [ok_bind, walkFrom, hentry, he]
    rfl

theorem sameViews_of_walk {p q : List Bytes} (hlength : p.length = q.length)
    (h : walk crates config p (some []) = walk crates config q (some [])) : SameViews crates config p q := by
  constructor
  · unfold resolve
    rw [walk_collects, walk_collects, h, hlength]
  · unfold versions
    rw [h, hlength]

/-- **An unauthenticated entry is ignored exactly where its verification answers.** Whatever follows, the
prefix then resolves as it does with a non-governance entry in its place; where the verification fails,
it does so only if that prefix happens to fail with the same error. -/
theorem unauthenticated_ignored (hx : UnauthenticatedAt crates config before x) (hy : NonGovernance crates y) :
    ((∀ after, SameViews crates config (before ++ x :: after) (before ++ y :: after)) ↔
      AnsweredAt crates config before x) ∧
    ∀ after w e, walk crates config before none = .ok w →
      verificationOf crates config w.state before.length x = some (.error e) →
        (SameViews crates config (before ++ x :: after) (before ++ y :: after) ↔
          versions crates config (before ++ y :: after) = .error (.ahl e)) := by
  have hfails : ∀ after w e, walk crates config before none = .ok w →
      verificationOf crates config w.state before.length x = some (.error e) →
        versions crates config (before ++ x :: after) = .error (.ahl e) := by
    intro after w e hw he
    unfold versions
    rw [walk_aborted hx hw he]
    rfl
  refine ⟨⟨fun hsame w hw e he => ?_, fun hanswered after => ?_⟩, fun after w e hw he => ⟨fun hsame => ?_, fun hsame => ?_⟩⟩
  · -- with nothing after it, the replaced prefix fails for want of a genesis or not at all
    have herror := (hsame []).2.symm.trans (hfails [] w e hw he)
    unfold versions at herror
    rw [walk_nonGovernance hy] at herror
    cases hwalk : walk crates config before (some []) with
    | error other =>
      rw [walk_collects, hwalk] at hw
      cases hw
    | ok collected =>
      rw [hwalk] at herror
      obtain ⟨state, snapshots⟩ := collected
      rcases snapshots with _ | _ | ⟨first, rest⟩
      · cases herror
      · cases herror
      · cases herror
  · exact sameViews_of_walk (by simp) (walk_ignored hx hanswered hy after)
  · rw [← hsame.2, hfails after w e hw he]
  · refine ⟨?_, (hfails after w e hw he).trans hsame.symm⟩
    rw [resolve_eq_versions, resolve_eq_versions, hfails after w e hw he, hsame]
    rfl

end replaced

theorem unauthenticated_ignored_stranger :
    SameViews (Symbolic.crates Symbolic.documents) Symbolic.config ([[1]] ++ [8] :: [[6]]) ([[1]] ++ [5] :: [[6]]) :=
  (unauthenticated_ignored (by decide +kernel) (by decide +kernel)).1.2 (by decide +kernel) [[6]]

/-- A manifest statement whose signature names no key verifies under nothing and ends the walk. -/
theorem unauthenticated_aborts : ¬ ∀ (before after : List Bytes) (x y : Bytes),
    UnauthenticatedAt (Symbolic.crates Symbolic.documents) Symbolic.config before x →
    NonGovernance (Symbolic.crates Symbolic.documents) y →
      SameViews (Symbolic.crates Symbolic.documents) Symbolic.config (before ++ x :: after) (before ++ y :: after) := by
  intro h
  have hsame := (h [[1]] [] [4] [5] (by decide +kernel) (by decide +kernel)).2
  exact absurd hsame (by decide +kernel)

end AhlMirror
