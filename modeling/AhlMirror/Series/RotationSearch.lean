import AhlMirror.Governance.KeySets
import AhlMirror.Series.Anchors

/-!
# The rotation search

What a checkpoint anchors, searched over all the rotations of a version list: each index once, in
ascending order, the same list whichever index is named (`SearchExact`). The search asks
`resolve_log_key` for the outgoing key and so sees the first object listed under the checkpoint's key id
only; it is exact where that one is active whenever a listed one is.
-/

namespace AhlMirror

open AhlMirror.Core (neighbour_unique)

variable {H K : Type} [HashOctets H] {crates : Crates H K} {config : Config K}

/-! ### The order of the list -/

omit [HashOctets H] in
theorem rotationsIn_sublist : ∀ (versions : List (GovernanceState K)) (outgoing : GovernanceState K),
    ((rotationsIn (outgoing :: versions)).map (·.manifestEntryIndex)).Sublist
      (versions.map (·.governingManifestEntryIndex))
  | [], outgoing => List.Sublist.refl _
  | incoming :: rest, outgoing => by
    have hrest := rotationsIn_sublist rest incoming
    rw [rotationsIn, List.map_append, List.map_cons]
    split_ifs
    · exact hrest.cons_cons _
    · exact hrest.cons _

theorem anchoredBy_increasing {entries : List Bytes} {list : List (GovernanceState K)}
    (hlist : versions crates config entries = .ok list) (cp : Checkpoint) (raw : Option Bytes) :
    (anchoredBy crates config list cp raw).Pairwise (· < ·) := by
  have hincreasing := List.pairwise_map.2 (versions_chain hlist).2.increasing
  cases list with
  | nil => exact List.Pairwise.nil
  | cons genesis rest =>
    have hsublist : (anchoredBy crates config (genesis :: rest) cp raw).Sublist
        (rest.map (·.governingManifestEntryIndex)) :=
      (List.filter_sublist.map _).trans (rotationsIn_sublist rest genesis)
    exact (List.pairwise_cons.1 hincreasing).2.sublist hsublist

/-! ### What the search should find -/

section search
variable (crates config)

/-- The checkpoint verifies under some log key of the version that is active at its size. -/
def ActiveKeyVerifies (outgoing : GovernanceState K) (cp : Checkpoint) (raw : Option Bytes) : Prop :=
  ∃ key ∈ outgoing.logKeys, key.keyId = cp.keyId ∧ key.validFromIndex ≤ cp.treeSize ∧
    verifyCheckpointSignature crates cp raw config.logId key.verifyingKey = .ok ()

/-- The search finds the rotations below the checkpoint's size under whose outgoing keys it verifies, in
ascending order; naming one of them gives the same list, naming anything else an error. -/
def SearchExact (versions : List (GovernanceState K)) (cp : Checkpoint) (raw : Option Bytes) : Prop :=
  ∃ anchors, rotationAnchorsFor crates config versions cp raw none = .ok anchors ∧ anchors.Pairwise (· < ·) ∧
    (∀ m, m ∈ anchors ↔ ∃ outgoing, RotationAt versions m outgoing ∧ m < cp.treeSize ∧
      ActiveKeyVerifies crates config outgoing cp raw) ∧
    ∀ k, (k ∈ anchors → rotationAnchorsFor crates config versions cp raw (some k) = .ok anchors) ∧
      (k ∉ anchors → ∃ reason, rotationAnchorsFor crates config versions cp raw (some k) =
        .error (.notRotationMaterial cp.treeSize k reason))

/-- Wherever a listed key would anchor the checkpoint, the first one listed under its id is active. -/
def FirstListedActive (versions : List (GovernanceState K)) (cp : Checkpoint) (raw : Option Bytes) : Prop :=
  ∀ m outgoing, RotationAt versions m outgoing → m < cp.treeSize → ActiveKeyVerifies crates config outgoing cp raw →
    ∃ bound ∈ outgoing.boundUnder cp.keyId, bound ≤ cp.treeSize

end search

theorem verifiesUnder_eq_ok (hlaws : KeyIdLaws crates) {state : GovernanceState K} (hparsed : Parsed crates state)
    {cp : Checkpoint} {raw : Option Bytes} : verifiesUnder crates config state cp raw = .ok () ↔
      ActiveKeyVerifies crates config state cp raw ∧ ∃ bound ∈ state.boundUnder cp.keyId, bound ≤ cp.treeSize := by
  unfold verifiesUnder
  rw [bind_eq_ok, ← GovernanceState.resolveLogKey_isOk_iff]
  constructor
  · rintro ⟨verifyingKey, hresolve, hverify⟩
    obtain ⟨key, hfind, hbound, rfl⟩ := GovernanceState.resolveLogKey_eq_ok.1 hresolve
    exact ⟨⟨key, List.mem_of_find?_eq_some hfind, by simpa using List.find?_some hfind, hbound, hverify⟩, _, hresolve⟩
  · rintro ⟨⟨key, hkey, hid, -, hverify⟩, verifyingKey, hresolve⟩
    refine ⟨verifyingKey, hresolve, ?_⟩
    obtain ⟨first, hfind, -, rfl⟩ := GovernanceState.resolveLogKey_eq_ok.1 hresolve
    have hfirst : first.keyId = cp.keyId := by simpa using List.find?_some hfind
    rw [(hparsed.selfChecked first (List.mem_of_find?_eq_some hfind)).verifyingKey_eq (hparsed.selfChecked key hkey)
      hlaws (hfirst.trans hid.symm)]
    exact hverify

theorem firstListedActive_of_single {versions : List (GovernanceState K)} {cp : Checkpoint} {raw : Option Bytes}
    (hone : ∀ version ∈ versions, ∀ key ∈ version.logKeys, ∀ key' ∈ version.logKeys, key.keyId = key'.keyId →
      key.validFromIndex = key'.validFromIndex) : FirstListedActive crates config versions cp raw := by
  rintro m outgoing ⟨before, incoming, after, rfl, -⟩ - ⟨key, hkey, hid, hbound, -⟩
  cases hfind : outgoing.logKeys.find? fun key => key.keyId == cp.keyId with
  | none => exact absurd (by simpa using hid) (List.find?_eq_none.1 hfind key hkey)
  | some first =>
    have hfirst : first.keyId = cp.keyId := by simpa using List.find?_some hfind
    have heq := hone outgoing (List.mem_append_right _ List.mem_cons_self) first (List.mem_of_find?_eq_some hfind) key
      hkey (hfirst.trans hid.symm)
    exact ⟨first.validFromIndex, by rw [GovernanceState.boundUnder, hfind]; rfl, heq ▸ hbound⟩

theorem rotationAt_unique {entries : List Bytes} {list : List (GovernanceState K)}
    (hlist : versions crates config entries = .ok list) {m : Nat} {outgoing outgoing' : GovernanceState K}
    (h : RotationAt list m outgoing) (h' : RotationAt list m outgoing') : outgoing = outgoing' := by
  obtain ⟨before, incoming, after, hsplit, -, hindex⟩ := h
  obtain ⟨before', incoming', after', hsplit', -, hindex'⟩ := h'
  exact neighbour_unique (versions_chain hlist).2.increasing hsplit hsplit' (hindex.trans hindex'.symm)

/-- **The rotation search is exact where the first key listed is active whenever a listed one is, and
nowhere else.** -/
theorem rotation_search_exact_iff (hlaws : KeyIdLaws crates) {entries : List Bytes} {list : List (GovernanceState K)}
    (hlist : versions crates config entries = .ok list) (cp : Checkpoint) (raw : Option Bytes) :
    SearchExact crates config list cp raw ↔ FirstListedActive crates config list cp raw := by
  have hsearch : rotationAnchorsFor crates config list cp raw none = .ok (anchoredBy crates config list cp raw) := by
    rcases rotationAnchorsFor_eq crates config list cp raw none with ⟨-, hok⟩ | ⟨m, hm, -⟩
    · exact hok
    · simp at hm
  have hparsed : ∀ {m outgoing}, RotationAt list m outgoing → Parsed crates outgoing := by
    rintro m outgoing ⟨before, incoming, after, rfl, -⟩
    exact versions_parsed hlist outgoing (List.mem_append_right _ List.mem_cons_self)
  have hmem : ∀ m, m ∈ anchoredBy crates config list cp raw ↔ ∃ outgoing, RotationAt list m outgoing ∧
      m < cp.treeSize ∧ verifiesUnder crates config outgoing cp raw = .ok () := by
    intro m
    rw [mem_anchoredBy]
    constructor
    · rintro ⟨before, outgoing, incoming, after, hsplit, hrotates, hindex, hsize, hverifies⟩
      exact ⟨outgoing, ⟨before, incoming, after, hsplit, hrotates, hindex⟩, hsize, hverifies⟩
    · rintro ⟨outgoing, ⟨before, incoming, after, hsplit, hrotates, hindex⟩, hsize, hverifies⟩
      exact ⟨before, outgoing, incoming, after, hsplit, hrotates, hindex, hsize, hverifies⟩
  constructor
  · rintro ⟨anchors, hanchors, -, hexact, -⟩ m outgoing hrotation hsize hverifies
    obtain rfl := Except.ok.inj (hanchors.symm.trans hsearch)
    obtain ⟨outgoing', hrotation', -, hverifies'⟩ := (hmem m).1 ((hexact m).2 ⟨outgoing, hrotation, hsize, hverifies⟩)
    obtain rfl := rotationAt_unique hlist hrotation hrotation'
    exact ((verifiesUnder_eq_ok hlaws (hparsed hrotation)).1 hverifies').2
  · intro hfirst
    refine ⟨_, hsearch, anchoredBy_increasing hlist cp raw, fun m => (hmem m).trans ?_, fun k => ?_⟩
    · constructor
      · rintro ⟨outgoing, hrotation, hsize, hverifies⟩
        exact ⟨outgoing, hrotation, hsize, ((verifiesUnder_eq_ok hlaws (hparsed hrotation)).1 hverifies).1⟩
      · rintro ⟨outgoing, hrotation, hsize, hverifies⟩
        exact ⟨outgoing, hrotation, hsize, (verifiesUnder_eq_ok hlaws (hparsed hrotation)).2
          ⟨hverifies, hfirst m outgoing hrotation hsize hverifies⟩⟩
    · rcases rotationAnchorsFor_eq crates config list cp raw (some k) with ⟨hnamed, hok⟩ | ⟨m, hm, hout, herror⟩
      · exact ⟨fun _ => hok, fun hout => absurd (hnamed k rfl) hout⟩
      · obtain rfl := Option.some.inj hm
        exact ⟨fun hin => absurd hin hout, fun _ => herror⟩

theorem rotation_search_exact_iff_rotation :
    SearchExact (Symbolic.namedCrates Symbolic.documents) Symbolic.config Symbolic.rotation
      (Symbolic.checkpoint "A" 3 (Symbolic.rootOf [[1], [5], [2]]) 5) none :=
  (rotation_search_exact_iff (Symbolic.keyIdLaws Symbolic.documents)
    (show versions _ Symbolic.config [[1], [5], [2]] = .ok Symbolic.rotation by decide +kernel) _ none).2
    (firstListedActive_of_single (by decide))

namespace Symbolic

/-- The genesis lists `A` twice, the later bound first; its successor lists `B`. -/
def relisted : List (Bytes × Value) :=
  [document [1] (manifestListing [] [("A", 9), ("A", 0)]) (signedBy "P"),
    document [2] (manifestListing [("predecessor", .string (hashText [1]))] [("B", 0)]) (signedBy "P")]

def relistedOutgoing : GovernanceState String :=
  { listing [("A", 9), ("A", 0)] with governingManifestEntryId := hashText [1] }

def relistedIncoming : GovernanceState String :=
  { listing [("B", 0)] with governingManifestEntryIndex := 1, governingManifestEntryId := hashText [2] }

/-- A checkpoint over the two entries that `A` signs. -/
def underRelisted : Checkpoint := checkpoint "A" 2 (rootOf [[1], [2]]) 5

end Symbolic

/-- A key listed twice, not yet active where it is listed first: size 2 verifies under it where it is
listed next, and the rotation is not found. -/
theorem relisted_key_unsearched : ¬ ∀ (entries : List Bytes) (list : List (GovernanceState String)),
    versions (Symbolic.namedCrates Symbolic.relisted) Symbolic.config entries = .ok list → ∀ cp raw,
      SearchExact (Symbolic.namedCrates Symbolic.relisted) Symbolic.config list cp raw := by
  intro h
  have hlist : versions (Symbolic.namedCrates Symbolic.relisted) Symbolic.config [[1], [2]] =
      .ok [Symbolic.relistedOutgoing, Symbolic.relistedIncoming] := by decide +kernel
  obtain ⟨anchors, hanchors, -, hexact, -⟩ := h _ _ hlist Symbolic.underRelisted none
  have hnone : rotationAnchorsFor (Symbolic.namedCrates Symbolic.relisted) Symbolic.config
      [Symbolic.relistedOutgoing, Symbolic.relistedIncoming] Symbolic.underRelisted none none = .ok [] := by
    decide +kernel
  obtain rfl := Except.ok.inj (hanchors.symm.trans hnone)
  have hverifies : ActiveKeyVerifies (Symbolic.namedCrates Symbolic.relisted) Symbolic.config Symbolic.relistedOutgoing
      Symbolic.underRelisted none :=
    ⟨⟨Symbolic.keyIdOf "A", "A", "A", 0⟩, by decide, by decide +kernel, by decide, by decide +kernel⟩
  exact List.not_mem_nil ((hexact 1).2
    ⟨Symbolic.relistedOutgoing, ⟨[], Symbolic.relistedIncoming, [], rfl, by decide, rfl⟩, by decide, hverifies⟩)

end AhlMirror
