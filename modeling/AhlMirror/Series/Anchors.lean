import AhlMirror.Core.Neighbours
import AhlMirror.Governance.Chain
import AhlMirror.Store.Calls

/-!
# Rotation material

The rotations a checkpoint anchors are told by the visible versions alone: consecutive ones whose key
sets differ, below the checkpoint's size, under a log key of the earlier one (`Anchors`). What the
submission names only decides between that list and an error.
-/

namespace AhlMirror

open AhlMirror.Core (neighbour_unique)

variable {H K : Type} [HashOctets H] {crates : Crates H K} {config : Config K}

theorem mem_rotationsIn {rotation : Rotation K} : ∀ {versions : List (GovernanceState K)},
    rotation ∈ rotationsIn versions ↔ ∃ before outgoing incoming after,
      versions = before ++ outgoing :: incoming :: after ∧ incoming.rotates outgoing = true ∧
        rotation = ⟨incoming.governingManifestEntryIndex, outgoing⟩
  | [] => by simp [rotationsIn]
  | [only] => by
    simp only [rotationsIn, List.not_mem_nil, false_iff, not_exists]
    rintro before outgoing incoming after ⟨hversions, -⟩
    have hlength := congrArg List.length hversions
    simp at hlength
    omega
  | first :: second :: rest => by
    rw [rotationsIn, List.mem_append, mem_rotationsIn]
    constructor
    · rintro (hfirst | ⟨before, outgoing, incoming, after, hrest, hrotates⟩)
      · split_ifs at hfirst with hrotates
        · exact ⟨[], first, second, rest, rfl, hrotates, List.mem_singleton.1 hfirst⟩
        · simp at hfirst
      · exact ⟨first :: before, outgoing, incoming, after, by rw [hrest, List.cons_append], hrotates⟩
    · rintro ⟨before, outgoing, incoming, after, hversions, hrotates, hrotation⟩
      cases before with
      | nil =>
        obtain ⟨rfl, rfl, rfl⟩ : first = outgoing ∧ second = incoming ∧ rest = after := by simpa using hversions
        rw [if_pos hrotates]
        exact Or.inl (List.mem_singleton.2 hrotation)
      | cons head before =>
        obtain ⟨-, hrest⟩ : first = head ∧ second :: rest = before ++ outgoing :: incoming :: after := by
          simpa using hversions
        exact Or.inr ⟨before, outgoing, incoming, after, hrest, hrotates, hrotation⟩

theorem qualifiesFor_eq_ok {cp : Checkpoint} {raw : Option Bytes} {rotation : Rotation K} :
    qualifiesFor crates config cp raw rotation = .ok () ↔
      rotation.manifestEntryIndex < cp.treeSize ∧ verifiesUnder crates config rotation.outgoing cp raw = .ok () := by
  unfold qualifiesFor
  split_ifs with hsize
  · simp only [false_iff, not_and]
    omega
  · cases hunder : verifiesUnder crates config rotation.outgoing cp raw with
    | error e => simp
    | ok value => simpa using hsize

theorem anchorRotations_fst {cp : Checkpoint} {raw : Option Bytes} {named : Option Nat} :
    ∀ {rotations : List (Rotation K)} {anchored : List Nat} {failure : Option String},
      (anchorRotations crates config cp raw named rotations anchored failure).1 = anchored ++
        (rotations.filter fun rotation => (qualifiesFor crates config cp raw rotation).isOk).map (·.manifestEntryIndex)
  | [], anchored, failure => by simp [anchorRotations]
  | rotation :: rest, anchored, failure => by
    unfold anchorRotations
    cases hqualifies : qualifiesFor crates config cp raw rotation with
    | ok value =>
      dsimp only
      rw [anchorRotations_fst, List.filter_cons_of_pos (by rw [hqualifies]; rfl), List.map_cons, List.append_assoc,
        List.singleton_append]
    | error reason =>
      dsimp only
      rw [List.filter_cons_of_neg (by rw [isOk_eq_true, hqualifies]; simp)]
      split_ifs
      · exact anchorRotations_fst
      · exact anchorRotations_fst

variable (crates config) in
/-- Under these versions the checkpoint is anchoring material for the rotation at this index. -/
def Anchors (versions : List (GovernanceState K)) (cp : Checkpoint) (raw : Option Bytes) (index : Nat) : Prop :=
  ∃ before outgoing incoming after, versions = before ++ outgoing :: incoming :: after ∧
    incoming.rotates outgoing = true ∧ incoming.governingManifestEntryIndex = index ∧ index < cp.treeSize ∧
      verifiesUnder crates config outgoing cp raw = .ok ()

/-- The manifest at the index rotates the keys of the version before it. -/
def RotationAt (versions : List (GovernanceState K)) (index : Nat) (outgoing : GovernanceState K) : Prop :=
  ∃ before incoming after, versions = before ++ outgoing :: incoming :: after ∧ incoming.rotates outgoing = true ∧
    incoming.governingManifestEntryIndex = index

theorem anchors_take_iff {entries : List Bytes} {list shown : List (GovernanceState K)} {n index : Nat}
    (hlist : versions crates config entries = .ok list) (hn : n ≤ entries.length)
    (hshown : versions crates config (entries.take n) = .ok shown) {outgoing : GovernanceState K}
    (hrotation : RotationAt list index outgoing) {cp : Checkpoint} {raw : Option Bytes} :
    Anchors crates config shown cp raw index ↔
      index < n ∧ index < cp.treeSize ∧ verifiesUnder crates config outgoing cp raw = .ok () := by
  obtain ⟨before, incoming, after, rfl, hrotates, rfl⟩ := hrotation
  obtain ⟨w, hwalk, hsnapshots⟩ := versions_take hlist hn
  obtain ⟨-, w', hwalk', hsnapshots'⟩ := versions_eq_ok.1 hshown
  obtain rfl := Except.ok.inj (hwalk'.symm.trans hwalk)
  obtain rfl := Option.some.inj (hsnapshots'.symm.trans hsnapshots)
  have hincreasing := (versions_chain hlist).2.increasing
  have hsorted := (versions_chain hshown).2.increasing
  -- where the rotating version is shown, so are those before it
  have hfilter : incoming.governingManifestEntryIndex < n →
      (before ++ outgoing :: incoming :: after).filter (fun version => decide (version.governingManifestEntryIndex < n)) =
        before ++ outgoing :: incoming :: after.filter fun version => decide (version.governingManifestEntryIndex < n) := by
    intro hlt
    obtain ⟨-, hpair, hbefore⟩ := List.pairwise_append.1 hincreasing
    have houtgoing := (List.pairwise_cons.1 hpair).1 incoming List.mem_cons_self
    have hall : before.filter (fun version => decide (version.governingManifestEntryIndex < n)) = before := by
      apply List.filter_eq_self.2
      intro version hversion
      have := hbefore version hversion incoming (List.mem_cons_of_mem _ List.mem_cons_self)
      simp
      omega
    rw [List.filter_append, hall, List.filter_cons_of_pos (by simp; omega), List.filter_cons_of_pos (by simp; omega)]
  constructor
  · rintro ⟨before', outgoing', incoming', after', heq, -, hindex, hsize, hverifies⟩
    have hmem : incoming' ∈ (before ++ outgoing :: incoming :: after).filter
        fun version => decide (version.governingManifestEntryIndex < n) := by
      rw [heq]
      exact List.mem_append_right _ (List.mem_cons_of_mem _ List.mem_cons_self)
    have hlt : incoming.governingManifestEntryIndex < n := hindex ▸ of_decide_eq_true (List.mem_filter.1 hmem).2
    obtain rfl : outgoing' = outgoing := neighbour_unique hsorted heq (hfilter hlt) hindex
    exact ⟨hlt, hsize, hverifies⟩
  · rintro ⟨hlt, hsize, hverifies⟩
    exact ⟨before, outgoing, incoming, _, hfilter hlt, hrotates, rfl, hsize, hverifies⟩

variable (crates config) in
/-- The rotations a checkpoint qualifies for, by their indices. -/
def anchoredBy (versions : List (GovernanceState K)) (cp : Checkpoint) (raw : Option Bytes) : List Nat :=
  ((rotationsIn versions).filter fun rotation => (qualifiesFor crates config cp raw rotation).isOk).map
    (·.manifestEntryIndex)

theorem mem_anchoredBy {versions : List (GovernanceState K)} {cp : Checkpoint} {raw : Option Bytes} {index : Nat} :
    index ∈ anchoredBy crates config versions cp raw ↔ Anchors crates config versions cp raw index := by
  simp only [anchoredBy, List.mem_map, List.mem_filter, isOk_eq_true]
  constructor
  · rintro ⟨rotation, ⟨hrotation, hqualifies⟩, rfl⟩
    obtain ⟨before, outgoing, incoming, after, hversions, hrotates, rfl⟩ := mem_rotationsIn.1 hrotation
    exact ⟨before, outgoing, incoming, after, hversions, hrotates, rfl, qualifiesFor_eq_ok.1 hqualifies⟩
  · rintro ⟨before, outgoing, incoming, after, hversions, hrotates, rfl, hqualifies⟩
    exact ⟨_, ⟨mem_rotationsIn.2 ⟨before, outgoing, incoming, after, hversions, hrotates, rfl⟩,
      qualifiesFor_eq_ok.2 hqualifies⟩, rfl⟩

/-- What is named decides between the list found and an error, and changes neither. -/
theorem rotationAnchorsFor_eq (crates : Crates H K) (config : Config K) (versions : List (GovernanceState K))
    (cp : Checkpoint) (raw : Option Bytes) (named : Option Nat) :
    (∀ m ∈ named, m ∈ anchoredBy crates config versions cp raw) ∧
        rotationAnchorsFor crates config versions cp raw named = .ok (anchoredBy crates config versions cp raw) ∨
      ∃ m ∈ named, m ∉ anchoredBy crates config versions cp raw ∧ ∃ reason,
        rotationAnchorsFor crates config versions cp raw named = .error (.notRotationMaterial cp.treeSize m reason) := by
  have hfound : (anchorRotations crates config cp raw named (rotationsIn versions) [] none).1 =
      anchoredBy crates config versions cp raw := anchorRotations_fst
  unfold rotationAnchorsFor
  rcases hloop : anchorRotations crates config cp raw named (rotationsIn versions) [] none with ⟨anchored, failure⟩
  rw [hloop] at hfound
  obtain rfl : anchored = anchoredBy crates config versions cp raw := hfound
  cases named with
  | none => exact Or.inl ⟨by simp, rfl⟩
  | some m =>
    dsimp only
    split_ifs with hnamed
    · exact Or.inl ⟨fun m' hm' => Option.some.inj hm' ▸ hnamed, rfl⟩
    · exact Or.inr ⟨m, rfl, hnamed, _, rfl⟩

theorem rotationAnchorsFor_eq_ok {versions : List (GovernanceState K)} {cp : Checkpoint} {raw : Option Bytes}
    {named : Option Nat} {anchors : List Nat}
    (h : rotationAnchorsFor crates config versions cp raw named = .ok anchors) :
    (∀ index, index ∈ anchors ↔ Anchors crates config versions cp raw index) ∧ ∀ m ∈ named, m ∈ anchors := by
  rcases rotationAnchorsFor_eq crates config versions cp raw named with ⟨hnamed, hok⟩ | ⟨m, -, -, reason, herror⟩
  · obtain rfl := Except.ok.inj (h.symm.trans hok)
    exact ⟨fun index => mem_anchoredBy, hnamed⟩
  · exact absurd (h.symm.trans herror) (by simp)

theorem Judged.verified {db : Db} {cp : Checkpoint} {raw : Option Bytes} {batch : List PendingPromotion}
    {rotationFor : Option Nat} {claimedRoot : H} {admission : Admission} {visible : List Bytes}
    {list : List (GovernanceState K)} {active : GovernanceState K}
    (h : Judged crates config db cp raw batch rotationFor claimedRoot admission visible list active) :
    ∃ state ∈ list, verifiesUnder crates config state cp raw = .ok () := by
  rcases h.answered with hmember | hanchors
  · exact ⟨active, List.mem_of_getLast? h.activeVersion, h.member.1 hmember⟩
  · obtain ⟨index, hindex⟩ := List.exists_mem_of_ne_nil _ hanchors
    obtain ⟨before, outgoing, incoming, after, rfl, -, -, -, hverifies⟩ :=
      ((rotationAnchorsFor_eq_ok h.anchors).1 index).1 hindex
    exact ⟨outgoing, List.mem_append_right _ List.mem_cons_self, hverifies⟩

end AhlMirror
