import AhlMirror.Core.Matching
import AhlMirror.Model.Symbolic
import AhlMirror.Series.Visible

/-!
# The visible prefix as a dense array

`build_visible_prefix` keeps a sparse overlay, since the size it works to is not yet authenticated. What it
computes is what an array of that many slots would give: filled from canonical storage, each slot left empty
taken by the first claim that proves itself, and read up to the first slot still empty
(`denseVisiblePrefix`).
-/

namespace AhlMirror

open AhlMirror.Core (Matches)

variable {H K : Type}

/-! ### The array -/

section dense
variable (crates : Crates H K) (db : Db)

/-- The slots as canonical storage fills them. -/
def canonicalSlots (targetTreeSize : Nat) : MirrorResult (List (Option Bytes)) := do
  let targetTreeSize ← toI64 "to_index" targetTreeSize
  .ok ((List.range targetTreeSize).map fun index => (entryAt db index).map (·.envelope))

/-- One claim: it is relevant where it names a slot, and the slot is empty. -/
def claimSlot (targetTreeSize : Nat) (claimedRoot : H) (slots : List (Option Bytes)) (p : PendingPromotion) :
    MirrorResult (List (Option Bytes)) :=
  match slots[p.leafIndex]? with
  | some none => do
    let bytes ← okOr (.notStaged p.entryId) (getStagedRaw db p.entryId)
    let included ← verifyInclusionFor crates bytes p.leafIndex targetTreeSize p.inclusionPath claimedRoot
    if included = false then .error (.inclusionProofInvalid p.entryId p.leafIndex targetTreeSize)
    else .ok (slots.set p.leafIndex (some bytes))
  | _ => .ok slots

/-- The slots before the first empty one. -/
def filledPrefix : List (Option Bytes) → List Bytes
  | some bytes :: rest => bytes :: filledPrefix rest
  | _ => []

def denseVisiblePrefix (pending : List PendingPromotion) (targetTreeSize : Nat) (claimedRoot : H) :
    MirrorResult (List Bytes) := do
  let slots ← canonicalSlots db targetTreeSize
  let slots ← pending.foldlM (claimSlot crates db targetTreeSize claimedRoot) slots
  .ok (filledPrefix slots)

end dense

/-! ### The overlay -/

/-- The array an overlay stands for: the canonical run, and behind it what the overlay holds. -/
structure Fills (canonical : List Bytes) (targetTreeSize : Nat) (overlay : Overlay) (slots : List (Option Bytes)) :
    Prop where
  length : slots.length = targetTreeSize
  held : ∀ i (h : i < canonical.length), slots[i]? = some (some canonical[i])
  overlaid : ∀ i, canonical.length ≤ i → i < targetTreeSize → slots[i]? = some (overlay.get i)

theorem Overlay.get_append (overlay : Overlay) (index : Nat) (bytes : Bytes) (i : Nat) :
    Overlay.get (overlay ++ [(index, bytes)]) i =
      (overlay.get i).or (if index = i then some bytes else none) := by
  unfold Overlay.get
  rw [List.find?_append]
  cases overlay.find? fun slot => slot.1 == i with
  | some slot => rfl
  | none =>
    by_cases hi : index = i
    · simp [hi]
    · simp [hi]

theorem Overlay.get_remove {overlay : Overlay} {index i : Nat} (h : i ≠ index) :
    (overlay.remove index).get i = overlay.get i := by
  unfold Overlay.get Overlay.remove
  rw [List.find?_filter]
  congr 2
  funext slot
  by_cases hi : slot.1 = i
  · simp [hi, h]
  · simp [hi]

theorem Overlay.length_remove_lt {overlay : Overlay} {index : Nat} {bytes : Bytes}
    (h : overlay.get index = some bytes) : (overlay.remove index).length < overlay.length := by
  unfold Overlay.get at h
  obtain ⟨slot, hslot, -⟩ := Option.map_eq_some_iff.1 h
  have hkey := List.find?_some hslot
  exact List.length_filter_lt_length_iff_exists.2 ⟨slot, List.mem_of_find?_eq_some hslot, by simpa using hkey⟩

theorem overlayPending_claims {crates : Crates H K} {db : Db} {canonical : List Bytes} {target : Nat} {root : H}
    {overlay : Overlay} {slots : List (Option Bytes)} (h : Fills canonical target overlay slots) (p : PendingPromotion) :
    Matches (fun _ => False) (Fills canonical target) (overlayPending crates db canonical.length target root overlay p)
      (claimSlot crates db target root slots p) := by
  unfold overlayPending claimSlot
  split_ifs with htarget hcanonical hslot
  · -- beyond the tree
    rw [List.getElem?_eq_none (by rw [h.length]; exact htarget)]
    exact .ok h
  · rw [h.held _ hcanonical]
    exact .ok h
  · -- the first claim on a slot wins
    obtain ⟨bytes, hbytes⟩ := Option.isSome_iff_exists.1 hslot
    rw [h.overlaid _ (by omega) (by omega), hbytes]
    exact .ok h
  · have hempty : overlay.get p.leafIndex = none := by simpa using hslot
    rw [h.overlaid _ (by omega) (by omega), hempty]
    dsimp only
    refine (Matches.refl _).bind_eq fun bytes => (Matches.refl _).bind_eq fun included => ?_
    split_ifs
    · exact .error _
    · refine .ok ⟨by rw [List.length_set, h.length], fun i hi => ?_, fun i hlow hhigh => ?_⟩
      · rw [List.getElem?_set_ne (by omega), h.held i hi]
      · rw [Overlay.get_append]
        by_cases hi : p.leafIndex = i
        · subst hi
          rw [List.getElem?_set_self (by rw [h.length]; exact hhigh), hempty, if_pos rfl, Option.none_or]
        · rw [List.getElem?_set_ne hi, h.overlaid i hlow hhigh, if_neg hi, Option.or_none]

theorem extendPrefix_filled {target : Nat} {slots : List (Option Bytes)} (hlength : slots.length = target) :
    ∀ (fuel next : Nat) (overlay : Overlay) (entries : List Bytes), overlay.length ≤ fuel →
      (∀ i, next ≤ i → i < target → slots[i]? = some (overlay.get i)) →
        extendPrefix target fuel next overlay entries = entries ++ filledPrefix (slots.drop next) := by
  have hend : ∀ next, target ≤ next → filledPrefix (slots.drop next) = [] := by
    intro next hle
    rw [List.drop_eq_nil_of_le (by omega), filledPrefix]
    simp
  have hstop : ∀ next, slots[next]? = some none → filledPrefix (slots.drop next) = [] := by
    intro next hnone
    obtain ⟨hlt, hnone⟩ := List.getElem?_eq_some_iff.1 hnone
    rw [List.drop_eq_getElem_cons hlt, hnone, filledPrefix]
    simp
  intro fuel
  induction fuel with
  | zero =>
    intro next overlay entries hfuel hslots
    obtain rfl := List.length_eq_zero_iff.1 (Nat.le_zero.1 hfuel)
    rw [extendPrefix]
    by_cases hnext : next < target
    · rw [hstop next (hslots next le_rfl hnext), List.append_nil]
    · rw [hend next (by omega), List.append_nil]
  | succ fuel ih =>
    intro next overlay entries hfuel hslots
    rw [extendPrefix]
    split_ifs with hnext
    · have hslot := hslots next le_rfl hnext
      cases hget : overlay.get next with
      | none => rw [hstop next (hget ▸ hslot), List.append_nil]
      | some bytes =>
        rw [hget] at hslot
        obtain ⟨hlt, hfilled⟩ := List.getElem?_eq_some_iff.1 hslot
        have hshorter := Overlay.length_remove_lt hget
        dsimp only
        rw [ih (next + 1) (overlay.remove next) _ (by omega) fun i hlow hhigh => by
            rw [hslots i (by omega) hhigh, Overlay.get_remove (by omega)],
          List.drop_eq_getElem_cons hlt, hfilled, filledPrefix, List.append_assoc, List.singleton_append]
    · rw [hend next (by omega), List.append_nil]

theorem filledPrefix_append (values : List Bytes) (rest : List (Option Bytes)) :
    filledPrefix (values.map some ++ rest) = values ++ filledPrefix rest := by
  induction values with
  | nil => rfl
  | cons value values ih => rw [List.map_cons, List.cons_append, filledPrefix, ih, List.cons_append]

theorem Fills.extendPrefix {canonical : List Bytes} {target : Nat} {overlay : Overlay} {slots : List (Option Bytes)}
    (h : Fills canonical target overlay slots) :
    AhlMirror.extendPrefix target overlay.length canonical.length overlay canonical = filledPrefix slots := by
  have hcanonical : slots.take canonical.length = canonical.map some := by
    refine List.ext_getElem? fun i => ?_
    rw [List.getElem?_take, List.getElem?_map]
    split_ifs with hi
    · rw [h.held i hi, List.getElem?_eq_getElem hi, Option.map_some]
    · rw [List.getElem?_eq_none (by omega), Option.map_none]
  rw [extendPrefix_filled h.length overlay.length canonical.length overlay canonical le_rfl h.overlaid,
    ← filledPrefix_append, ← hcanonical, List.take_append_drop]

theorem Canonical.fills {db : Db} (h : Canonical db) (target : Nat) : Fills ((canonicalEntries db).take target) target []
    ((List.range target).map fun index => (AhlMirror.entryAt db index).map (·.envelope)) := by
  have hslot : ∀ i, i < target → ((List.range target).map fun index => (AhlMirror.entryAt db index).map (·.envelope))[i]? =
      some (canonicalEntries db)[i]? := by
    intro i hi
    rw [List.getElem?_map, List.getElem?_range hi, Option.map_some, h.entryAt, canonicalEntries, List.getElem?_map]
  refine ⟨by simp, fun i hi => ?_, fun i hlow hhigh => ?_⟩
  · rw [List.length_take] at hi
    rw [hslot i (by omega), List.getElem_take, List.getElem?_eq_getElem]
  · rw [List.length_take] at hlow
    rw [hslot i hhigh, List.getElem?_eq_none (by omega)]
    rfl

theorem buildVisiblePrefix_eq_dense {crates : Crates H K} {db : Db} (h : Canonical db) (batch : List PendingPromotion)
    (target : Nat) (root : H) :
    buildVisiblePrefix crates db batch target root = denseVisiblePrefix crates db batch target root := by
  unfold buildVisiblePrefix denseVisiblePrefix canonicalSlots
  by_cases hsize : target < i64Bound
  · rw [h.entriesPrefix hsize, toI64_of_lt hsize]
    simp only [ok_bind]
    refine (Matches.eq_of_strict ?_).symm
    refine (Matches.foldlM_related (fun _ _ p hfills => overlayPending_claims hfills p) batch (h.fills target)).bind
      fun overlay slots hfills => ?_
    exact Matches.of_eq (congrArg Except.ok hfills.extendPrefix)
  · unfold getEntriesRangeRaw toI64
    rw [if_neg hsize, if_pos (by decide)]
    rfl

/-! ### What an admission is judged on -/

variable [HashOctets H] [DecidableEq H] {crates : Crates H K} {config : Config K}

/-- **Governance is judged on the bytes that get committed.** On every batch the visible prefix is the dense
array's; and the one an admission answered with `Ok` was judged on is the canonical prefix after it. -/
theorem governance_judged_on_committed {db : Db} (hreach : Reachable crates config db) :
    (∀ batch targetTreeSize claimedRoot, buildVisiblePrefix crates db batch targetTreeSize claimedRoot =
      denseVisiblePrefix crates db batch targetTreeSize claimedRoot) ∧
    ∀ cp raw batch rotationFor after admission,
      ingestCheckpoint crates config db cp raw batch rotationFor = (after, .ok admission) →
      ∃ claimedRoot visible list active, crates.parseHashHex cp.rootHash = .ok claimedRoot ∧
        visible = (canonicalEntries after).take (min after.entries.length cp.treeSize) ∧
        buildVisiblePrefix crates db batch cp.treeSize claimedRoot = .ok visible ∧
        versions crates config visible = .ok list ∧ list.getLast? = some active ∧
        (admission.seriesMember = true ↔ verifiesUnder crates config active cp raw = .ok ()) ∧
        rotationAnchorsFor crates config list cp raw rotationFor = .ok admission.rotationAnchors := by
  have hrep := hreach.represents
  refine ⟨buildVisiblePrefix_eq_dense hrep.toCanonical, fun cp raw batch rotationFor after admission h => ?_⟩
  obtain ⟨claimedRoot, judged, hjudge, hcommit⟩ := ingestCheckpoint_eq_ok h
  obtain ⟨rfl, mid, recorded, hcommitted⟩ := commitAdmission_cases hcommit
  obtain ⟨visible, list, active, hjudged⟩ := judgeCheckpoint_cases hjudge
  have hvisible := visiblePrefix_eq_promoted hrep hjudged.size hjudged.visiblePrefix hcommitted.batch
  rw [← hcommitted.canonicalEntries] at hvisible
  refine ⟨claimedRoot, visible, list, active, hjudged.root, ?_, hjudged.visiblePrefix, hjudged.versions,
    hjudged.activeVersion, hjudged.member, hjudged.anchors⟩
  have hlength : (canonicalEntries after).length = after.entries.length := length_canonicalEntries after
  rw [hvisible, ← hlength, List.take_eq_take_min, Nat.min_comm]

/-- Claims out of order, one of them made twice, over a store that holds nothing canonical. -/
def Symbolic.unorderedBatch : List PendingPromotion :=
  [pending [[1], [5]] 1, pending [[1], [5]] 0, pending [[1], [5]] 1]

theorem governance_judged_on_committed_unorderedBatch :
    denseVisiblePrefix (Symbolic.crates Symbolic.documents) (Symbolic.after [Symbolic.stage 1, Symbolic.stage 5])
        Symbolic.unorderedBatch 2 (Symbolic.rootOf [[1], [5]]) = .ok [[1], [5]] ∧
      ∃ claimedRoot list, buildVisiblePrefix (Symbolic.crates Symbolic.documents)
        (Symbolic.after [Symbolic.stage 1, Symbolic.stage 5]) [Symbolic.pending [[1], [5]] 0, Symbolic.pending [[1], [5]] 1]
        2 claimedRoot = .ok ((canonicalEntries Symbolic.twoEntries).take 2) ∧
        versions (Symbolic.crates Symbolic.documents) Symbolic.config ((canonicalEntries Symbolic.twoEntries).take 2) =
          .ok list := by
  obtain ⟨hdense, hjudged⟩ := governance_judged_on_committed
    (Symbolic.reachable_after [Symbolic.stage 1, Symbolic.stage 5])
  constructor
  · rw [← hdense]
    decide +kernel
  · obtain ⟨claimedRoot, visible, list, active, -, rfl, hvisible, hlist, -⟩ := hjudged
      (Symbolic.checkpoint "A" 2 (Symbolic.rootOf [[1], [5]]) 5) none
      [Symbolic.pending [[1], [5]] 0, Symbolic.pending [[1], [5]] 1] none Symbolic.twoEntries ⟨true, []⟩ (by decide +kernel)
    exact ⟨claimedRoot, list, hvisible, hlist⟩

end AhlMirror
