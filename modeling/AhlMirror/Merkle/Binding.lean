import AhlMirror.Merkle.Verify

/-!
# What a root binds

Over a node hash that tells its two children, a root determines the leaves under it. An audit path, whoever
supplies it, then opens the root of a tree only for the leaf that tree has there, and a consistency path
that ends at the root of a tree begins at the root of its prefix. Each is the converse of a completeness
theorem of `Verify`, by the same peeling of the top node.
-/

namespace AhlMirror.Merkle

variable {H : Type} {node : H → H → H} (hnode : Function.Injective2 node)
include hnode

theorem spanRoot_binding {leaf leaf' : Nat → H} {offset size : Nat} (hsize : 1 ≤ size)
    (hroot : spanRoot node leaf offset size = spanRoot node leaf' offset size) :
    ∀ i, offset ≤ i → i < offset + size → leaf i = leaf' i := by
  revert hroot
  refine span_induction (fun offset hroot i hlow hhigh => ?_) (fun offset size htwo ihl ihr hroot i hlow hhigh => ?_)
    offset size hsize
  · obtain rfl : i = offset := by omega
    exact hroot
  · rw [spanRoot_split node leaf offset htwo, spanRoot_split node leaf' offset htwo] at hroot
    obtain ⟨hleft, hright⟩ := hnode hroot
    by_cases hi : i < offset + splitPoint size
    · exact ihl hleft i hlow hi
    · exact ihr hright i (by omega) (by omega)

theorem mth_binding {empty : H} {leaves leaves' : List H} (hlength : leaves.length = leaves'.length)
    (hroot : mth node empty leaves = mth node empty leaves') : leaves = leaves' := by
  rcases Nat.eq_zero_or_pos leaves.length with hzero | hpos
  · rw [List.length_eq_zero_iff.1 hzero, List.length_eq_zero_iff.1 (hlength.symm.trans hzero)]
  · have hread : ∀ list : List H, 1 ≤ list.length →
        mth node empty list = spanRoot node (fun i => list[i]?.getD empty) 0 list.length := by
      intro list hone
      exact mthFuel_eq_spanRoot node empty list.length list _ 0 hone le_rfl fun i hi => by simp [hi]
    rw [hread leaves hpos, hread leaves' (hlength ▸ hpos), ← hlength] at hroot
    refine List.ext_getElem hlength fun i hi hi' => ?_
    have h := spanRoot_binding hnode hpos hroot i (Nat.zero_le i) (by omega)
    simpa [hi, hi'] using h

theorem openPathFuel_binding {leaf : Nat → H} (fuel : Nat) : ∀ {offset size index : Nat} {leafHash : H} {path : List H},
    index < size → openPathFuel node fuel size index leafHash path = some (spanRoot node leaf offset size) →
      leafHash = leaf (offset + index) := by
  induction fuel with
  | zero =>
    intro offset size index leafHash path _ hopens
    cases hopens
  | succ fuel ih =>
    intro offset size index leafHash path hindex hopens
    rw [openPathFuel] at hopens
    by_cases hone : size ≤ 1
    · obtain rfl : size = 1 := by omega
      obtain rfl : index = 0 := by omega
      rw [if_pos hone] at hopens
      split_ifs at hopens
      exact Option.some.inj hopens
    · rw [if_neg hone, spanRoot_split node leaf offset (show 2 ≤ size by omega)] at hopens
      obtain ⟨sibling, -, hopens⟩ := Option.bind_eq_some_iff.1 hopens
      split_ifs at hopens with hleft
      · obtain ⟨root, hroot, hjoin⟩ := Option.map_eq_some_iff.1 hopens
        rw [(hnode hjoin).1] at hroot
        exact ih hleft hroot
      · obtain ⟨root, hroot, hjoin⟩ := Option.map_eq_some_iff.1 hopens
        rw [(hnode hjoin).2] at hroot
        rw [ih (by omega) hroot, Nat.add_assoc, Nat.add_sub_cancel' (not_lt.1 hleft)]

theorem openPath_binding {leaf : Nat → H} {offset size index : Nat} {leafHash : H} {path : List H} (hindex : index < size)
    (hopens : openPath node size index leafHash path = some (spanRoot node leaf offset size)) :
    leafHash = leaf (offset + index) :=
  openPathFuel_binding hnode size hindex hopens

theorem openConsistencyFuel_binding {leaf : Nat → H} {oldRoot : H} (fuel : Nat) :
    ∀ {offset size old : Nat} {anchored : Bool} {path : List H} {first : H}, 1 ≤ old → old ≤ size →
      openConsistencyFuel node oldRoot fuel size old anchored path = some (first, spanRoot node leaf offset size) →
        first = spanRoot node leaf offset old := by
  induction fuel with
  | zero =>
    intro offset size old anchored path first _ _ hopens
    cases hopens
  | succ fuel ih =>
    intro offset size old anchored path first hold hsize hopens
    rw [openConsistencyFuel] at hopens
    by_cases hall : size ≤ old
    · obtain rfl : old = size := by omega
      rw [if_pos hall] at hopens
      split_ifs at hopens
      · obtain ⟨rfl, hroot⟩ := Prod.mk.inj (Option.some.inj hopens)
        exact hroot
      · obtain ⟨root, -, hpair⟩ := Option.map_eq_some_iff.1 hopens
        obtain ⟨rfl, hroot⟩ := Prod.mk.inj hpair
        exact hroot
    · have htwo : 2 ≤ size := by omega
      have hhalf := le_two_mul_splitPoint htwo
      rw [if_neg hall, spanRoot_split node leaf offset htwo] at hopens
      obtain ⟨sibling, -, hopens⟩ := Option.bind_eq_some_iff.1 hopens
      split_ifs at hopens with hleft
      · obtain ⟨⟨first', second⟩, hrest, hpair⟩ := Option.map_eq_some_iff.1 hopens
        obtain ⟨rfl, hjoin⟩ := Prod.mk.inj hpair
        rw [show second = _ from (hnode hjoin).1] at hrest
        exact ih hold hleft hrest
      · obtain ⟨⟨first', second⟩, hrest, hpair⟩ := Option.map_eq_some_iff.1 hopens
        obtain ⟨rfl, hjoin⟩ := Prod.mk.inj hpair
        obtain ⟨hsibling, hright⟩ := hnode hjoin
        rw [show second = _ from hright] at hrest
        -- past the split, the older tree splits at the same point
        have hsplit : splitPoint old = splitPoint size := by
          obtain ⟨level, hlevel⟩ := splitPoint_eq_two_pow_log2 size
          rw [hlevel] at hleft hhalf ⊢
          exact splitPoint_eq (by omega) (by rw [pow_succ]; omega)
        have hpos := splitPoint_pos size
        rw [spanRoot_split node leaf offset (show 2 ≤ old by omega), hsplit, hsibling, ih (by omega) (by omega) hrest]

/-- A consistency path that ends at the root of a tree begins at the root of its first `old` leaves. -/
theorem openConsistency_binding {leaf : Nat → H} {oldRoot : H} {old size : Nat} {path : List H} (hold : 1 ≤ old)
    (hsize : old ≤ size)
    (hopens : openConsistency node oldRoot old size path = some (oldRoot, spanRoot node leaf 0 size)) :
    oldRoot = spanRoot node leaf 0 old :=
  openConsistencyFuel_binding hnode size hold hsize hopens

end AhlMirror.Merkle
