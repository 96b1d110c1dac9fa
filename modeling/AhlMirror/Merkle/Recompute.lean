import Mathlib.Logic.Function.Basic
import AhlMirror.Core.Indexed
import AhlMirror.Merkle.RangeSpans

/-!
# A verifier that uses up what it is handed

`recompute` is the descent of a range proof's verifier over leaves and roots that somebody else chose: it
takes the next root for a subtree outside the window and the next leaf at a leaf of the window. Where no two
pairs of nodes have one parent, it yields the root of a tree only from that tree's own leaves: the top
parent fixes both halves, and so on down (`recompute_leaves`). If nothing is left over, the leaves are the
window of that tree, all of it (`recompute_window`).
-/

namespace AhlMirror.Merkle

open AhlMirror.Core (Indexed)

variable {H : Type} (node : H → H → H) (empty : H) (start stop : Nat)

/-- `recompute` with explicit fuel; it runs out only over no leaves. -/
def recomputeFuel : Nat → Nat → Nat → List H → List H → Option (H × List H × List H)
  | 0, _, _, leaves, nodes => some (empty, leaves, nodes)
  | fuel + 1, offset, size, leaves, nodes =>
    if Outside start stop offset size then nodes.head?.map fun root => (root, leaves, nodes.tail)
    else if size ≤ 1 then leaves.head?.map fun leaf => (leaf, leaves.tail, nodes)
    else
      (recomputeFuel fuel offset (splitPoint size) leaves nodes).bind fun left =>
        (recomputeFuel fuel (offset + splitPoint size) (size - splitPoint size) left.2.1 left.2.2).bind fun right =>
          some (node left.1 right.1, right.2)

/-- The root recomputed from carried leaves and roots, with the leaves and the roots left over. -/
def recompute (offset size : Nat) (leaves nodes : List H) : Option (H × List H × List H) :=
  recomputeFuel node empty start stop size offset size leaves nodes

/-- The positions of a span that are in the window. -/
def windowOf (offset size : Nat) : List Nat :=
  (List.range' offset size).filter fun i => decide (start ≤ i) && decide (i < stop)

variable {node empty start stop}

theorem windowOf_outside {offset size : Nat} (h : Outside start stop offset size) : windowOf start stop offset size = [] := by
  unfold windowOf
  rw [List.filter_eq_nil_iff]
  intro i hi
  have hrange := List.mem_range'_1.1 hi
  unfold Outside at h
  simp only [Bool.and_eq_true, decide_eq_true_eq]
  omega

theorem windowOf_leaf {offset : Nat} (h : ¬ Outside start stop offset 1) : windowOf start stop offset 1 = [offset] := by
  unfold Outside at h
  unfold windowOf
  rw [List.range'_one, List.filter_cons_of_pos (by simp only [Bool.and_eq_true, decide_eq_true_eq]; omega), List.filter_nil]

theorem windowOf_split (offset : Nat) {size k : Nat} (h : k ≤ size) : windowOf start stop offset size =
    windowOf start stop offset k ++ windowOf start stop (offset + k) (size - k) := by
  unfold windowOf
  rw [← List.filter_append, List.range'_append_1, Nat.add_sub_cancel' h]

theorem windowOf_zero (n : Nat) : windowOf start stop 0 n = ((List.range n).take stop).drop start := by
  have hindexed : Indexed id (List.range n) := by
    unfold Indexed
    rw [List.map_id, List.length_range]
  unfold windowOf
  rw [← List.range_eq_range']
  exact hindexed.filter start stop

theorem recomputeFuel_leaves (hnode : Function.Injective2 node) {leaf : Nat → H} {offset size : Nat} (hsize : 1 ≤ size) :
    ∀ fuel : Nat, size ≤ fuel → ∀ {leaves nodes leaves' nodes' : List H},
      recomputeFuel node empty start stop fuel offset size leaves nodes =
        some (spanRoot node leaf offset size, leaves', nodes') →
      leaves = (windowOf start stop offset size).map leaf ++ leaves' := by
  -- outside the window nothing is taken, at whatever size
  have houtside : ∀ {fuel offset size : Nat} {leaves nodes leaves' nodes' : List H} {root : H},
      Outside start stop offset size →
      recomputeFuel node empty start stop (fuel + 1) offset size leaves nodes = some (root, leaves', nodes') →
      leaves = (windowOf start stop offset size).map leaf ++ leaves' := by
    intro fuel offset size leaves nodes leaves' nodes' root hout h
    rw [recomputeFuel, if_pos hout, Option.map_eq_some_iff] at h
    obtain ⟨carried, -, h⟩ := h
    obtain ⟨-, rfl, -⟩ := h
    rw [windowOf_outside hout]
    rfl
  refine span_induction (P := fun offset size => ∀ fuel : Nat, size ≤ fuel → ∀ {leaves nodes leaves' nodes' : List H},
      recomputeFuel node empty start stop fuel offset size leaves nodes =
        some (spanRoot node leaf offset size, leaves', nodes') →
      leaves = (windowOf start stop offset size).map leaf ++ leaves') ?_ ?_ offset size hsize
  · intro offset fuel hfuel leaves nodes leaves' nodes' h
    obtain ⟨fuel, rfl⟩ : ∃ n, fuel = n + 1 := ⟨fuel - 1, by omega⟩
    by_cases hout : Outside start stop offset 1
    · exact houtside hout h
    · rw [recomputeFuel, if_neg hout, if_pos le_rfl, Option.map_eq_some_iff, spanRoot_leaf] at h
      obtain ⟨carried, hhead, h⟩ := h
      obtain ⟨rfl, rfl, -⟩ := h
      rw [windowOf_leaf hout]
      exact (List.cons_head?_tail hhead).symm
  · intro offset size htwo ihl ihr fuel hfuel leaves nodes leaves' nodes' h
    have hlt := splitPoint_lt htwo
    have hpos := splitPoint_pos size
    obtain ⟨fuel, rfl⟩ : ∃ n, fuel = n + 1 := ⟨fuel - 1, by omega⟩
    by_cases hout : Outside start stop offset size
    · exact houtside hout h
    · rw [recomputeFuel, if_neg hout, if_neg (by omega)] at h
      obtain ⟨⟨left, leavesMid, nodesMid⟩, hleft, h⟩ := Option.bind_eq_some_iff.1 h
      obtain ⟨⟨right, leavesEnd, nodesEnd⟩, hright, h⟩ := Option.bind_eq_some_iff.1 h
      obtain ⟨hroot, hrest⟩ := Prod.mk.inj (Option.some.inj h)
      obtain ⟨rfl, rfl⟩ := Prod.mk.inj hrest
      -- the parent fixes both halves
      rw [spanRoot_split node leaf offset htwo] at hroot
      obtain ⟨rfl, rfl⟩ := hnode hroot
      have hmid : leavesMid = _ ++ _ := ihr fuel (by omega) hright
      rw [ihl fuel (by omega) hleft, hmid, windowOf_split offset hlt.le, List.map_append, List.append_assoc]

theorem recompute_leaves (hnode : Function.Injective2 node) {leaf : Nat → H} {offset size : Nat} (hsize : 1 ≤ size)
    {leaves nodes leaves' nodes' : List H}
    (h : recompute node empty start stop offset size leaves nodes = some (spanRoot node leaf offset size, leaves', nodes')) :
    leaves = (windowOf start stop offset size).map leaf ++ leaves' :=
  recomputeFuel_leaves hnode hsize size le_rfl h

theorem recompute_window (hnode : Function.Injective2 node) {tree leaves nodes nodes' : List H}
    (h : recompute node empty start stop 0 tree.length leaves nodes = some (mth node empty tree, [], nodes')) :
    leaves = (tree.take stop).drop start := by
  rcases Nat.eq_zero_or_pos tree.length with hzero | hpos
  · rw [recompute, hzero, recomputeFuel] at h
    obtain rfl : leaves = [] := (Prod.mk.inj (Prod.mk.inj (Option.some.inj h)).2).1
    rw [List.length_eq_zero_iff.1 hzero, List.take_nil, List.drop_nil]
  · let leaf : Nat → H := fun i => tree[i]?.getD empty
    have hleaf : ∀ i (hi : i < tree.length), leaf i = tree[i] := fun i hi => by simp [leaf, hi]
    have hroot : mth node empty tree = spanRoot node leaf 0 tree.length := by
      have hwhole := mth_take node empty tree leaf hpos le_rfl hleaf
      rwa [List.take_length] at hwhole
    have hrange : (List.range tree.length).map leaf = tree :=
      List.ext_getElem (by simp) fun i _ hi => by simp [hleaf i hi]
    rw [hroot] at h
    rw [recompute_leaves hnode hpos h, List.append_nil, windowOf_zero, List.map_drop, List.map_take, hrange]

end AhlMirror.Merkle
