import Mathlib.Data.Nat.Log
import Mathlib.Data.List.Basic
import Mathlib.Data.List.TakeDrop
import Mathlib.Tactic.Ring
import Mathlib.Tactic.Linarith

/-!
# RFC 6962 trees over an arbitrary node hash

The tree over a span of `size` leaves splits at the largest power of two below `size`
(`splitPoint`). `mth` is the RFC's Merkle tree hash of a leaf list; `spanRoot leaf offset size` is
the same root read off a leaf function, which is the form every proof works with (`mth_slice`
joins the two). `nodeRoot leaf level index` is the root of the perfect subtree
`[index * 2 ^ level, (index + 1) * 2 ^ level)`, the shape a node store keeps.
-/

namespace AhlMirror.Merkle

/-! ### The split point -/

/-- The largest power of two strictly below `n`, for `n ≥ 2`. -/
def splitPoint (n : Nat) : Nat := 2 ^ Nat.log2 (n - 1)

theorem splitPoint_pos (n : Nat) : 0 < splitPoint n := Nat.two_pow_pos _

theorem splitPoint_lt {n : Nat} (h : 2 ≤ n) : splitPoint n < n := by
  have hle : 2 ^ Nat.log2 (n - 1) ≤ n - 1 := Nat.log2_self_le (by omega)
  unfold splitPoint
  omega

theorem le_two_mul_splitPoint {n : Nat} (h : 2 ≤ n) : n ≤ 2 * splitPoint n := by
  have hlt : n - 1 < 2 ^ (Nat.log2 (n - 1) + 1) := Nat.lt_log2_self
  rw [pow_succ] at hlt
  unfold splitPoint
  omega

theorem splitPoint_eq {n level : Nat} (hlow : 2 ^ level < n) (hhigh : n ≤ 2 ^ (level + 1)) :
    splitPoint n = 2 ^ level := by
  have hne : n - 1 ≠ 0 := by
    have := Nat.two_pow_pos level
    omega
  have hlog : Nat.log2 (n - 1) = level := by
    rw [Nat.log2_eq_iff hne]
    have := Nat.two_pow_pos (level + 1)
    omega
  rw [splitPoint, hlog]

theorem splitPoint_two_pow (level : Nat) : splitPoint (2 ^ (level + 1)) = 2 ^ level :=
  splitPoint_eq (Nat.pow_lt_pow_right (by omega) (by omega)) le_rfl

theorem clog_splitPoint {n : Nat} (h : 2 ≤ n) : Nat.clog 2 n = Nat.clog 2 (splitPoint n) + 1 := by
  have hlow := splitPoint_lt h
  have hhigh := le_two_mul_splitPoint h
  unfold splitPoint at hlow hhigh ⊢
  rw [Nat.clog_pow 2 _ (by omega)]
  apply Nat.le_antisymm
  · apply Nat.clog_le_of_le_pow
    rw [pow_succ]
    omega
  · apply Nat.succ_le_of_lt
    apply lt_of_not_ge
    intro hle
    have := (Nat.clog_le_iff_le_pow (by omega)).1 hle
    omega

theorem splitPoint_eq_two_pow_log2 (n : Nat) : ∃ level, splitPoint n = 2 ^ level := ⟨_, rfl⟩

/-! ### Roots -/

variable {H : Type} (node : H → H → H)

/-- `spanRoot` with explicit fuel, so that it evaluates. -/
def spanRootFuel (leaf : Nat → H) : Nat → Nat → Nat → H
  | 0, offset, _ => leaf offset
  | fuel + 1, offset, size =>
    if size ≤ 1 then leaf offset
    else node (spanRootFuel leaf fuel offset (splitPoint size))
      (spanRootFuel leaf fuel (offset + splitPoint size) (size - splitPoint size))

/-- The root of the tree over the leaves `[offset, offset + size)`, for `size ≥ 1`. -/
def spanRoot (leaf : Nat → H) (offset size : Nat) : H := spanRootFuel node leaf size offset size

theorem spanRootFuel_eq (leaf : Nat → H) {fuel : Nat} :
    ∀ {offset size : Nat}, size ≤ fuel → spanRootFuel node leaf fuel offset size = spanRoot node leaf offset size := by
  have key : ∀ fuel fuel' offset size : Nat, size ≤ fuel → size ≤ fuel' →
      spanRootFuel node leaf fuel offset size = spanRootFuel node leaf fuel' offset size := by
    intro fuel
    induction fuel with
    | zero =>
      intro fuel' offset size hs _
      cases fuel' with
      | zero => rfl
      | succ fuel' => simp only [spanRootFuel, if_pos (show size ≤ 1 by omega)]
    | succ fuel ih =>
      intro fuel' offset size hs hs'
      cases fuel' with
      | zero => simp only [spanRootFuel, if_pos (show size ≤ 1 by omega)]
      | succ fuel' =>
        by_cases hone : size ≤ 1
        · simp only [spanRootFuel, if_pos hone]
        · have hlt := splitPoint_lt (show 2 ≤ size by omega)
          have hpos := splitPoint_pos size
          simp only [spanRootFuel, if_neg hone]
          rw [ih fuel' offset (splitPoint size) (by omega) (by omega),
            ih fuel' (offset + splitPoint size) (size - splitPoint size) (by omega) (by omega)]
  intro offset size hs
  exact key fuel size offset size hs le_rfl

theorem spanRoot_leaf (leaf : Nat → H) (offset : Nat) : spanRoot node leaf offset 1 = leaf offset := rfl

theorem spanRoot_split (leaf : Nat → H) (offset : Nat) {size : Nat} (h : 2 ≤ size) :
    spanRoot node leaf offset size = node (spanRoot node leaf offset (splitPoint size))
      (spanRoot node leaf (offset + splitPoint size) (size - splitPoint size)) := by
  obtain ⟨n, rfl⟩ : ∃ n, size = n + 1 := ⟨size - 1, by omega⟩
  have hlt := splitPoint_lt h
  have hpos := splitPoint_pos (n + 1)
  rw [spanRoot, spanRootFuel, if_neg (by omega), spanRootFuel_eq node leaf (by omega),
    spanRootFuel_eq node leaf (by omega)]

/-- Induction along the splits of a non-empty span. -/
@[elab_as_elim]
theorem span_induction {P : Nat → Nat → Prop} (leaf : ∀ offset, P offset 1)
    (split : ∀ offset size, 2 ≤ size → P offset (splitPoint size) →
      P (offset + splitPoint size) (size - splitPoint size) → P offset size)
    (offset size : Nat) (hsize : 1 ≤ size) : P offset size := by
  induction size using Nat.strong_induction_on generalizing offset with
  | _ size ih =>
    rcases Nat.eq_or_lt_of_le hsize with hone | htwo
    · exact hone ▸ leaf offset
    · have hlt := splitPoint_lt (show 2 ≤ size by omega)
      have hpos := splitPoint_pos size
      exact split offset size htwo (ih _ hlt offset hpos) (ih _ (by omega) _ (by omega))

theorem spanRoot_congr {leaf leaf' : Nat → H} {offset size : Nat} (hsize : 1 ≤ size)
    (h : ∀ i, offset ≤ i → i < offset + size → leaf i = leaf' i) :
    spanRoot node leaf offset size = spanRoot node leaf' offset size := by
  revert h
  refine span_induction (fun offset h => ?_) (fun offset size htwo ihl ihr h => ?_) offset size hsize
  · exact h offset le_rfl (by omega)
  · have hlt := splitPoint_lt htwo
    rw [spanRoot_split node leaf offset htwo, spanRoot_split node leaf' offset htwo,
      ihl (fun i hlow hhigh => h i hlow (by omega)), ihr (fun i hlow hhigh => h i (by omega) (by omega))]

/-- The root of the perfect subtree over `[index * 2 ^ level, (index + 1) * 2 ^ level)`. -/
def nodeRoot (leaf : Nat → H) (level index : Nat) : H :=
  spanRoot node leaf (index * 2 ^ level) (2 ^ level)

@[simp] theorem nodeRoot_zero (leaf : Nat → H) (index : Nat) : nodeRoot node leaf 0 index = leaf index := by
  simp [nodeRoot, spanRoot_leaf]

theorem nodeRoot_succ (leaf : Nat → H) (level index : Nat) :
    nodeRoot node leaf (level + 1) index =
      node (nodeRoot node leaf level (2 * index)) (nodeRoot node leaf level (2 * index + 1)) := by
  have htwo : 2 ≤ 2 ^ (level + 1) := by
    have := Nat.two_pow_pos level
    rw [pow_succ]
    omega
  unfold nodeRoot
  rw [spanRoot_split node leaf _ htwo, splitPoint_two_pow]
  congr 2
  · ring
  · ring
  · rw [pow_succ]
    omega

theorem nodeRoot_congr {leaf leaf' : Nat → H} {level index bound : Nat}
    (hbound : (index + 1) * 2 ^ level ≤ bound) (h : ∀ i, i < bound → leaf i = leaf' i) :
    nodeRoot node leaf level index = nodeRoot node leaf' level index := by
  refine spanRoot_congr node (Nat.two_pow_pos level) fun i _ hhigh => h i ?_
  rw [Nat.add_mul] at hbound
  omega

/-! ### The RFC's Merkle tree hash of a list -/

/-- `mth` with explicit fuel. -/
def mthFuel (empty : H) : Nat → List H → H
  | 0, _ => empty
  | _ + 1, [] => empty
  | _ + 1, [leaf] => leaf
  | fuel + 1, leaves =>
    node (mthFuel empty fuel (leaves.take (splitPoint leaves.length)))
      (mthFuel empty fuel (leaves.drop (splitPoint leaves.length)))

/-- The Merkle tree hash of RFC 6962 §2.1 over already hashed leaves; `empty` is the hash of no leaves. -/
def mth (empty : H) (leaves : List H) : H := mthFuel node empty leaves.length leaves

theorem mthFuel_eq_spanRoot (empty : H) (fuel : Nat) :
    ∀ (leaves : List H) (leaf : Nat → H) (offset : Nat), 1 ≤ leaves.length → leaves.length ≤ fuel →
      (∀ i (h : i < leaves.length), leaf (offset + i) = leaves[i]) →
      mthFuel node empty fuel leaves = spanRoot node leaf offset leaves.length := by
  induction fuel with
  | zero => intro leaves leaf offset hone hfuel _; omega
  | succ fuel ih =>
    intro leaves leaf offset hone hfuel hleaf
    match leaves, hone with
    | [d], _ =>
      have := hleaf 0 (by simp)
      simpa [mthFuel, spanRoot_leaf] using this.symm
    | a :: b :: rest, _ =>
      have htwo : 2 ≤ (a :: b :: rest).length := by simp
      have hlt := splitPoint_lt htwo
      have hpos := splitPoint_pos (a :: b :: rest).length
      set leaves := a :: b :: rest with hleaves
      have hstep : mthFuel node empty (fuel + 1) leaves =
          node (mthFuel node empty fuel (leaves.take (splitPoint leaves.length)))
            (mthFuel node empty fuel (leaves.drop (splitPoint leaves.length))) := rfl
      rw [hstep, spanRoot_split node leaf offset htwo,
        ih (leaves.take (splitPoint leaves.length)) leaf offset (by rw [List.length_take]; omega)
          (by rw [List.length_take]; omega) (fun i hi => by
            rw [List.length_take] at hi
            rw [List.getElem_take]
            exact hleaf i (by omega)),
        ih (leaves.drop (splitPoint leaves.length)) leaf (offset + splitPoint leaves.length)
          (by rw [List.length_drop]; omega) (by rw [List.length_drop]; omega) (fun i hi => by
            rw [List.length_drop] at hi
            rw [List.getElem_drop, Nat.add_assoc]
            exact hleaf _ (by omega))]
      rw [List.length_take, List.length_drop, Nat.min_eq_left hlt.le]

theorem mth_slice (empty : H) (leaves : List H) (leaf : Nat → H) {offset size : Nat} (hsize : 1 ≤ size)
    (hbound : offset + size ≤ leaves.length) (hleaf : ∀ i (h : i < leaves.length), leaf i = leaves[i]) :
    mth node empty ((leaves.drop offset).take size) = spanRoot node leaf offset size := by
  have hlen : ((leaves.drop offset).take size).length = size := by
    rw [List.length_take, List.length_drop]
    omega
  have h := mthFuel_eq_spanRoot node empty size ((leaves.drop offset).take size) leaf offset
    (by omega) (by omega) (fun i hi => by
      rw [List.getElem_take, List.getElem_drop]
      exact hleaf _ _)
  rw [hlen] at h
  rw [mth, hlen, h]

theorem mth_take (empty : H) (leaves : List H) (leaf : Nat → H) {size : Nat} (hsize : 1 ≤ size)
    (hbound : size ≤ leaves.length) (hleaf : ∀ i (h : i < leaves.length), leaf i = leaves[i]) :
    mth node empty (leaves.take size) = spanRoot node leaf 0 size := by
  have h := mth_slice node empty leaves leaf hsize (show 0 + size ≤ leaves.length by omega) hleaf
  rwa [List.drop_zero] at h

end AhlMirror.Merkle
