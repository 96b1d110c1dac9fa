import AhlMirror.Merkle.Walk

/-!
# Checking a path against a root

The offline verifiers of the two RFC proofs. `openPath` folds an audit path onto a leaf;
`openConsistency` folds a consistency path onto the older root and yields both roots at once. Each is
complete: on the path a tree has, it yields that tree's roots.
-/

namespace AhlMirror.Merkle

variable {H : Type} (node : H → H → H)

/-- `openPath` with explicit fuel. -/
def openPathFuel : Nat → Nat → Nat → H → List H → Option H
  | 0, _, _, _, _ => none
  | fuel + 1, size, index, leafHash, path =>
    if size ≤ 1 then if path.isEmpty then some leafHash else none
    else path.getLast?.bind fun sibling =>
      if index < splitPoint size then
        (openPathFuel fuel (splitPoint size) index leafHash path.dropLast).map fun root => node root sibling
      else
        (openPathFuel fuel (size - splitPoint size) (index - splitPoint size) leafHash path.dropLast).map
          fun root => node sibling root

/-- The root that an audit path of the leaf at `index` of a tree of `size` leaves opens. -/
def openPath (size index : Nat) (leafHash : H) (path : List H) : Option H :=
  openPathFuel node size size index leafHash path

/-- `openConsistency` with explicit fuel. -/
def openConsistencyFuel (oldRoot : H) : Nat → Nat → Nat → Bool → List H → Option (H × H)
  | 0, _, _, _, _ => none
  | fuel + 1, size, old, anchored, path =>
    if size ≤ old then
      if anchored then if path.isEmpty then some (oldRoot, oldRoot) else none
      else if path.length = 1 then path.head?.map fun root => (root, root) else none
    else path.getLast?.bind fun sibling =>
      if old ≤ splitPoint size then
        (openConsistencyFuel oldRoot fuel (splitPoint size) old anchored path.dropLast).map
          fun roots => (roots.1, node roots.2 sibling)
      else
        (openConsistencyFuel oldRoot fuel (size - splitPoint size) (old - splitPoint size) false path.dropLast).map
          fun roots => (node sibling roots.1, node sibling roots.2)

/-- The two roots that a consistency path from `old` to `size` leaves opens. -/
def openConsistency (oldRoot : H) (old size : Nat) (path : List H) : Option (H × H) :=
  openConsistencyFuel node oldRoot size size old true path

variable (leaf : Nat → H)

theorem openPathFuel_auditPath (fuel : Nat) : ∀ offset size index : Nat, index < size → size ≤ fuel →
    openPathFuel node fuel size index (leaf (offset + index)) (auditPathFuel node leaf fuel offset size index) =
      some (spanRoot node leaf offset size) := by
  induction fuel with
  | zero => intro offset size index hindex hfuel; omega
  | succ fuel ih =>
    intro offset size index hindex hfuel
    rw [openPathFuel, auditPathFuel]
    by_cases hone : size ≤ 1
    · obtain rfl : size = 1 := by omega
      obtain rfl : index = 0 := by omega
      simp [spanRoot_leaf]
    · have hlt := splitPoint_lt (show 2 ≤ size by omega)
      have hpos := splitPoint_pos size
      rw [if_neg hone, if_neg hone, spanRoot_split node leaf offset (show 2 ≤ size by omega)]
      by_cases hleft : index < splitPoint size
      · rw [if_pos hleft, List.getLast?_concat, Option.bind_some, if_pos hleft, List.dropLast_concat,
          ih offset (splitPoint size) index hleft (by omega)]
        rfl
      · have hright := ih (offset + splitPoint size) (size - splitPoint size) (index - splitPoint size) (by omega) (by omega)
        rw [show offset + splitPoint size + (index - splitPoint size) = offset + index by omega] at hright
        rw [if_neg hleft, List.getLast?_concat, Option.bind_some, if_neg hleft, List.dropLast_concat, hright]
        rfl

theorem openPath_auditPath {offset size index : Nat} (hindex : index < size) :
    openPath node size index (leaf (offset + index)) (auditPath node leaf offset size index) =
      some (spanRoot node leaf offset size) :=
  openPathFuel_auditPath node leaf size offset size index hindex le_rfl

theorem openConsistencyFuel_subproof (oldRoot : H) (fuel : Nat) : ∀ (offset size old : Nat) (anchored : Bool),
    1 ≤ old → old ≤ size → size ≤ fuel → (anchored = true → oldRoot = spanRoot node leaf offset old) →
      openConsistencyFuel node oldRoot fuel size old anchored (subproofFuel node leaf fuel offset size old anchored) =
        some (spanRoot node leaf offset old, spanRoot node leaf offset size) := by
  induction fuel with
  | zero => intro offset size old anchored hold hsize hfuel; omega
  | succ fuel ih =>
    intro offset size old anchored hold hsize hfuel hroot
    rw [openConsistencyFuel, subproofFuel]
    by_cases hall : size ≤ old
    · obtain rfl : old = size := by omega
      cases anchored with
      | true => simp [← hroot rfl]
      | false => simp
    · have hlt := splitPoint_lt (show 2 ≤ size by omega)
      have hpos := splitPoint_pos size
      have hhalf := le_two_mul_splitPoint (show 2 ≤ size by omega)
      rw [if_neg hall, if_neg hall, spanRoot_split node leaf offset (show 2 ≤ size by omega)]
      by_cases hleft : old ≤ splitPoint size
      · rw [if_pos hleft, List.getLast?_concat, Option.bind_some, if_pos hleft, List.dropLast_concat,
          ih offset (splitPoint size) old anchored hold hleft (by omega) hroot]
        rfl
      · -- past the split, the older tree splits at the same point
        have hsplit : splitPoint old = splitPoint size := by
          obtain ⟨level, hlevel⟩ := splitPoint_eq_two_pow_log2 size
          rw [hlevel] at hleft hhalf ⊢
          exact splitPoint_eq (by omega) (by rw [pow_succ]; omega)
        rw [if_neg hleft, List.getLast?_concat, Option.bind_some, if_neg hleft, List.dropLast_concat,
          ih (offset + splitPoint size) (size - splitPoint size) (old - splitPoint size) false (by omega) (by omega)
            (by omega) (by simp),
          spanRoot_split node leaf offset (show 2 ≤ old by omega), hsplit]
        rfl

theorem openConsistency_consistencyPath {old size : Nat} (hold : 1 ≤ old) (hsize : old ≤ size) :
    openConsistency node (spanRoot node leaf 0 old) old size (consistencyPath node leaf old size) =
      some (spanRoot node leaf 0 old, spanRoot node leaf 0 size) := by
  unfold openConsistency consistencyPath
  split_ifs with htrivial
  · obtain rfl : old = size := by omega
    obtain ⟨n, rfl⟩ : ∃ n, old = n + 1 := ⟨old - 1, by omega⟩
    simp [openConsistencyFuel]
  · exact openConsistencyFuel_subproof node leaf _ size 0 size old true hold hsize le_rfl fun _ => rfl

end AhlMirror.Merkle
