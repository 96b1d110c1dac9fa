import AhlMirror.Model.Symbolic
import AhlMirror.Store.RangeResponse

/-!
# The geometry of a range proof

`outside_subtrees` calls itself on the two halves of a span that straddles the window. `Pushes` says that
a call returns and what it pushed, `Visits` which calls are made. Every call returns, none of its
saturating operations saturates, and what is pushed partitions the tree with the window
(`range_geometry`).
-/

namespace AhlMirror

open Merkle

/-- `k` is the largest power of two strictly below `size`. -/
def LargestPowerBelow (k size : Nat) : Prop :=
  (∃ level, k = 2 ^ level) ∧ k < size ∧ ∀ level, 2 ^ level < size → 2 ^ level ≤ k

variable {H K : Type}

section calls
variable (crates : Crates H K) (fromIndex toIndex : Nat)

/-- The call on a span returns, having pushed these spans. -/
inductive Pushes : Nat → Nat → List (Nat × Nat) → Prop
  | outside {offset size : Nat} : classify offset size fromIndex toIndex = .outside →
      Pushes offset size [(offset, size)]
  | inside {offset size : Nat} : classify offset size fromIndex toIndex = .inside → Pushes offset size []
  | straddles {offset size : Nat} {left right : List (Nat × Nat)} :
      classify offset size fromIndex toIndex = .straddles → Pushes offset (crates.largestPowerOf2LessThan size) left →
      Pushes (saturatingAdd offset (crates.largestPowerOf2LessThan size)) (size - crates.largestPowerOf2LessThan size) right →
      Pushes offset size (left ++ right)

/-- The calls made for a tree. -/
inductive Visits (treeSize : Nat) : Nat → Nat → Prop
  | root : Visits treeSize 0 treeSize
  | left {offset size : Nat} : Visits treeSize offset size → classify offset size fromIndex toIndex = .straddles →
      Visits treeSize offset (crates.largestPowerOf2LessThan size)
  | right {offset size : Nat} : Visits treeSize offset size → classify offset size fromIndex toIndex = .straddles →
      Visits treeSize (saturatingAdd offset (crates.largestPowerOf2LessThan size))
        (size - crates.largestPowerOf2LessThan size)

/-- None of the saturating operations of a call saturates. -/
structure Unsaturated (offset size : Nat) : Prop where
  stop : saturatingAdd offset size = offset + size
  middle : classify offset size fromIndex toIndex = .straddles →
    saturatingAdd offset (crates.largestPowerOf2LessThan size) = offset + crates.largestPowerOf2LessThan size
  rest : classify offset size fromIndex toIndex = .straddles → crates.largestPowerOf2LessThan size ≤ size

end calls

/-- The spans partition the tree with the window: from left to right, each a subtree outside the window
that no larger one contains. -/
structure Partitions (treeSize start stop : Nat) (spans : List (Nat × Nat)) : Prop where
  nonempty : ∀ span ∈ spans, 1 ≤ span.2
  ordered : spans.Pairwise fun a b => a.1 < b.1 ∧ a.1 + a.2 ≤ b.1
  outside : ∀ span ∈ spans, ∀ i, span.1 ≤ i → i < span.1 + span.2 → ¬ (start ≤ i ∧ i < stop)
  cover : ∀ i, i < treeSize ↔ (start ≤ i ∧ i < stop) ∨ ∃ span ∈ spans, span.1 ≤ i ∧ i < span.1 + span.2
  maximal : ∀ o s, (o, s) ∈ spans ↔ MaximalOutside start stop 0 treeSize o s
  length_le : spans.length ≤ 2 * Nat.clog 2 treeSize

theorem splitPoint_largest {n : Nat} (h : 2 ≤ n) : LargestPowerBelow (splitPoint n) n := by
  refine ⟨splitPoint_eq_two_pow_log2 n, splitPoint_lt h, fun level hlevel => ?_⟩
  apply Nat.pow_le_pow_right (by omega)
  exact (Nat.le_log2 (by omega)).2 (by omega)

theorem LargestPowerBelow.eq_splitPoint {k n : Nat} (h : LargestPowerBelow k n) (htwo : 2 ≤ n) : k = splitPoint n := by
  obtain ⟨⟨level, rfl⟩, hlt, hlargest⟩ := h
  obtain ⟨⟨level', hlevel'⟩, hlt', hlargest'⟩ := splitPoint_largest htwo
  rw [hlevel'] at hlt' hlargest' ⊢
  exact Nat.le_antisymm (hlargest' level hlt) (hlargest level' hlt')

variable {crates : Crates H K} {start stop : Nat}

/-! ### Calls -/

theorem Pushes.unique {offset size : Nat} {spans spans' : List (Nat × Nat)} (h : Pushes crates start stop offset size spans)
    (h' : Pushes crates start stop offset size spans') : spans = spans' := by
  induction h generalizing spans' with
  | outside hclass =>
    cases h' with
    | outside => rfl
    | inside hclass' => exact absurd (hclass.symm.trans hclass') (by simp)
    | straddles hclass' => exact absurd (hclass.symm.trans hclass') (by simp)
  | inside hclass =>
    cases h' with
    | outside hclass' => exact absurd (hclass.symm.trans hclass') (by simp)
    | inside => rfl
    | straddles hclass' => exact absurd (hclass.symm.trans hclass') (by simp)
  | straddles hclass _ _ ihl ihr =>
    cases h' with
    | outside hclass' => exact absurd (hclass.symm.trans hclass') (by simp)
    | inside hclass' => exact absurd (hclass.symm.trans hclass') (by simp)
    | straddles _ hleft hright => rw [ihl hleft, ihr hright]

theorem straddles_iff {offset size : Nat} (hbound : offset + size < u64Bound) :
    classify offset size start stop = .straddles ↔ ¬ Outside start stop offset size ∧ ¬ Inside start stop offset size := by
  rw [classify_eq hbound]
  split_ifs with hout hin
  · simp [hout]
  · simp [hout, hin]
  · simp [hout, hin]

variable (hpower : ∀ size, 2 ≤ size → LargestPowerBelow (crates.largestPowerOf2LessThan size) size)
include hpower

theorem pushes_outsideSpans {offset size : Nat} (hsize : 1 ≤ size) : offset + size < u64Bound →
    Pushes crates start stop offset size (outsideSpans start stop offset size) := by
  refine window_induction start stop (P := fun offset size => offset + size < u64Bound →
      Pushes crates start stop offset size (outsideSpans start stop offset size)) ?_ ?_ ?_ offset size hsize
  · intro offset size hone hout hbound
    rw [outsideSpans_eq hone, if_pos hout]
    apply Pushes.outside
    rw [classify_eq hbound, if_pos hout]
  · intro offset size hone hout hin hbound
    rw [outsideSpans_eq hone, if_neg hout, if_pos hin]
    apply Pushes.inside
    rw [classify_eq hbound, if_neg hout, if_pos hin]
  · intro offset size htwo hout hin ihl ihr hbound
    have hlt := splitPoint_lt htwo
    have hsplit := (hpower size htwo).eq_splitPoint htwo
    rw [outsideSpans_eq (by omega), if_neg hout, if_neg hin]
    apply Pushes.straddles ((straddles_iff hbound).2 ⟨hout, hin⟩)
    · rw [hsplit]
      exact ihl (by omega)
    · rw [hsplit, saturatingAdd_of_lt (by omega)]
      exact ihr (by omega)

theorem Visits.within {treeSize offset size : Nat} (hone : 1 ≤ treeSize) (hu64 : treeSize < u64Bound)
    (h : Visits crates start stop treeSize offset size) : 1 ≤ size ∧ offset + size ≤ treeSize := by
  induction h with
  | root => exact ⟨hone, by omega⟩
  | @left offset size _ hclass ih =>
    obtain ⟨hout, hin⟩ := (straddles_iff (by omega)).1 hclass
    have htwo := two_le_of_straddles ih.1 hout hin
    rw [(hpower size htwo).eq_splitPoint htwo]
    have := splitPoint_lt htwo
    exact ⟨splitPoint_pos size, by omega⟩
  | @right offset size _ hclass ih =>
    obtain ⟨hout, hin⟩ := (straddles_iff (by omega)).1 hclass
    have htwo := two_le_of_straddles ih.1 hout hin
    have hlt := splitPoint_lt htwo
    rw [(hpower size htwo).eq_splitPoint htwo, saturatingAdd_of_lt (by omega)]
    exact ⟨by omega, by omega⟩

theorem Visits.unsaturated {treeSize offset size : Nat} (hone : 1 ≤ treeSize) (hu64 : treeSize < u64Bound)
    (h : Visits crates start stop treeSize offset size) : Unsaturated crates start stop offset size := by
  obtain ⟨hsize, hle⟩ := h.within hpower hone hu64
  have hbelow : classify offset size start stop = .straddles → crates.largestPowerOf2LessThan size < size := by
    intro hclass
    obtain ⟨hout, hin⟩ := (straddles_iff (by omega)).1 hclass
    exact (hpower size (two_le_of_straddles hsize hout hin)).2.1
  refine ⟨saturatingAdd_of_lt (by omega), fun hclass => saturatingAdd_of_lt ?_, fun hclass => (hbelow hclass).le⟩
  have := hbelow hclass
  omega

omit hpower in
theorem partitions_outsideSpans {treeSize : Nat} (hlt : start < stop) (hle : stop ≤ treeSize) :
    Partitions treeSize start stop (outsideSpans start stop 0 treeSize) := by
  have hone : 1 ≤ treeSize := by omega
  have hmem : ∀ o s, (o, s) ∈ outsideSpans start stop 0 treeSize ↔ MaximalOutside start stop 0 treeSize o s :=
    mem_outsideSpans_iff hone
  refine ⟨fun span hspan => (outsideSpans_within hone hspan).1, ?_, fun span hspan i hlow hhigh hwindow => ?_,
    fun i => ⟨fun hi => outsideSpans_cover hone i (Nat.zero_le i) (by omega), ?_⟩, hmem, ?_⟩
  · exact (outsideSpans_sorted hone).and (outsideSpans_disjoint hone)
  · have hout := ((hmem span.1 span.2).1 hspan).outside
    unfold Outside at hout
    omega
  · rintro (hwindow | ⟨span, hspan, -, hhigh⟩)
    · omega
    · have := outsideSpans_within hone hspan
      omega
  · have hstraddles : ¬ Outside start stop 0 treeSize := by
      unfold Outside
      omega
    have hlength := length_outsideSpans_le hlt hone hstraddles
    split_ifs at hlength <;> omega

/-- **The spans outside a window partition the tree with it.** The walk over a tree returns one list
of spans, its saturating operations are exact at every call, and the list partitions the tree with the
window into at most two spans a level. -/
theorem range_geometry {treeSize : Nat} (hu64 : treeSize < u64Bound) (hlt : start < stop) (hle : stop ≤ treeSize) :
    (∀ spans, Pushes crates start stop 0 treeSize spans ↔ spans = outsideSubtrees crates 0 treeSize start stop) ∧
    (∀ offset size, Visits crates start stop treeSize offset size → Unsaturated crates start stop offset size) ∧
    Partitions treeSize start stop (outsideSubtrees crates 0 treeSize start stop) := by
  have hone : 1 ≤ treeSize := by omega
  have hpushes : Pushes crates start stop 0 treeSize (outsideSpans start stop 0 treeSize) :=
    pushes_outsideSpans hpower hone (by omega)
  rw [outsideSubtrees_eq (fun size htwo => (hpower size htwo).eq_splitPoint htwo) hone hu64]
  refine ⟨fun spans => ⟨fun h => h.unique hpushes, ?_⟩, fun offset size h => h.unsaturated hpower hone hu64,
    partitions_outsideSpans hlt hle⟩
  rintro rfl
  exact hpushes

omit hpower in
theorem range_geometry_seven : Partitions 7 2 5 [(0, 2), (5, 1), (6, 1)] := by
  have hpower : ∀ size, 2 ≤ size →
      LargestPowerBelow ((Symbolic.crates Symbolic.documents).largestPowerOf2LessThan size) size := by
    intro size htwo
    rw [(Symbolic.splitLaws Symbolic.documents).largestPowerOf2LessThan size htwo]
    exact splitPoint_largest htwo
  exact (range_geometry hpower (by decide) (by decide) (by decide)).2.2

end AhlMirror
