import Mathlib.Data.List.Sort
import Mathlib.Data.List.Nodup
import Mathlib.Data.List.Perm.Basic
import AhlMirror.Merkle.Root

/-!
# The subtrees outside a window

A range proof for the window `[start, stop)` of a tree carries, left to right, the roots of the maximal
subtrees of the tree's decomposition that lie outside the window. `MaximalOutside` says which those are;
`outsideSpans` computes them by one descent, and `rebuild` is the verifier's descent, which reads the
carried roots where the window does not reach and folds the window's leaves where it covers.
-/

namespace AhlMirror.Merkle

/-! ### The decomposition -/

/-- `(o, s)` is a subtree of the decomposition of `[offset, offset + size)`. -/
inductive IsSubtree (offset size : Nat) : Nat → Nat → Prop
  | root : IsSubtree offset size offset size
  | left {o s : Nat} : IsSubtree offset size o s → 2 ≤ s → IsSubtree offset size o (splitPoint s)
  | right {o s : Nat} : IsSubtree offset size o s → 2 ≤ s →
      IsSubtree offset size (o + splitPoint s) (s - splitPoint s)

theorem IsSubtree.within {offset size o s : Nat} (hsize : 1 ≤ size) (h : IsSubtree offset size o s) :
    1 ≤ s ∧ offset ≤ o ∧ o + s ≤ offset + size := by
  induction h with
  | root => exact ⟨hsize, le_rfl, le_rfl⟩
  | left _ htwo ih =>
    have := splitPoint_lt htwo
    exact ⟨splitPoint_pos _, ih.2.1, by omega⟩
  | right _ htwo ih =>
    have := splitPoint_lt htwo
    exact ⟨by omega, by omega, by omega⟩

theorem IsSubtree.of_left {offset size o s : Nat} (htwo : 2 ≤ size)
    (h : IsSubtree offset (splitPoint size) o s) : IsSubtree offset size o s := by
  induction h with
  | root => exact .left .root htwo
  | left _ hs ih => exact .left ih hs
  | right _ hs ih => exact .right ih hs

theorem IsSubtree.of_right {offset size o s : Nat} (htwo : 2 ≤ size)
    (h : IsSubtree (offset + splitPoint size) (size - splitPoint size) o s) : IsSubtree offset size o s := by
  induction h with
  | root => exact .right .root htwo
  | left _ hs ih => exact .left ih hs
  | right _ hs ih => exact .right ih hs

theorem IsSubtree.cases_split {offset size o s : Nat} (h : IsSubtree offset size o s) :
    (o = offset ∧ s = size) ∨ IsSubtree offset (splitPoint size) o s ∨
      IsSubtree (offset + splitPoint size) (size - splitPoint size) o s := by
  induction h with
  | root => exact Or.inl ⟨rfl, rfl⟩
  | left _ hs ih =>
    rcases ih with ⟨rfl, rfl⟩ | hleft | hright
    · exact Or.inr (Or.inl .root)
    · exact Or.inr (Or.inl (.left hleft hs))
    · exact Or.inr (Or.inr (.left hright hs))
  | right _ hs ih =>
    rcases ih with ⟨rfl, rfl⟩ | hleft | hright
    · exact Or.inr (Or.inr .root)
    · exact Or.inr (Or.inl (.right hleft hs))
    · exact Or.inr (Or.inr (.right hright hs))

/-! ### The spans outside a window -/

section window
variable (start stop : Nat)

/-- The span has no leaf in the window. -/
def Outside (offset size : Nat) : Prop := offset + size ≤ start ∨ stop ≤ offset

/-- Every leaf of the span is in the window. -/
def Inside (offset size : Nat) : Prop := start ≤ offset ∧ offset + size ≤ stop

instance (offset size : Nat) : Decidable (Outside start stop offset size) := inferInstanceAs (Decidable (_ ∨ _))

instance (offset size : Nat) : Decidable (Inside start stop offset size) := inferInstanceAs (Decidable (_ ∧ _))

/-- A subtree outside the window that no larger subtree outside it contains. -/
structure MaximalOutside (offset size o s : Nat) : Prop where
  subtree : IsSubtree offset size o s
  outside : Outside start stop o s
  maximal : ∀ o' s', IsSubtree offset size o' s' → Outside start stop o' s' → o' ≤ o → o + s ≤ o' + s' →
    o' = o ∧ s' = s

/-- `outsideSpans` with explicit fuel. -/
def outsideSpansFuel : Nat → Nat → Nat → List (Nat × Nat)
  | 0, _, _ => []
  | fuel + 1, offset, size =>
    if Outside start stop offset size then [(offset, size)]
    else if Inside start stop offset size then []
    else outsideSpansFuel fuel offset (splitPoint size) ++
      outsideSpansFuel fuel (offset + splitPoint size) (size - splitPoint size)

/-- The maximal subtrees of `[offset, offset + size)` outside the window, left to right. -/
def outsideSpans (offset size : Nat) : List (Nat × Nat) := outsideSpansFuel start stop size offset size

variable {start stop}

theorem two_le_of_straddles {offset size : Nat} (hsize : 1 ≤ size) (hout : ¬ Outside start stop offset size)
    (hin : ¬ Inside start stop offset size) : 2 ≤ size := by
  unfold Outside at hout
  unfold Inside at hin
  omega

theorem outsideSpansFuel_eq {fuel : Nat} : ∀ {offset size : Nat}, 1 ≤ size → size ≤ fuel →
    outsideSpansFuel start stop fuel offset size = outsideSpans start stop offset size := by
  have key : ∀ fuel fuel' offset size : Nat, 1 ≤ size → size ≤ fuel → size ≤ fuel' →
      outsideSpansFuel start stop fuel offset size = outsideSpansFuel start stop fuel' offset size := by
    intro fuel
    induction fuel with
    | zero => intro fuel' offset size hone hs _; omega
    | succ fuel ih =>
      intro fuel' offset size hone hs hs'
      cases fuel' with
      | zero => omega
      | succ fuel' =>
        rw [outsideSpansFuel, outsideSpansFuel]
        split_ifs with hout hin
        · rfl
        · rfl
        · have hlt := splitPoint_lt (two_le_of_straddles hone hout hin)
          have hpos := splitPoint_pos size
          rw [ih fuel' offset (splitPoint size) hpos (by omega) (by omega),
            ih fuel' _ (size - splitPoint size) (by omega) (by omega) (by omega)]
  intro offset size hone hs
  exact key fuel size offset size hone hs le_rfl

theorem outsideSpans_eq {offset size : Nat} (hsize : 1 ≤ size) :
    outsideSpans start stop offset size =
      if Outside start stop offset size then [(offset, size)]
      else if Inside start stop offset size then []
      else outsideSpans start stop offset (splitPoint size) ++
        outsideSpans start stop (offset + splitPoint size) (size - splitPoint size) := by
  obtain ⟨n, rfl⟩ : ∃ n, size = n + 1 := ⟨size - 1, by omega⟩
  rw [outsideSpans, outsideSpansFuel]
  split_ifs with hout hin
  · rfl
  · rfl
  · have hlt := splitPoint_lt (two_le_of_straddles hsize hout hin)
    have hpos := splitPoint_pos (n + 1)
    rw [outsideSpansFuel_eq hpos (by omega), outsideSpansFuel_eq (by omega) (by omega)]

variable (start stop) in
/-- A span with one of three positions to the window: the induction along the descent. -/
theorem window_induction {P : Nat → Nat → Prop}
    (outside : ∀ offset size, 1 ≤ size → Outside start stop offset size → P offset size)
    (inside : ∀ offset size, 1 ≤ size → ¬ Outside start stop offset size → Inside start stop offset size →
      P offset size)
    (straddles : ∀ offset size, 2 ≤ size → ¬ Outside start stop offset size → ¬ Inside start stop offset size →
      P offset (splitPoint size) → P (offset + splitPoint size) (size - splitPoint size) → P offset size)
    (offset size : Nat) (hsize : 1 ≤ size) : P offset size := by
  refine span_induction (P := fun offset size => P offset size) (fun offset => ?_) (fun offset size htwo ihl ihr => ?_)
    offset size hsize
  · by_cases hout : Outside start stop offset 1
    · exact outside offset 1 le_rfl hout
    · by_cases hin : Inside start stop offset 1
      · exact inside offset 1 le_rfl hout hin
      · exact absurd (two_le_of_straddles le_rfl hout hin) (by omega)
  · by_cases hout : Outside start stop offset size
    · exact outside offset size (by omega) hout
    · by_cases hin : Inside start stop offset size
      · exact inside offset size (by omega) hout hin
      · exact straddles offset size htwo hout hin ihl ihr

/-- The descent finds the maximal subtrees outside the window and no others. -/
theorem mem_outsideSpans_iff {offset size : Nat} (hsize : 1 ≤ size) : ∀ o s : Nat,
    (o, s) ∈ outsideSpans start stop offset size ↔ MaximalOutside start stop offset size o s := by
  refine window_induction start stop (P := fun offset size => ∀ o s : Nat, (o, s) ∈ outsideSpans start stop offset size ↔
      MaximalOutside start stop offset size o s) ?_ ?_ ?_ offset size hsize
  · intro offset size hone hout o s
    rw [outsideSpans_eq hone, if_pos hout, List.mem_singleton, Prod.mk.injEq]
    constructor
    · rintro ⟨rfl, rfl⟩
      refine ⟨.root, hout, fun o' s' hsub _ hlow hhigh => ?_⟩
      have := hsub.within hone
      omega
    · intro h
      have := h.subtree.within hone
      obtain ⟨rfl, rfl⟩ := h.maximal offset size .root hout (by omega) (by omega)
      exact ⟨rfl, rfl⟩
  · intro offset size hone hout hin o s
    rw [outsideSpans_eq hone, if_neg hout, if_pos hin]
    refine ⟨fun h => by simp at h, fun h => ?_⟩
    have hwithin := h.subtree.within hone
    have := h.outside
    unfold Outside at this
    unfold Inside at hin
    omega
  · intro offset size htwo hout hin ihl ihr o s
    have hlt := splitPoint_lt htwo
    have hpos := splitPoint_pos size
    rw [outsideSpans_eq (by omega), if_neg hout, if_neg hin, List.mem_append, ihl, ihr]
    -- a subtree outside the window is not the whole, so it lies in one half
    have hhalf : ∀ o' s', IsSubtree offset size o' s' → Outside start stop o' s' →
        IsSubtree offset (splitPoint size) o' s' ∨
          IsSubtree (offset + splitPoint size) (size - splitPoint size) o' s' := by
      intro o' s' hsub houter
      rcases hsub.cases_split with ⟨rfl, rfl⟩ | hhalf
      · exact absurd houter hout
      · exact hhalf
    constructor
    · rintro (h | h)
      · refine ⟨h.subtree.of_left htwo, h.outside, fun o' s' hsub houter hlow hhigh => ?_⟩
        rcases hhalf o' s' hsub houter with hl | hr
        · exact h.maximal o' s' hl houter hlow hhigh
        · have hwl := h.subtree.within hpos
          have hwr := hr.within (by omega)
          omega
      · refine ⟨h.subtree.of_right htwo, h.outside, fun o' s' hsub houter hlow hhigh => ?_⟩
        rcases hhalf o' s' hsub houter with hl | hr
        · have hwr := h.subtree.within (by omega)
          have hwl := hl.within hpos
          omega
        · exact h.maximal o' s' hr houter hlow hhigh
    · intro h
      rcases hhalf o s h.subtree h.outside with hl | hr
      · exact Or.inl ⟨hl, h.outside, fun o' s' hsub => h.maximal o' s' (hsub.of_left htwo)⟩
      · exact Or.inr ⟨hr, h.outside, fun o' s' hsub => h.maximal o' s' (hsub.of_right htwo)⟩

theorem outsideSpans_within {offset size : Nat} (hsize : 1 ≤ size) {span : Nat × Nat}
    (h : span ∈ outsideSpans start stop offset size) :
    1 ≤ span.2 ∧ offset ≤ span.1 ∧ span.1 + span.2 ≤ offset + size :=
  ((mem_outsideSpans_iff hsize span.1 span.2).1 h).subtree.within hsize

theorem outsideSpans_disjoint {offset size : Nat} (hsize : 1 ≤ size) :
    (outsideSpans start stop offset size).Pairwise fun a b => a.1 + a.2 ≤ b.1 := by
  refine window_induction start stop
    (P := fun offset size => (outsideSpans start stop offset size).Pairwise fun a b => a.1 + a.2 ≤ b.1)
    ?_ ?_ ?_ offset size hsize
  · intro offset size hone hout
    rw [outsideSpans_eq hone, if_pos hout]
    exact List.pairwise_singleton _ _
  · intro offset size hone hout hin
    rw [outsideSpans_eq hone, if_neg hout, if_pos hin]
    exact List.Pairwise.nil
  · intro offset size htwo hout hin ihl ihr
    have hlt := splitPoint_lt htwo
    have hpos := splitPoint_pos size
    rw [outsideSpans_eq (by omega), if_neg hout, if_neg hin]
    refine List.pairwise_append.2 ⟨ihl, ihr, fun a ha b hb => ?_⟩
    have hwa := outsideSpans_within hpos ha
    have hwb := outsideSpans_within (by omega) hb
    omega

theorem outsideSpans_sorted {offset size : Nat} (hsize : 1 ≤ size) :
    (outsideSpans start stop offset size).Pairwise fun a b => a.1 < b.1 := by
  apply (outsideSpans_disjoint hsize).imp_of_mem
  intro a b ha _ hle
  have hwithin := outsideSpans_within hsize ha
  omega

theorem outsideSpans_cover {offset size : Nat} (hsize : 1 ≤ size) : ∀ i, offset ≤ i → i < offset + size →
    (start ≤ i ∧ i < stop) ∨ ∃ span ∈ outsideSpans start stop offset size, span.1 ≤ i ∧ i < span.1 + span.2 := by
  refine window_induction start stop (P := fun offset size => ∀ i, offset ≤ i → i < offset + size →
      (start ≤ i ∧ i < stop) ∨ ∃ span ∈ outsideSpans start stop offset size, span.1 ≤ i ∧ i < span.1 + span.2)
    ?_ ?_ ?_ offset size hsize
  · intro offset size hone hout i hlow hhigh
    rw [outsideSpans_eq hone, if_pos hout]
    exact Or.inr ⟨_, List.mem_singleton_self _, hlow, hhigh⟩
  · intro offset size hone hout hin i hlow hhigh
    exact Or.inl ⟨hin.1.trans hlow, hhigh.trans_le hin.2⟩
  · intro offset size htwo hout hin ihl ihr i hlow hhigh
    have hlt := splitPoint_lt htwo
    rw [outsideSpans_eq (by omega), if_neg hout, if_neg hin]
    by_cases hleft : i < offset + splitPoint size
    · apply (ihl i hlow hleft).imp_right
      rintro ⟨span, hspan, hwithin⟩
      exact ⟨span, List.mem_append_left _ hspan, hwithin⟩
    · apply (ihr i (by omega) (by omega)).imp_right
      rintro ⟨span, hspan, hwithin⟩
      exact ⟨span, List.mem_append_right _ hspan, hwithin⟩

theorem length_outsideSpans_le (hwindow : start < stop) {offset size : Nat} (hsize : 1 ≤ size) :
    ¬ Outside start stop offset size → (outsideSpans start stop offset size).length ≤
      (if offset < start then Nat.clog 2 size else 0) + (if stop < offset + size then Nat.clog 2 size else 0) := by
  refine window_induction start stop (P := fun offset size => ¬ Outside start stop offset size →
      (outsideSpans start stop offset size).length ≤
        (if offset < start then Nat.clog 2 size else 0) + (if stop < offset + size then Nat.clog 2 size else 0))
    ?_ ?_ ?_ offset size hsize
  · intro offset size _ hout hnot
    exact absurd hout hnot
  · intro offset size hone hout hin _
    rw [outsideSpans_eq hone, if_neg hout, if_pos hin]
    exact Nat.zero_le _
  · intro offset size htwo hout hin ihl ihr _
    have hlt := splitPoint_lt htwo
    have hpos := splitPoint_pos size
    have hlevel := clog_splitPoint htwo
    have hright : Nat.clog 2 (size - splitPoint size) ≤ Nat.clog 2 (splitPoint size) := by
      apply Nat.clog_mono_right
      have := le_two_mul_splitPoint htwo
      omega
    rw [outsideSpans_eq (by omega), if_neg hout, if_neg hin, List.length_append]
    by_cases hl : Outside start stop offset (splitPoint size)
    · -- the left half is one span, so the window starts beyond it
      have hr : ¬ Outside start stop (offset + splitPoint size) (size - splitPoint size) := by
        unfold Outside at hout hl ⊢
        omega
      have hrest := ihr hr
      have hone : (outsideSpans start stop offset (splitPoint size)).length = 1 := by
        rw [outsideSpans_eq hpos, if_pos hl]
        rfl
      unfold Outside at hout hl hr
      split_ifs at hrest ⊢ <;> omega
    · have hrest := ihl hl
      by_cases hr : Outside start stop (offset + splitPoint size) (size - splitPoint size)
      · have hone : (outsideSpans start stop (offset + splitPoint size) (size - splitPoint size)).length = 1 := by
          rw [outsideSpans_eq (by omega), if_pos hr]
          rfl
        unfold Outside at hout hl hr
        split_ifs at hrest ⊢ <;> omega
      · -- the window reaches both halves, so it has one end in each
        have hrest' := ihr hr
        unfold Outside at hout hl hr
        split_ifs at hrest hrest' ⊢ <;> omega

theorem eq_outsideSpans {offset size : Nat} (hsize : 1 ≤ size) {spans : List (Nat × Nat)}
    (hsorted : spans.Pairwise fun a b => a.1 < b.1)
    (hmem : ∀ o s, (o, s) ∈ spans ↔ MaximalOutside start stop offset size o s) :
    spans = outsideSpans start stop offset size := by
  have hirrefl : ∀ a b : Nat × Nat, a.1 < b.1 → a ≠ b := fun a b hlt heq => by simp [heq] at hlt
  have hperm : spans.Perm (outsideSpans start stop offset size) :=
    (List.perm_ext_iff_of_nodup (hsorted.imp (hirrefl _ _)) ((outsideSpans_sorted hsize).imp (hirrefl _ _))).2
      fun a => by rw [hmem, mem_outsideSpans_iff hsize]
  exact hperm.eq_of_pairwise (fun a b _ _ hab hba => absurd hab (by omega)) hsorted (outsideSpans_sorted hsize)

end window

/-! ### The verifier's descent -/

section rebuild
variable {H : Type} (node : H → H → H) (window : Nat → H) (start stop : Nat)

/-- `rebuild` with explicit fuel. -/
def rebuildFuel : Nat → Nat → Nat → List H → Option (H × List H)
  | 0, _, _, _ => none
  | fuel + 1, offset, size, nodes =>
    if Outside start stop offset size then nodes.head?.map fun root => (root, nodes.tail)
    else if Inside start stop offset size then some (spanRoot node window offset size, nodes)
    else
      (rebuildFuel fuel offset (splitPoint size) nodes).bind fun left =>
        (rebuildFuel fuel (offset + splitPoint size) (size - splitPoint size) left.2).bind fun right =>
          some (node left.1 right.1, right.2)

/-- The root rebuilt from carried roots and the window's leaves, with the roots left over. -/
def rebuild (offset size : Nat) (nodes : List H) : Option (H × List H) :=
  rebuildFuel node window start stop size offset size nodes

variable {node window start stop}

theorem rebuildFuel_congr {window' : Nat → H} (h : ∀ i, start ≤ i → i < stop → window i = window' i) (fuel : Nat) :
    ∀ (offset size : Nat) (nodes : List H), 1 ≤ size →
      rebuildFuel node window start stop fuel offset size nodes = rebuildFuel node window' start stop fuel offset size nodes := by
  induction fuel with
  | zero => intro offset size nodes _; rfl
  | succ fuel ih =>
    intro offset size nodes hsize
    rw [rebuildFuel, rebuildFuel]
    split_ifs with hout hin
    · rfl
    · rw [spanRoot_congr node hsize fun i hlow hhigh => h i (hin.1.trans hlow) (hhigh.trans_le hin.2)]
    · have hlt := splitPoint_lt (two_le_of_straddles hsize hout hin)
      rw [ih offset _ nodes (splitPoint_pos size)]
      congr 1
      funext left
      rw [ih _ _ left.2 (by omega)]

theorem rebuild_congr {window' : Nat → H} (h : ∀ i, start ≤ i → i < stop → window i = window' i) {offset size : Nat}
    (hsize : 1 ≤ size) (nodes : List H) :
    rebuild node window start stop offset size nodes = rebuild node window' start stop offset size nodes :=
  rebuildFuel_congr h size offset size nodes hsize

theorem rebuildFuel_outsideSpans {leaf : Nat → H} (hwindow : ∀ i, start ≤ i → i < stop → window i = leaf i)
    {offset size : Nat} (hsize : 1 ≤ size) : ∀ (fuel : Nat), size ≤ fuel → ∀ rest : List H,
      rebuildFuel node window start stop fuel offset size
          ((outsideSpans start stop offset size).map (fun span => spanRoot node leaf span.1 span.2) ++ rest) =
        some (spanRoot node leaf offset size, rest) := by
  refine window_induction start stop (P := fun offset size => ∀ (fuel : Nat), size ≤ fuel → ∀ rest : List H,
      rebuildFuel node window start stop fuel offset size
          ((outsideSpans start stop offset size).map (fun span => spanRoot node leaf span.1 span.2) ++ rest) =
        some (spanRoot node leaf offset size, rest)) ?_ ?_ ?_ offset size hsize
  · intro offset size hone hout fuel hfuel rest
    obtain ⟨fuel, rfl⟩ : ∃ n, fuel = n + 1 := ⟨fuel - 1, by omega⟩
    rw [rebuildFuel, if_pos hout, outsideSpans_eq hone, if_pos hout]
    rfl
  · intro offset size hone hout hin fuel hfuel rest
    obtain ⟨fuel, rfl⟩ : ∃ n, fuel = n + 1 := ⟨fuel - 1, by omega⟩
    rw [rebuildFuel, if_neg hout, if_pos hin, outsideSpans_eq hone, if_neg hout, if_pos hin]
    have hroot : spanRoot node window offset size = spanRoot node leaf offset size :=
      spanRoot_congr node hone fun i hlow hhigh => hwindow i (hin.1.trans hlow) (hhigh.trans_le hin.2)
    rw [hroot]
    rfl
  · intro offset size htwo hout hin ihl ihr fuel hfuel rest
    obtain ⟨fuel, rfl⟩ : ∃ n, fuel = n + 1 := ⟨fuel - 1, by omega⟩
    have hlt := splitPoint_lt htwo
    have hpos := splitPoint_pos size
    rw [rebuildFuel, if_neg hout, if_neg hin, outsideSpans_eq (by omega), if_neg hout, if_neg hin, List.map_append,
      List.append_assoc, ihl fuel (by omega), Option.bind_some]
    dsimp only
    rw [ihr fuel (by omega), Option.bind_some, spanRoot_split node leaf offset htwo]

/-- From the roots of the maximal outside subtrees, in order, the descent rebuilds the tree's root and
uses them up. -/
theorem rebuild_outsideSpans {leaf : Nat → H} (hwindow : ∀ i, start ≤ i → i < stop → window i = leaf i)
    {offset size : Nat} (hsize : 1 ≤ size) :
    rebuild node window start stop offset size
        ((outsideSpans start stop offset size).map fun span => spanRoot node leaf span.1 span.2) =
      some (spanRoot node leaf offset size, []) := by
  have h : rebuildFuel node window start stop size offset size (((outsideSpans start stop offset size).map
      fun span => spanRoot node leaf span.1 span.2) ++ []) = some (spanRoot node leaf offset size, []) :=
    rebuildFuel_outsideSpans hwindow hsize size le_rfl []
  rwa [List.append_nil] at h

end rebuild

end AhlMirror.Merkle
