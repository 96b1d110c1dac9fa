import AhlMirror.Merkle.Blocks
import AhlMirror.Merkle.RangeSpans

/-!
# What opening a tree costs

Against a reader that holds every perfect subtree of a tree, a walk reads each node it asks for
(`NodeQuery.cost`). The root of a span that fits its place in the tree costs one node a block
(`subtreeWalk_cost`), so every path and every set of carried subtrees costs a number of nodes logarithmic
in the tree: beside the right spine, each subtree of the decomposition is perfect.
-/

namespace AhlMirror.Merkle

namespace NodeQuery
variable {H α β ε σ : Type}

/-- The number of nodes the computation asks a fixed reader for. -/
def cost (get : Nat → Nat → Option H) (q : NodeQuery H α) : Nat := (q.asked get).length

@[simp] theorem cost_done (get : Nat → Nat → Option H) (result : α) : (done result : NodeQuery H α).cost get = 0 := rfl

@[simp] theorem cost_ask (get : Nat → Nat → Option H) (level index : Nat) (next : Option H → NodeQuery H α) :
    (ask level index next).cost get = (next (get level index)).cost get + 1 := rfl

theorem cost_andThen {get : Nat → Nat → Option H} {f : α → NodeQuery H (Except ε β)} {a : α} :
    ∀ {q : NodeQuery H (Except ε α)}, q.eval get = .ok a → (q.andThen f).cost get = q.cost get + (f a).cost get
  | done (.ok _), heval => by
    obtain rfl := Except.ok.inj heval
    rw [andThen, cost_done, Nat.zero_add]
  | done (.error _), heval => nomatch heval
  | ask level index next, heval => by
    have hrest := cost_andThen (f := f) (q := next (get level index)) heval
    rw [andThen, cost_ask, cost_ask, hrest, Nat.add_right_comm]

theorem run_cost {P : Nat → Nat → Prop} {I : σ → Prop} {get : Nat → Nat → Option H}
    {reader : Nat → Nat → σ → Option H × σ} {counter : σ → Nat} {raise : Nat → Nat}
    (hread : ∀ level index s, P level index → I s → (reader level index s).1 = get level index ∧
      I (reader level index s).2 ∧ counter (reader level index s).2 = raise (counter s)) :
    ∀ {q : NodeQuery H α} {s : σ}, q.Asks P → I s → counter (q.run reader s).2 = raise^[q.cost get] (counter s)
  | done _, _, _, _ => rfl
  | ask level index next, s, hq, hs => by
    obtain ⟨hanswer, hinv, hcount⟩ := hread level index s hq.1 hs
    rw [run, cost_ask, Function.iterate_succ_apply, hanswer, run_cost hread (hq.2 _) hinv, hcount]

end NodeQuery

/-! ### The number of blocks -/

/-- The number of perfect subtrees a prefix is made of, one for each set bit. -/
def blockCount (n : Nat) : Nat := (blocks n).length

theorem length_blocksBelow_congr {n m : Nat} : ∀ {level : Nat}, n % 2 ^ level = m % 2 ^ level →
    (blocksBelow n level).length = (blocksBelow m level).length
  | 0, _ => rfl
  | level + 1, h => by
    have hbelow : n % 2 ^ level = m % 2 ^ level := by
      have hdvd : 2 ^ level ∣ 2 ^ (level + 1) := pow_dvd_pow 2 (Nat.le_succ level)
      rw [← Nat.mod_mod_of_dvd n hdvd, h, Nat.mod_mod_of_dvd m hdvd]
    have hbit : n / 2 ^ level % 2 = m / 2 ^ level % 2 := by
      rw [pow_succ, Nat.mod_mul, Nat.mod_mul, hbelow] at h
      exact Nat.eq_of_mul_eq_mul_left (Nat.two_pow_pos level) (Nat.add_left_cancel h)
    by_cases hodd : n / 2 ^ level % 2 = 1
    · rw [blocksBelow_succ_of_odd hodd, blocksBelow_succ_of_odd (hbit ▸ hodd), List.length_cons, List.length_cons,
        length_blocksBelow_congr hbelow]
    · rw [blocksBelow_succ_of_even hodd, blocksBelow_succ_of_even (hbit ▸ hodd), length_blocksBelow_congr hbelow]

theorem blockCount_add {level rest : Nat} (h : rest < 2 ^ level) : blockCount (2 ^ level + rest) = blockCount rest + 1 := by
  have hwidth := Nat.two_pow_pos level
  have hbit : (2 ^ level + rest) / 2 ^ level % 2 = 1 := by
    rw [Nat.add_div_left _ hwidth, Nat.div_eq_of_lt h]
  have hlt : 2 ^ level + rest < 2 ^ (level + 1) := by
    rw [pow_succ]
    omega
  unfold blockCount
  rw [← blocksBelow_eq hlt, ← blocksBelow_eq h, blocksBelow_succ_of_odd hbit, List.length_cons,
    length_blocksBelow_congr (Nat.add_mod_left _ _)]

@[simp] theorem blockCount_two_pow (level : Nat) : blockCount (2 ^ level) = 1 :=
  blockCount_add (Nat.two_pow_pos level)

theorem length_blocksBelow_le (n : Nat) : ∀ level, (blocksBelow n level).length ≤ level
  | 0 => le_rfl
  | level + 1 => by
    have hrest := length_blocksBelow_le n level
    by_cases hodd : n / 2 ^ level % 2 = 1
    · rw [blocksBelow_succ_of_odd hodd, List.length_cons]
      omega
    · rw [blocksBelow_succ_of_even hodd]
      omega

theorem blockCount_le_of_lt {n level : Nat} (h : n < 2 ^ level) : blockCount n ≤ level := by
  unfold blockCount
  rw [← blocksBelow_eq h]
  exact length_blocksBelow_le n level

theorem blockCount_le (n : Nat) : blockCount n ≤ Nat.clog 2 n + 1 :=
  blockCount_le_of_lt ((Nat.le_pow_clog (by omega) n).trans_lt (Nat.pow_lt_pow_right (by omega) (Nat.lt_succ_self _)))

/-! ### The shape of a tree -/

/-- A span of at most `2 ^ level` leaves starts at a multiple of that width. -/
def Fitting (offset size : Nat) : Prop := ∃ level, 2 ^ level ∣ offset ∧ size ≤ 2 ^ level

theorem fitting_zero (size : Nat) : Fitting 0 size := ⟨size, dvd_zero _, Nat.lt_two_pow_self.le⟩

theorem Fitting.left {offset size : Nat} (htwo : 2 ≤ size) (h : Fitting offset size) : Fitting offset (splitPoint size) := by
  obtain ⟨level, hdvd, hle⟩ := h
  exact ⟨level, hdvd, (splitPoint_lt htwo).le.trans hle⟩

theorem Fitting.right {offset size : Nat} (htwo : 2 ≤ size) (h : Fitting offset size) :
    Fitting (offset + splitPoint size) (size - splitPoint size) := by
  obtain ⟨level, hdvd, hle⟩ := h
  obtain ⟨half, hhalf⟩ := splitPoint_eq_two_pow_log2 size
  have hlt := splitPoint_lt htwo
  have hdouble := le_two_mul_splitPoint htwo
  rw [hhalf] at hlt hdouble ⊢
  have hlevel : half ≤ level := ((Nat.pow_lt_pow_iff_right (by omega)).1 (hlt.trans_le hle)).le
  exact ⟨half, (Nat.dvd_add_right ((pow_dvd_pow 2 hlevel).trans hdvd)).2 dvd_rfl, by omega⟩

theorem IsSubtree.fitting {offset size o s : Nat} (h : IsSubtree offset size o s) (hroot : Fitting offset size) :
    Fitting o s := by
  induction h with
  | root => exact hroot
  | left _ htwo ih => exact ih.left htwo
  | right _ htwo ih => exact ih.right htwo

theorem Fitting.aligned {offset level : Nat} (h : Fitting offset (2 ^ level)) : Aligned offset (2 ^ level) := by
  obtain ⟨above, hdvd, hle⟩ := h
  have hlevel : level ≤ above := (Nat.pow_le_pow_iff_right (by omega)).1 hle
  exact ⟨by rw [Nat.log2_two_pow], Nat.mod_eq_zero_of_dvd ((pow_dvd_pow 2 hlevel).trans hdvd)⟩

theorem clog_rest {size : Nat} (htwo : 2 ≤ size) : Nat.clog 2 (size - splitPoint size) + 1 ≤ Nat.clog 2 size := by
  rw [clog_splitPoint htwo]
  have hdouble := le_two_mul_splitPoint htwo
  exact Nat.succ_le_succ (Nat.clog_mono_right 2 (by omega))

@[simp] theorem blockCount_splitPoint (size : Nat) : blockCount (splitPoint size) = 1 := blockCount_two_pow _

theorem blockCount_split {size : Nat} (htwo : 2 ≤ size) (hpower : size ≠ 2 * splitPoint size) :
    blockCount size = blockCount (size - splitPoint size) + 1 := by
  obtain ⟨half, hhalf⟩ := splitPoint_eq_two_pow_log2 size
  have hlt := splitPoint_lt htwo
  have hdouble := le_two_mul_splitPoint htwo
  rw [hhalf] at hlt hdouble hpower ⊢
  have hsum := blockCount_add (show size - 2 ^ half < 2 ^ half by omega)
  rwa [Nat.add_sub_cancel' hlt.le] at hsum

theorem blockCount_rest {size : Nat} (htwo : 2 ≤ size) : blockCount (size - splitPoint size) ≤ blockCount size := by
  by_cases hpower : size = 2 * splitPoint size
  · obtain ⟨half, hhalf⟩ := splitPoint_eq_two_pow_log2 size
    have hrest : size - splitPoint size = splitPoint size := by omega
    rw [hrest, blockCount_splitPoint, hpower, hhalf, Nat.mul_comm, ← pow_succ, blockCount_two_pow]
  · rw [blockCount_split htwo hpower]
    exact Nat.le_succ _

theorem one_le_blockCount {size : Nat} (hone : 1 ≤ size) : 1 ≤ blockCount size := by
  obtain ⟨block, hblock, -⟩ := blocks_cover (show 0 < size from hone)
  exact List.length_pos_of_mem hblock

/-! ### The walks against a full reader -/

section walks
variable {H ε : Type} (node : H → H → H) (miss : Nat → ε)

/-- A reader that holds every perfect subtree below `bound`. -/
structure Full (leaf : Nat → H) (bound : Nat) (get : Nat → Nat → Option H) : Prop extends Opens node leaf bound get where
  held : ∀ level index, (index + 1) * 2 ^ level ≤ bound → (get level index).isSome

open NodeQuery

variable {node} {leaf : Nat → H} {bound : Nat} {get : Nat → Nat → Option H}

variable (node) in
theorem Full.subtreeWalkFuel_cost (hget : Full node leaf bound get) (fuel : Nat) : ∀ offset size : Nat, 1 ≤ size →
    size ≤ fuel → Fitting offset size → offset + size ≤ bound →
      (subtreeWalkFuel node miss fuel offset size).cost get = blockCount size := by
  induction fuel with
  | zero => intro offset size hone hfuel; omega
  | succ fuel ih =>
    intro offset size hone hfuel hfitting hbound
    rw [subtreeWalkFuel]
    by_cases halign : Aligned offset size
    · -- a perfect subtree is the one node it is
      obtain ⟨hash, hhash⟩ := Option.isSome_iff_exists.1 (hget.held _ _ (halign.inSpan.2.trans hbound))
      rw [if_pos halign, cost_ask, hhash, cost_done, halign.1, blockCount_two_pow]
    · have hnot : ∀ level, size ≠ 2 ^ level := by
        rintro level rfl
        exact halign hfitting.aligned
      have htwo : 2 ≤ size := by
        have := hnot 0
        omega
      have hlt := splitPoint_lt htwo
      have hpos := splitPoint_pos size
      have hleft := ih offset (splitPoint size) hpos (by omega) (hfitting.left htwo) (by omega)
      have hright := ih _ (size - splitPoint size) (by omega) (by omega) (hfitting.right htwo) (by omega)
      have heval := subtreeWalkFuel_eval node miss hget.toOpens fuel
      have hcount : blockCount size = blockCount (size - splitPoint size) + 1 := by
        obtain ⟨half, hhalf⟩ := splitPoint_eq_two_pow_log2 size
        apply blockCount_split htwo
        rw [hhalf, Nat.mul_comm, ← pow_succ]
        exact hnot _
      rw [if_neg halign, if_neg (by omega), cost_andThen (heval _ _ hpos (by omega) (by omega)), hleft,
        cost_andThen (heval _ _ (by omega) (by omega) (by omega)), hright, cost_done, hcount,
        blockCount_splitPoint]
      omega

theorem Full.subtreeWalk_cost (hget : Full node leaf bound get) {offset size : Nat} (hone : 1 ≤ size)
    (hfitting : Fitting offset size) (hbound : offset + size ≤ bound) :
    (subtreeWalk node miss offset size).cost get = blockCount size :=
  hget.subtreeWalkFuel_cost node miss size offset size hone le_rfl hfitting hbound

theorem Full.pathWalkFuel_cost (hget : Full node leaf bound get) (fuel : Nat) : ∀ offset size index : Nat,
    1 ≤ size → Fitting offset size → offset + size ≤ bound →
      (pathWalkFuel node miss fuel offset size index).cost get + 1 ≤ Nat.clog 2 size + blockCount size := by
  induction fuel with
  | zero =>
    intro offset size index hone _ _
    rw [pathWalkFuel, cost_done]
    exact le_add_left (one_le_blockCount hone)
  | succ fuel ih =>
    intro offset size index hone hfitting hbound
    rw [pathWalkFuel]
    by_cases hleaf : size ≤ 1
    · rw [if_pos hleaf, cost_done]
      exact le_add_left (one_le_blockCount hone)
    · have htwo : 2 ≤ size := by omega
      have hlt := splitPoint_lt htwo
      have hpos := splitPoint_pos size
      have hlevel := clog_splitPoint htwo
      have hrest := clog_rest htwo
      have hspine := blockCount_rest htwo
      have heval := pathWalkFuel_eval node miss hget.toOpens fuel
      rw [if_neg hleaf]
      split_ifs with hindex
      · -- the left half is perfect, and the sibling is the right one
        have hpath := ih offset (splitPoint size) index hpos (hfitting.left htwo) (by omega)
        rw [blockCount_splitPoint] at hpath
        rw [cost_andThen (heval _ _ index (by omega)),
          cost_andThen (subtreeWalk_eval node miss hget.toOpens (by omega) (by omega)),
          hget.subtreeWalk_cost miss (by omega) (hfitting.right htwo) (by omega), cost_done]
        omega
      · have hpath := ih _ (size - splitPoint size) (index - splitPoint size) (by omega) (hfitting.right htwo) (by omega)
        rw [cost_andThen (heval _ _ (index - splitPoint size) (by omega)),
          cost_andThen (subtreeWalk_eval node miss hget.toOpens hpos (by omega)),
          hget.subtreeWalk_cost miss hpos (hfitting.left htwo) (by omega), blockCount_splitPoint, cost_done]
        omega

theorem Full.pathWalk_cost (hget : Full node leaf bound get) {size : Nat} (hone : 1 ≤ size) (index : Nat)
    (hbound : size ≤ bound) : (pathWalk node miss 0 size index).cost get + 1 ≤ Nat.clog 2 size + blockCount size :=
  hget.pathWalkFuel_cost miss size 0 size index hone (fitting_zero size) (by omega)

theorem Full.subproofWalkFuel_cost (hget : Full node leaf bound get) (fuel : Nat) :
    ∀ (offset size old : Nat) (anchored : Bool), 1 ≤ old → 1 ≤ size → Fitting offset size → offset + size ≤ bound →
      (subproofWalkFuel node miss fuel offset size old anchored).cost get ≤ Nat.clog 2 size + blockCount size := by
  induction fuel with
  | zero => intro offset size old anchored _ _ _ _; exact Nat.zero_le _
  | succ fuel ih =>
    intro offset size old anchored hold hsize hfitting hbound
    rw [subproofWalkFuel]
    by_cases hle : size ≤ old
    · rw [if_pos hle]
      split_ifs with hanchored
      · exact Nat.zero_le _
      · rw [cost_andThen (subtreeWalk_eval node miss hget.toOpens hsize hbound),
          hget.subtreeWalk_cost miss hsize hfitting hbound, cost_done]
        exact Nat.le_add_left _ _
    · have htwo : 2 ≤ size := by omega
      have hlt := splitPoint_lt htwo
      have hpos := splitPoint_pos size
      have hlevel := clog_splitPoint htwo
      have hrest := clog_rest htwo
      have hspine := blockCount_rest htwo
      have heval := subproofWalkFuel_eval node miss hget.toOpens fuel
      rw [if_neg hle]
      split_ifs with hold'
      · have hpath := ih offset (splitPoint size) old anchored hold hpos (hfitting.left htwo) (by omega)
        rw [blockCount_splitPoint] at hpath
        rw [cost_andThen (heval _ _ old anchored hold hpos (by omega)),
          cost_andThen (subtreeWalk_eval node miss hget.toOpens (by omega) (by omega)),
          hget.subtreeWalk_cost miss (by omega) (hfitting.right htwo) (by omega), cost_done]
        omega
      · have hpath := ih _ (size - splitPoint size) (old - splitPoint size) false (by omega) (by omega)
          (hfitting.right htwo) (by omega)
        rw [cost_andThen (heval _ _ (old - splitPoint size) false (by omega) (by omega) (by omega)),
          cost_andThen (subtreeWalk_eval node miss hget.toOpens hpos (by omega)),
          hget.subtreeWalk_cost miss hpos (hfitting.left htwo) (by omega), blockCount_splitPoint, cost_done]
        omega

theorem Full.consistencyWalk_cost (hget : Full node leaf bound get) {old size : Nat} (hle : old ≤ size)
    (hbound : size ≤ bound) :
    (consistencyWalk node miss old size).cost get ≤ Nat.clog 2 size + blockCount size := by
  unfold consistencyWalk
  split_ifs with htrivial
  · exact Nat.zero_le _
  · exact hget.subproofWalkFuel_cost miss size 0 size old true (by omega) (by omega) (fitting_zero size) (by omega)

end walks

/-! ### The subtrees outside a window -/

section window
variable {start stop : Nat}

theorem outsideSpans_fitting {offset size : Nat} (hsize : 1 ≤ size) (hfitting : Fitting offset size) {span : Nat × Nat}
    (h : span ∈ outsideSpans start stop offset size) : Fitting span.1 span.2 :=
  ((mem_outsideSpans_iff hsize span.1 span.2).1 h).subtree.fitting hfitting

/-- The blocks of the subtrees outside a window: at most one a level for each end of the window that lies inside
the span, and for the far end also the span's own blocks. -/
theorem sum_blockCount_outsideSpans_le (hwindow : start < stop) {offset size : Nat} (hsize : 1 ≤ size) :
    ¬ Outside start stop offset size → ((outsideSpans start stop offset size).map fun span => blockCount span.2).sum ≤
      (if offset < start then Nat.clog 2 size else 0) +
        (if stop < offset + size then Nat.clog 2 size + blockCount size - 1 else 0) := by
  refine window_induction start stop (P := fun offset size => ¬ Outside start stop offset size →
      ((outsideSpans start stop offset size).map fun span => blockCount span.2).sum ≤
        (if offset < start then Nat.clog 2 size else 0) +
          (if stop < offset + size then Nat.clog 2 size + blockCount size - 1 else 0))
    ?_ ?_ ?_ offset size hsize
  · intro offset size _ hout hnot
    exact absurd hout hnot
  · intro offset size hone hout hin _
    rw [outsideSpans_eq hone, if_neg hout, if_pos hin]
    exact Nat.zero_le _
  · intro offset size htwo hout hin ihl ihr _
    have hlt := splitPoint_lt htwo
    have hpos := splitPoint_pos size
    have hlevel := clog_splitPoint htwo
    have hrest := clog_rest htwo
    have hspine := blockCount_rest htwo
    have hpositive := one_le_blockCount (show 1 ≤ size by omega)
    have hone : ∀ o s, 1 ≤ s → Outside start stop o s →
        ((outsideSpans start stop o s).map fun span => blockCount span.2).sum = blockCount s := by
      intro o s hs houter
      rw [outsideSpans_eq hs, if_pos houter, List.map_singleton, List.sum_singleton]
    rw [blockCount_splitPoint] at ihl
    rw [outsideSpans_eq (by omega), if_neg hout, if_neg hin, List.map_append, List.sum_append]
    by_cases hl : Outside start stop offset (splitPoint size)
    · -- the left half is one block, and the window starts beyond it
      have hr : ¬ Outside start stop (offset + splitPoint size) (size - splitPoint size) := by
        unfold Outside at hout hl ⊢
        omega
      have hright := ihr hr
      rw [hone _ _ hpos hl, blockCount_splitPoint]
      unfold Outside at hout hl hr
      split_ifs at hright ⊢ <;> omega
    · have hleft := ihl hl
      by_cases hr : Outside start stop (offset + splitPoint size) (size - splitPoint size)
      · rw [hone _ _ (by omega) hr]
        unfold Outside at hout hl hr
        split_ifs at hleft ⊢ <;> omega
      · -- the window reaches both halves, so it has one end in each
        have hright := ihr hr
        unfold Outside at hout hl hr
        split_ifs at hleft hright ⊢ <;> omega

end window

end AhlMirror.Merkle
